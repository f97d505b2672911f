import OverlayMotion.Proofs.Extended
import OverlayMotion.Proofs.Magnitude
import OverlayMotion.Proofs.Quantities
import OverlayMotion.Rendering.Preview

/-! Descriptors and timelines in order. The rules of the descriptors refuse numbers that
compare the wrong way, and so they let pass what does not compare at all: what they accept is
in order exactly if none of its numbers is an undefined double. The same holds of the times
at which the phases meet, infinite ones included. -/
namespace OverlayMotion
open Scalar (float)

section
variable {ν : Type} [Number ν]

structure Phase.InOrder (p : Phase ν) : Prop where
  duration : Number.le Number.zero p.duration
  zoomFrom : Number.lt Number.zero p.zoomFrom
  zoomTo : Number.lt Number.zero p.zoomTo
  overshoot : ∀ peak ∈ p.overshoot, Number.lt p.zoomTo peak

structure Animation.InOrder (a : Animation ν) : Prop where
  hold : Number.le Number.zero a.hold
  entry : ∀ p ∈ a.entry, p.InOrder
  exit : ∀ p ∈ a.exit, p.InOrder

structure Placement.InOrder (p : Placement ν) : Prop where
  start : Number.le Number.zero p.start
  finish : Number.le p.start p.finish
  animation : ∀ a ∈ p.animation, a.InOrder

structure Timeline.InOrder (t : Timeline ν) (finish : ν) : Prop where
  entering : Number.le t.start t.inEnd
  holding : Number.le t.inEnd t.holdEnd
  exiting : Number.le t.holdEnd t.outEnd
  opens : Number.le t.start t.clampedEnd
  closes : Number.le t.clampedEnd finish

end

structure Overlay.InOrder (o : Overlay Scalar) : Prop where
  placement : o.placement.InOrder
  idle : ∀ i ∈ Preview.idle? o, Number.le Number.zero i.speed

section
variable {ν : Type}

def Placement.timing (p : Placement ν) : List ν :=
  [p.start, p.finish] ++ p.animation.toList.flatMap Animation.numbers

end

def Overlay.ruled (o : Overlay Scalar) : List Scalar :=
  o.placement.timing ++ (Preview.idle? o).toList.map Idle.speed

section
variable {v : Scalar}

theorem Scalar.nonnegative (accepted : Number.isNegative v = false) :
    Number.le Number.zero v ↔ v.Defined :=
  (leUnlessAbove accepted).trans (and_iff_right trivial)

theorem Scalar.positive (accepted : Number.isNonPositive v = false) :
    Number.lt Number.zero v ↔ v.Defined :=
  (ltUnlessAbove accepted).trans (and_iff_right trivial)

end

theorem Phase.Constructed.ordered {p : Phase Scalar} (made : p.Constructed) :
    p.InOrder ↔ ∀ v ∈ p.numbers, v.Defined := by
  obtain ⟨away, rest, peaks⟩ := made.scales
  simp only [numbers, List.forall_mem_append, List.forall_mem_cons, Option.mem_toList]
  constructor
  · intro order
    exact ⟨⟨(Scalar.nonnegative made.duration).mp order.duration,
      (Scalar.positive away).mp order.zoomFrom, (Scalar.positive rest).mp order.zoomTo, nofun⟩,
      fun peak given => ((Scalar.ltUnlessAbove (peaks peak given)).mp (order.overshoot peak given)).2⟩
  · rintro ⟨⟨duration, zoomFrom, zoomTo, _⟩, overshoot⟩
    exact ⟨(Scalar.nonnegative made.duration).mpr duration, (Scalar.positive away).mpr zoomFrom,
      (Scalar.positive rest).mpr zoomTo, fun peak given =>
        (Scalar.ltUnlessAbove (peaks peak given)).mpr ⟨zoomTo, overshoot peak given⟩⟩

theorem Animation.Constructed.ordered {a : Animation Scalar} (made : a.Constructed) :
    a.InOrder ↔ ∀ v ∈ a.numbers, v.Defined := by
  simp only [numbers, List.forall_mem_cons, List.forall_mem_flatMap, List.forall_mem_append,
    Option.mem_toList]
  constructor
  · rintro ⟨hold, entry, exit⟩
    exact ⟨(Scalar.nonnegative made.hold).mp hold,
      fun p given => (made.entry p given).ordered.mp (entry p given),
      fun p given => (made.exit p given).ordered.mp (exit p given)⟩
  · rintro ⟨hold, entry, exit⟩
    exact ⟨(Scalar.nonnegative made.hold).mpr hold,
      fun p given => (made.entry p given).ordered.mpr (entry p given),
      fun p given => (made.exit p given).ordered.mpr (exit p given)⟩

theorem Overlay.Constructed.ordered {o : Overlay Scalar} (made : o.Constructed)
    (idle : ∀ i ∈ Preview.idle? o, i.rejection? = none) :
    o.InOrder ↔ ∀ v ∈ o.ruled, v.Defined := by
  have swinging {i : Idle Scalar} (given : i ∈ Preview.idle? o) :
      Number.le Number.zero i.speed ↔ i.speed.Defined := by
    refine Scalar.nonnegative (Bool.eq_false_iff.mpr fun negative => ?_)
    have passed := idle i given
    rw [Idle.rejection?, if_pos negative] at passed
    cases passed
  simp only [ruled, Placement.timing, List.forall_mem_append, List.forall_mem_cons,
    List.forall_mem_flatMap, List.forall_mem_map, Option.mem_toList]
  constructor
  · rintro ⟨⟨start, finish, animation⟩, speed⟩
    have window := (Scalar.leUnlessAbove made.window).mp finish
    exact ⟨⟨⟨window.1, window.2, nofun⟩, fun a given =>
      (made.animation a given).ordered.mp (animation a given)⟩,
      fun i given => (swinging given).mp (speed i given)⟩
  · rintro ⟨⟨⟨start, finish, _⟩, animation⟩, speed⟩
    exact ⟨⟨(Scalar.nonnegative made.begins).mpr start,
      (Scalar.leUnlessAbove made.window).mpr ⟨start, finish⟩, fun a given =>
        (made.animation a given).ordered.mpr (animation a given)⟩,
      fun i given => (swinging given).mpr (speed i given)⟩

def Placement.times {ν : Type} [Number ν] (p : Placement ν) : List ν :=
  [p.start, p.finish] ++ p.animation.toList.flatMap fun a => [a.inDuration, a.hold, a.outDuration]

theorem Placement.timesGiven {p : Placement Scalar} {P : Scalar → Prop} (none : P (Number.ofDecimal 0 0))
    (given : ∀ v ∈ p.timing, P v) : ∀ v ∈ p.times, P v := by
  simp only [timing, times, List.forall_mem_append, List.forall_mem_flatMap, List.forall_mem_cons,
    Option.mem_toList] at given ⊢
  refine ⟨given.1, fun a inside => ?_⟩
  have numbers := given.2 a inside
  refine ⟨?_, numbers a.hold List.mem_cons_self, ?_, nofun⟩
  · rw [Animation.inDuration]
    split
    · rename_i p entry
      exact numbers _ (Animation.phaseNumbers (.inl entry) List.mem_cons_self)
    · exact none
  · rw [Animation.outDuration]
    split
    · rename_i p exit
      exact numbers _ (Animation.phaseNumbers (.inr exit) List.mem_cons_self)
    · exact none

theorem Animation.Constructed.durations {a : Animation Scalar} (made : a.Constructed) :
    Number.isNegative a.inDuration = false ∧ Number.isNegative a.outDuration = false := by
  have none : Number.isNegative (Number.ofDecimal 0 0 : Scalar) = false := by decide +kernel
  constructor
  · rw [inDuration]
    split
    · exact (made.entry _ ‹_›).duration
    · exact none
  · rw [outDuration]
    split
    · exact (made.exit _ ‹_›).duration
    · exact none

theorem Timeline.closesOrdered {start outEnd finish : Scalar} (shown : Number.le start outEnd)
    (window : Number.le start finish) :
    Number.le start (Number.min outEnd finish) ∧ Number.le (Number.min outEnd finish) finish := by
  rw [Number.min]
  split_ifs with early
  · exact ⟨window, Scalar.leSelf.mpr (Scalar.leDefined window).2⟩
  · exact ⟨shown, (Scalar.leUnlessAbove (Bool.eq_false_iff.mpr early)).mpr
      ⟨(Scalar.leDefined shown).2, (Scalar.leDefined window).2⟩⟩

theorem Timeline.stillOrdered {start finish : Scalar} (window : Number.lt finish start = false) :
    (⟨start, start, finish, finish, finish, none, none⟩ : Timeline Scalar).InOrder finish ↔
      start.Defined ∧ finish.Defined := by
  constructor
  · intro order
    exact Scalar.leDefined order.opens
  · rintro ⟨starts, ends⟩
    have shown := (Scalar.leUnlessAbove window).mpr ⟨starts, ends⟩
    have instant := Scalar.leSelf.mpr ends
    exact ⟨Scalar.leSelf.mpr starts, shown, instant, shown, instant⟩

theorem Timeline.movingOrdered {start entering hold exiting : Float} {finish : Scalar}
    {entry exit : Option (Phase Scalar)} (begins : Number.isNegative (float start) = false)
    (lasts : ∀ x ∈ [entering, hold, exiting], Number.isNegative (float x) = false)
    (window : Number.lt finish (float start) = false) :
    (⟨float start, float (start + entering), float (start + entering + hold),
      float (start + entering + hold + exiting),
      Number.min (float (start + entering + hold + exiting)) finish, entry, exit⟩ :
        Timeline Scalar).InOrder finish ↔
      (float start).Defined ∧ finish.Defined ∧
        ∀ x ∈ [entering, hold, exiting], (float x).Defined := by
  constructor
  · intro order
    have sum := (Scalar.leDefined order.exiting).2
    obtain ⟨sum, exits⟩ := Scalar.definedSum sum
    obtain ⟨sum, holds⟩ := Scalar.definedSum sum
    obtain ⟨starts, enters⟩ := Scalar.definedSum sum
    refine ⟨starts, (Scalar.leDefined order.closes).2, ?_⟩
    simp only [List.forall_mem_cons]
    exact ⟨enters, holds, exits, nofun⟩
  · rintro ⟨starts, ends, defined⟩
    have nonnegative (x : Float) (inside : x ∈ [entering, hold, exiting]) :
        Number.le Number.zero (float x) :=
      (Scalar.nonnegative (lasts x inside)).mpr (defined x inside)
    have opens := (Scalar.nonnegative begins).mpr starts
    have enters := Scalar.leSum opens (nonnegative entering (by simp))
    have holds := Scalar.leSum (Scalar.leTrans opens enters) (nonnegative hold (by simp))
    have exits := Scalar.leSum (Scalar.leTrans (Scalar.leTrans opens enters) holds)
      (nonnegative exiting (by simp))
    have shown := Scalar.leTrans (Scalar.leTrans enters holds) exits
    have closed := closesOrdered shown ((Scalar.leUnlessAbove window).mpr ⟨starts, ends⟩)
    exact ⟨enters, holds, exits, closed.1, closed.2⟩

theorem Timeline.ordered {p : Placement Scalar} (doubles : ∀ v ∈ p.times, v.Double)
    (begins : Number.isNegative p.start = false) (window : Number.lt p.finish p.start = false)
    (made : ∀ a ∈ p.animation, a.Constructed) :
    ∃ t, (ofPlacement p).outcome = .ok t ∧ (t.InOrder p.finish ↔ ∀ v ∈ p.times, v.Defined) := by
  obtain ⟨start, finish, x, y, animation⟩ := p
  rw [ofPlacement, observedOutcome]
  simp only [Placement.times] at doubles ⊢
  cases animation with
  | none =>
    refine ⟨_, rfl, (stillOrdered window).trans ?_⟩
    simp
  | some a =>
    simp only [Option.toList_some, List.flatMap_singleton, List.forall_mem_append,
      List.forall_mem_cons] at doubles
    obtain ⟨⟨⟨s, rfl⟩, ⟨f, rfl⟩, _⟩, ⟨i, hi⟩, ⟨h, hh⟩, ⟨u, hu⟩, _⟩ := doubles
    have durations := (made a rfl).durations
    rw [hi, hu] at durations
    have hold := (made a rfl).hold
    rw [hh] at hold
    have lasts : ∀ x ∈ [i, h, u], Number.isNegative (float x) = false := by
      simp only [List.forall_mem_cons]
      exact ⟨durations.1, hold, durations.2, nofun⟩
    have built : build (float s) (some (float f)) (some a) = .ok ⟨float s, float (s + i),
        float (s + i + h), float (s + i + h + u), Number.min (float (s + i + h + u)) (float f),
        Phase.visible? a.entry, Phase.visible? a.exit⟩ := by
      rw [build, hi, hh, hu]
      rfl
    refine ⟨_, built, (movingOrdered begins lasts window).trans ?_⟩
    simp [hi, hh, hu]

end OverlayMotion

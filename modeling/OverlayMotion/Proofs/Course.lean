import Mathlib.Order.Interval.Set.UnorderedInterval
import OverlayMotion.Proofs.Gradual

/-! The course of a quantity over time. It comes by a piece that arrives where the rest is,
rests, and goes by a piece that departs from there; either piece may be missing, and the
rest may last no time. Positions, opacities and sizes are such courses, so what their
pieces are at their ends and how they change is said of single phases only. -/
namespace OverlayMotion

structure Course where
  comes : Option (Rat → Rat)
  rest : Rat
  goes : Option (Rat → Rat)
  inEnd : Rat
  holdEnd : Rat
  ordered : inEnd ≤ holdEnd
  arrives : ∀ f ∈ comes, f inEnd = rest
  departs : ∀ g ∈ goes, g holdEnd = rest

namespace Course
variable (c : Course) {now : Rat}

def value (now : Rat) : Rat :=
  ((if now < c.inEnd then c.comes.map (· now) else none).or
    (if c.holdEnd ≤ now then c.goes.map (· now) else none)).getD c.rest

theorem holding (after : c.inEnd ≤ now) (before : now ≤ c.holdEnd) : c.value now = c.rest := by
  rw [value, if_neg after.not_gt, Option.none_or]
  rcases before.lt_or_eq with early | rfl
  · rw [if_neg early.not_ge, Option.getD_none]
  · rw [if_pos le_rfl]
    cases last : c.goes with
    | none => rfl
    | some g => exact c.departs g last

theorem coming {f : Rat → Rat} (given : f ∈ c.comes) (before : now ≤ c.inEnd) :
    c.value now = f now := by
  rcases before.lt_or_eq with early | rfl
  · rw [value, if_pos early, Option.mem_def.mp given]
    rfl
  · rw [c.holding le_rfl c.ordered, c.arrives f given]

theorem going {g : Rat → Rat} (given : g ∈ c.goes) (after : c.holdEnd ≤ now) :
    c.value now = g now := by
  rw [value, if_neg (c.ordered.trans after).not_gt, Option.none_or, if_pos after,
    Option.mem_def.mp given]
  rfl

theorem waiting (absent : c.comes = none) (before : now ≤ c.holdEnd) : c.value now = c.rest := by
  rcases le_or_gt c.inEnd now with after | early
  · exact c.holding after before
  · rw [value, if_pos early, absent, Option.map_none, Option.none_or,
      if_neg (early.trans_le c.ordered).not_ge, Option.getD_none]

theorem staying (absent : c.goes = none) (after : c.inEnd ≤ now) : c.value now = c.rest := by
  rw [value, if_neg after.not_gt, absent, Option.map_none, Option.none_or, ite_self,
    Option.getD_none]

theorem throughout {P : Rat → Prop} (rest : P c.rest) (comes : ∀ f ∈ c.comes, ∀ t, P (f t))
    (goes : ∀ g ∈ c.goes, ∀ t, P (g t)) (now : Rat) : P (c.value now) := by
  rcases le_total now c.inEnd with before | after
  · cases first : c.comes with
    | none => rwa [c.waiting first (before.trans c.ordered)]
    | some f =>
      rw [c.coming first before]
      exact comes f first now
  rcases le_total now c.holdEnd with before | late
  · rwa [c.holding after before]
  · cases last : c.goes with
    | none => rwa [c.staying last after]
    | some g =>
      rw [c.going last late]
      exact goes g last now

end Course

def Steady (f : Rat → Rat) (first last : Rat) (span : Set Rat) : Prop :=
  (first ≤ last → MonotoneOn f span) ∧ (last ≤ first → AntitoneOn f span)

theorem Steady.congr {f g : Rat → Rat} {first last : Rat} {span : Set Rat}
    (steady : Steady g first last span) (same : ∀ t ∈ span, f t = g t) :
    Steady f first last span :=
  ⟨fun up => (steady.1 up).congr fun t inside => (same t inside).symm,
    fun down => (steady.2 down).congr fun t inside => (same t inside).symm⟩

theorem limitedMonotone : Monotone limited := fun _ _ below =>
  min_le_min_right 1 (max_le_max_right 0 below)

theorem Easing.shareMonotone (easing : Easing) {p q : Rat} (low : 0 ≤ p) (below : p ≤ q)
    (high : q ≤ 1) : easing.share p ≤ easing.share q := by
  cases easing with
  | linear => exact below
  | easeIn => exact pow_le_pow_left₀ low below 3
  | easeOut =>
    have left : (1 - q) ^ 3 ≤ (1 - p) ^ 3 := pow_le_pow_left₀ (by linarith) (by linarith) 3
    simp only [share]
    linarith
  | easeInOut =>
    have factored : easeInOut.share q - easeInOut.share p =
        (q - p) * (3 * (p + q) - 2 * (p ^ 2 + p * q + q ^ 2)) := by
      simp only [share]
      ring
    have slope : 0 ≤ 3 * (p + q) - 2 * (p ^ 2 + p * q + q ^ 2) := by
      nlinarith [mul_nonneg low (low.trans below)]
    linarith [mul_nonneg (sub_nonneg.mpr below) slope]

theorem Easing.shareRange (easing : Easing) {p : Rat} (low : 0 ≤ p) (high : p ≤ 1) :
    0 ≤ easing.share p ∧ easing.share p ≤ 1 := by
  have least := easing.shareMonotone le_rfl low high
  have most := easing.shareMonotone low high le_rfl
  rw [shareStart] at least
  rw [shareEnd] at most
  exact ⟨least, most⟩

def eased (easing : Easing) (began length now : Rat) : Rat :=
  easing.share (limited ((now - began) / length))

section
variable (easing : Easing) {began length now : Rat}

theorem easedRange : 0 ≤ eased easing began length now ∧ eased easing began length now ≤ 1 := by
  obtain ⟨low, high⟩ := limitedRange ((now - began) / length)
  exact easing.shareRange low high

theorem easedMonotone (lasting : 0 < length) : Monotone (eased easing began length) := by
  intro t u below
  have passed : (t - began) / length ≤ (u - began) / length :=
    div_le_div_of_nonneg_right (sub_le_sub_right below began) lasting.le
  exact easing.shareMonotone (limitedRange _).1 (limitedMonotone passed) (limitedRange _).2

theorem easedBefore (lasting : 0 < length) (before : now ≤ began) :
    eased easing began length now = 0 := by
  have nothing : (now - began) / length ≤ 0 :=
    div_nonpos_of_nonpos_of_nonneg (sub_nonpos.mpr before) lasting.le
  rw [eased, limitedLow nothing, easing.shareStart]

theorem easedAfter (lasting : 0 < length) (after : began + length ≤ now) :
    eased easing began length now = 1 := by
  have whole : 1 ≤ (now - began) / length := by
    rw [one_le_div lasting]
    linarith
  rw [eased, limitedHigh whole, easing.shareEnd]

end

theorem coveredEased (p : Phase Rat) (began now : Rat) :
    p.covered began now = eased (p.easing.getD .linear) began p.duration now := rfl

theorem coveredRange (p : Phase Rat) (began now : Rat) :
    0 ≤ p.covered began now ∧ p.covered began now ≤ 1 := by
  exact easedRange _

section
variable {first last : Rat}

theorem partwayStart : partway first last 0 = first := by simp [partway]

theorem partwayEnd : partway first last 1 = last := by simp [partway]

theorem partwayInside {share : Rat} (range : 0 ≤ share ∧ share ≤ 1) :
    partway first last share ∈ Set.uIcc first last := by
  rw [Set.mem_uIcc]
  unfold partway
  rcases le_total first last with up | down
  · refine .inl ⟨?_, ?_⟩ <;> nlinarith
  · refine .inr ⟨?_, ?_⟩ <;> nlinarith

theorem partwaySteady {f : Rat → Rat} (rises : Monotone f) (span : Set Rat) :
    Steady (fun t => partway first last (f t)) first last span := by
  refine ⟨fun up t _ u _ below => ?_, fun down t _ u _ below => ?_⟩
  · have ahead := mul_le_mul_of_nonneg_right (rises below) (sub_nonneg.mpr up)
    simpa [partway] using ahead
  · have ahead := mul_le_mul_of_nonpos_right (rises below) (sub_nonpos.mpr down)
    simpa [partway] using ahead

end

theorem Animation.Constructed.alone [Reading] {a : Animation Rat} (made : a.Constructed) :
    ∀ b ∈ some a, b.Constructed := by
  rintro _ ⟨⟩
  exact made

theorem visibleGiven [Reading] {phase : Option (Phase Rat)} {p : Phase Rat} (given : p ∈ phase)
    (lasting : p.duration ≠ 0) (moving : p.effect ≠ .none) : p ∈ Phase.visible? phase := by
  rw [Option.mem_def.mp given, visiblePhase, if_neg (by simp [lasting, moving])]
  rfl

structure Timeline.Spans (t : Timeline Rat) : Prop where
  ordered : t.inEnd ≤ t.holdEnd
  entering : ∀ p ∈ t.entry, 0 < p.duration ∧ t.inEnd = t.start + p.duration
  exiting : ∀ p ∈ t.exit, 0 < p.duration ∧ t.outEnd = t.holdEnd + p.duration

theorem Timeline.builtSpans [Reading] {start : Rat} {finish : Option Rat} {a : Animation Rat}
    {t : Timeline Rat} (made : a.Constructed) (built : build start finish (some a) = .ok t) :
    t.Spans := by
  have runs := builtRuns built
  have began : t.start = start := by cases built; rfl
  have ended : t.outEnd = t.holdEnd + a.outDuration := by cases built; rfl
  refine ⟨?_, fun p shown => ?_, fun p shown => ?_⟩
  · rw [runs.holdEnd]
    exact le_add_of_nonneg_right made.holdNonneg
  · rw [runs.entry] at shown
    obtain ⟨given, lasts⟩ := visibleLasts made.entry p shown
    refine ⟨lasts, ?_⟩
    rw [runs.inEnd, began, Option.mem_def.mp given]
    rfl
  · rw [runs.exit] at shown
    obtain ⟨given, lasts⟩ := visibleLasts made.exit p shown
    refine ⟨lasts, ?_⟩
    rw [ended, Animation.outDuration, Option.mem_def.mp given]

structure Pieces (t : Timeline Rat) (rest : Rat) where
  coming : Phase Rat → Option (Rat → Rat)
  going : Phase Rat → Option (Rat → Rat)
  arrives : ∀ p ∈ t.entry, ∀ f ∈ coming p, f t.inEnd = rest
  departs : ∀ p ∈ t.exit, ∀ g ∈ going p, g t.holdEnd = rest

namespace Pieces
variable {t : Timeline Rat} {rest now : Rat} {p : Phase Rat} (pieces : Pieces t rest)
  (spans : t.Spans)

def course : Course where
  comes := t.entry.bind pieces.coming
  rest := rest
  goes := t.exit.bind pieces.going
  inEnd := t.inEnd
  holdEnd := t.holdEnd
  ordered := spans.ordered
  arrives f inside := by
    obtain ⟨p, shown, given⟩ := Option.bind_eq_some_iff.mp inside
    exact pieces.arrives p shown f given
  departs g inside := by
    obtain ⟨p, shown, given⟩ := Option.bind_eq_some_iff.mp inside
    exact pieces.departs p shown g given

theorem comes {f : Rat → Rat} (shown : p ∈ t.entry) (given : f ∈ pieces.coming p)
    (before : now ≤ t.inEnd) : (pieces.course spans).value now = f now :=
  (pieces.course spans).coming (Option.bind_eq_some_iff.mpr ⟨p, shown, given⟩) before

theorem goes {g : Rat → Rat} (shown : p ∈ t.exit) (given : g ∈ pieces.going p)
    (after : t.holdEnd ≤ now) : (pieces.course spans).value now = g now :=
  (pieces.course spans).going (Option.bind_eq_some_iff.mpr ⟨p, shown, given⟩) after

theorem waits (none : ∀ p ∈ t.entry, pieces.coming p = none) (before : now ≤ t.holdEnd) :
    (pieces.course spans).value now = rest :=
  (pieces.course spans).waiting (Option.bind_eq_none_iff.mpr none) before

theorem stays (none : ∀ p ∈ t.exit, pieces.going p = none) (after : t.inEnd ≤ now) :
    (pieces.course spans).value now = rest :=
  (pieces.course spans).staying (Option.bind_eq_none_iff.mpr none) after

theorem throughout {P : Rat → Prop} (resting : P rest)
    (comes : ∀ p ∈ t.entry, ∀ f ∈ pieces.coming p, ∀ now, P (f now))
    (goes : ∀ p ∈ t.exit, ∀ g ∈ pieces.going p, ∀ now, P (g now)) (now : Rat) :
    P ((pieces.course spans).value now) := by
  refine (pieces.course spans).throughout resting (fun f inside => ?_) (fun g inside => ?_) now
  · obtain ⟨p, shown, given⟩ := Option.bind_eq_some_iff.mp inside
    exact comes p shown f given
  · obtain ⟨p, shown, given⟩ := Option.bind_eq_some_iff.mp inside
    exact goes p shown g given

end Pieces

end OverlayMotion

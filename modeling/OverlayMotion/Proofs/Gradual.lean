import Mathlib.Algebra.Order.Group.MinMax
import OverlayMotion.Proofs.ZoomProfile

/-! Nothing jumps. Every quantity that an overlay's trees give a value to changes, over
exact rationals, by at most a fixed multiple of the change of the time. The bound passes
from clamped progress through easing to the way between two values, and over the boundary
of two phases wherever both agree there: an entry arrives where the rest is, an exit starts
from it, and an overshoot settles from its own peak. -/
namespace OverlayMotion

def Gradual (f : Rat → Rat) : Prop :=
  ∃ bound, 0 ≤ bound ∧ ∀ t u, |f t - f u| ≤ bound * |t - u|

namespace Gradual

variable {f g : Rat → Rat}

theorem const (c : Rat) : Gradual fun _ => c := ⟨0, le_rfl, by simp⟩

theorem scaled (change : Gradual f) {k : Rat} (h : ∀ t u, |g t - g u| ≤ k * |f t - f u|)
    (nonneg : 0 ≤ k) : Gradual g := by
  obtain ⟨bound, positive, within⟩ := change
  refine ⟨k * bound, mul_nonneg nonneg positive, fun t u => ?_⟩
  calc |g t - g u| ≤ k * |f t - f u| := h t u
    _ ≤ k * (bound * |t - u|) := mul_le_mul_of_nonneg_left (within t u) nonneg
    _ = k * bound * |t - u| := (mul_assoc _ _ _).symm

theorem partway (change : Gradual f) (first last : Rat) :
    Gradual fun t => partway first last (f t) := by
  refine change.scaled (k := |last - first|) (fun t u => ?_) (abs_nonneg _)
  have same : OverlayMotion.partway first last (f t) - OverlayMotion.partway first last (f u) =
      (last - first) * (f t - f u) := by
    unfold OverlayMotion.partway
    ring
  rw [same, abs_mul]

theorem glued (before : Gradual f) (after : Gradual g) {meeting : Rat}
    (agree : f meeting = g meeting) : Gradual fun t => if t < meeting then f t else g t := by
  obtain ⟨k, hk, beforeWithin⟩ := before
  obtain ⟨l, hl, afterWithin⟩ := after
  have across {t u : Rat} (ht : t < meeting) (hu : meeting ≤ u) :
      |f t - g u| ≤ (k + l) * |t - u| := by
    have first : |f t - f meeting| ≤ k * (u - t) :=
      (beforeWithin t meeting).trans (mul_le_mul_of_nonneg_left
        (by rw [abs_sub_comm, abs_of_pos (by linarith)]; linarith) hk)
    have second : |g meeting - g u| ≤ l * (u - t) :=
      (afterWithin meeting u).trans (mul_le_mul_of_nonneg_left
        (by rw [abs_sub_comm, abs_of_nonneg (by linarith)]; linarith) hl)
    calc |f t - g u| = |(f t - f meeting) + (g meeting - g u)| := by rw [agree]; ring_nf
      _ ≤ |f t - f meeting| + |g meeting - g u| := abs_add_le _ _
      _ ≤ (k + l) * (u - t) := by linarith
      _ = (k + l) * |t - u| := by rw [abs_sub_comm, abs_of_pos (by linarith)]
  have alone {t u : Rat} {r : Rat} (hr : r ≤ k * |t - u| ∨ r ≤ l * |t - u|) :
      r ≤ (k + l) * |t - u| := by
    have lengths := abs_nonneg (t - u)
    rcases hr with h | h
    · nlinarith [mul_nonneg hl lengths]
    · nlinarith [mul_nonneg hk lengths]
  refine ⟨k + l, add_nonneg hk hl, fun t u => ?_⟩
  rcases lt_or_ge t meeting with ht | ht <;> rcases lt_or_ge u meeting with hu | hu
  · simpa only [if_pos ht, if_pos hu] using alone (.inl (beforeWithin t u))
  · simpa only [if_pos ht, if_neg hu.not_gt] using across ht hu
  · simpa only [if_neg ht.not_gt, if_pos hu, abs_sub_comm] using across hu ht
  · simpa only [if_neg ht.not_gt, if_neg hu.not_gt] using alone (.inr (afterWithin t u))

end Gradual

theorem limitedRange (x : Rat) : 0 ≤ limited x ∧ limited x ≤ 1 :=
  ⟨le_min (le_max_right _ _) zero_le_one, min_le_right _ _⟩

theorem limitedLow {x : Rat} (h : x ≤ 0) : limited x = 0 := by
  rw [limited, max_eq_right h, min_eq_left zero_le_one]

theorem limitedHigh {x : Rat} (h : 1 ≤ x) : limited x = 1 := by
  rw [limited, max_eq_left (zero_le_one.trans h), min_eq_right h]

theorem limitedChange (x y : Rat) : |limited x - limited y| ≤ |x - y| := by
  calc |limited x - limited y| ≤ |max x 0 - max y 0| := by
        simpa [limited] using abs_min_sub_min_le_max (max x 0) 1 (max y 0) 1
    _ ≤ |x - y| := abs_max_sub_max_le_abs x y 0

theorem limitedGradual (began : Rat) {length : Rat} (lasting : 0 < length) :
    Gradual fun t => limited ((t - began) / length) := by
  refine ⟨1 / length, by positivity, fun t u => (limitedChange _ _).trans_eq ?_⟩
  have same : (t - began) / length - (u - began) / length = 1 / length * (t - u) := by ring
  rw [same, abs_mul, abs_of_pos (by positivity)]

namespace Easing

theorem shareStart (easing : Easing) : easing.share 0 = 0 := by
  cases easing <;> norm_num [share]

theorem shareEnd (easing : Easing) : easing.share 1 = 1 := by
  cases easing <;> norm_num [share]

theorem cubeChange {p q : Rat} (hp : 0 ≤ p ∧ p ≤ 1) (hq : 0 ≤ q ∧ q ≤ 1) :
    |p ^ 3 - q ^ 3| ≤ 3 * |p - q| := by
  have factored : p ^ 3 - q ^ 3 = (p ^ 2 + p * q + q ^ 2) * (p - q) := by ring
  rw [factored, abs_mul]
  refine mul_le_mul_of_nonneg_right ?_ (abs_nonneg _)
  rw [abs_of_nonneg (by nlinarith)]
  nlinarith

theorem shareChange (easing : Easing) {p q : Rat} (hp : 0 ≤ p ∧ p ≤ 1) (hq : 0 ≤ q ∧ q ≤ 1) :
    |easing.share p - easing.share q| ≤ 3 * |p - q| := by
  cases easing with
  | linear => simpa [share] using le_mul_of_one_le_left (abs_nonneg (p - q)) (by norm_num)
  | easeIn => exact cubeChange hp hq
  | easeOut =>
    have mirrored := cubeChange (p := 1 - q) (q := 1 - p)
      ⟨by linarith, by linarith⟩ ⟨by linarith, by linarith⟩
    have same : easeOut.share p - easeOut.share q = (1 - q) ^ 3 - (1 - p) ^ 3 := by
      simp only [share]
      ring
    rw [same]
    exact mirrored.trans_eq (by ring_nf)
  | easeInOut =>
    have factored : easeInOut.share p - easeInOut.share q =
        (3 * (p + q) - 2 * (p ^ 2 + p * q + q ^ 2)) * (p - q) := by
      simp only [share]
      ring
    rw [factored, abs_mul]
    refine mul_le_mul_of_nonneg_right ?_ (abs_nonneg _)
    rw [abs_le]
    constructor <;> nlinarith [mul_nonneg hp.1 hq.1]

end Easing

theorem Gradual.eased {f : Rat → Rat} (change : Gradual f) (range : ∀ t, 0 ≤ f t ∧ f t ≤ 1)
    (easing : Easing) : Gradual fun t => easing.share (f t) :=
  change.scaled (fun t u => easing.shareChange (range t) (range u)) (by norm_num)

namespace Phase

variable {p : Phase Rat} {began : Rat}

theorem coveredGradual (lasting : 0 < p.duration) : Gradual fun now => p.covered began now :=
  (limitedGradual began lasting).eased (fun _ => limitedRange _) _

theorem coveredStart : p.covered began began = 0 := by
  rw [covered, sub_self, zero_div, limitedLow le_rfl, Easing.shareStart]

theorem coveredEnd (lasting : 0 < p.duration) : p.covered began (began + p.duration) = 1 := by
  rw [covered, add_sub_cancel_left, div_self lasting.ne', limitedHigh le_rfl, Easing.shareEnd]

theorem grownGradual (base : Rat) (lasting : 0 < p.duration) :
    Gradual fun now => p.grown began base now := by
  cases peak : p.overshoot with
  | none =>
    simp only [grown, peak]
    exact (coveredGradual lasting).partway _ _
  | some factor =>
    obtain ⟨rises, settles⟩ := riseInside lasting
    simp only [grown, peak]
    have rising := (limitedGradual began rises).eased (fun _ => limitedRange _)
      (p.easing.getD .easeOut)
    have settling := limitedGradual (began + p.rise) settles
    refine (rising.partway _ _).glued (settling.partway _ _) ?_
    rw [add_sub_cancel_left, div_self rises.ne', limitedHigh le_rfl, Easing.shareEnd, sub_self,
      zero_div, limitedLow le_rfl]
    simp [partway]

theorem grownEnd (base : Rat) (lasting : 0 < p.duration) :
    p.grown began base (began + p.duration) = p.zoomTo * base := by
  cases peak : p.overshoot with
  | none => simp [grown, peak, coveredEnd lasting, partway]
  | some factor =>
    obtain ⟨_, settles⟩ := riseInside lasting
    have passed : ¬ began + p.duration < began + p.rise := by linarith
    simp only [grown, peak, if_neg passed, add_sub_add_left_eq_sub, div_self settles.ne',
      limitedHigh le_rfl, partway]
    ring

end Phase

theorem runGradual {comes goes : Option (Rat → Rat)} {rest inEnd holdEnd : Rat}
    (ordered : inEnd ≤ holdEnd) (arrives : ∀ f ∈ comes, Gradual f ∧ f inEnd = rest)
    (departs : ∀ g ∈ goes, Gradual g ∧ g holdEnd = rest) :
    Gradual fun now => ((if now < inEnd then comes.map (· now) else none).or
      (if holdEnd ≤ now then goes.map (· now) else none)).getD rest := by
  let after (now : Rat) : Rat := (if holdEnd ≤ now then goes.map (· now) else none).getD rest
  have leaves : Gradual after ∧ after inEnd = rest := by
    cases goes with
    | none => exact ⟨by simpa [after] using Gradual.const rest, by simp [after]⟩
    | some g =>
      obtain ⟨change, starts⟩ := departs g rfl
      constructor
      · refine cast (congrArg Gradual (funext fun now => ?_))
          ((Gradual.const rest).glued change starts.symm)
        rcases lt_or_ge now holdEnd with early | late
        · simp [after, early, early.not_ge]
        · simp [after, late, late.not_gt]
      · rcases ordered.lt_or_eq with before | same
        · simp [after, before.not_ge]
        · simp [after, same, starts]
  cases comes with
  | none => simpa [after] using leaves.1
  | some f =>
    obtain ⟨change, ends⟩ := arrives f rfl
    refine cast (congrArg Gradual (funext fun now => ?_))
      (change.glued leaves.1 (ends.trans leaves.2.symm))
    rcases lt_or_ge now inEnd with early | late
    · simp [early]
    · simp [after, late.not_gt]

def Phase.piece? (ways : Effect → Option (Rat → Rat)) (began : Rat) (p : Phase Rat) :
    Option (Rat → Rat) :=
  if p.duration = 0 ∨ p.effect = .none then none
  else (ways p.effect).map fun way now => way (p.covered began now)

theorem givenPiece (ways : Effect → Option (Rat → Rat)) (began now : Rat)
    (phase : Option (Phase Rat)) : phase.bind (Phase.given? ways began now) =
      (phase.bind (Phase.piece? ways began)).map (· now) := by
  cases phase with
  | none => rfl
  | some p =>
    simp only [Option.bind_some, Phase.given?, Phase.piece?]
    split_ifs
    · rfl
    · cases ways p.effect <;> rfl

theorem pieceMember {ways : Effect → Option (Rat → Rat)} {began : Rat}
    {phase : Option (Phase Rat)} {f : Rat → Rat} (inside : f ∈ phase.bind (Phase.piece? ways began)) :
    ∃ p ∈ phase, p.duration ≠ 0 ∧ ∃ way ∈ ways p.effect, f = fun now => way (p.covered began now) := by
  obtain ⟨p, given, shown⟩ := Option.bind_eq_some_iff.mp inside
  unfold Phase.piece? at shown
  split_ifs at shown with degenerate
  obtain ⟨way, effective, rfl⟩ := Option.map_eq_some_iff.mp shown
  exact ⟨p, given, fun zero => degenerate (.inl zero), way, effective, rfl⟩

def KeepsGradual (way : Rat → Rat) : Prop := ∀ f, Gradual f → Gradual fun t => way (f t)

theorem keepsPartway (first last : Rat) : KeepsGradual fun share => partway first last share :=
  fun _ change => change.partway first last

section
variable [Reading]

theorem Phase.Constructed.lasting {p : Phase Rat} (made : p.Constructed) (some : p.duration ≠ 0) :
    0 < p.duration := by
  have nonnegative : ¬ p.duration < 0 := by simpa using made.duration
  exact lt_of_le_of_ne (not_lt.mp nonnegative) some.symm

theorem Animation.Constructed.holdNonneg {a : Animation Rat} (made : a.Constructed) :
    0 ≤ a.hold := by
  have nonnegative : ¬ a.hold < 0 := by simpa using made.hold
  exact not_lt.mp nonnegative

theorem machineGradual {start rest : Rat} {animation : Option (Animation Rat)}
    (made : ∀ a ∈ animation, a.Constructed) {entering exiting : Effect → Option (Rat → Rat)}
    (arrives : ∀ effect, ∀ way ∈ entering effect, KeepsGradual way ∧ way 1 = rest)
    (departs : ∀ effect, ∀ way ∈ exiting effect, KeepsGradual way ∧ way 0 = rest) :
    Gradual fun now => machine start animation entering exiting rest now := by
  cases animation with
  | none => exact Gradual.const rest
  | some a =>
    have parts := made a rfl
    simp only [machine, givenPiece]
    refine runGradual (le_add_of_nonneg_right parts.holdNonneg) ?_ ?_
    · intro f inside
      obtain ⟨p, given, some, way, effective, rfl⟩ := pieceMember inside
      obtain ⟨keeps, whole⟩ := arrives _ way effective
      have lasting := (parts.entry p given).lasting some
      refine ⟨keeps _ (p.coveredGradual lasting), ?_⟩
      simp only [Option.mem_def.mp given, Option.map_some, Option.getD_some,
        p.coveredEnd lasting, whole]
    · intro g inside
      obtain ⟨p, given, some, way, effective, rfl⟩ := pieceMember inside
      obtain ⟨keeps, nothing⟩ := departs _ way effective
      have lasting := (parts.exit p given).lasting some
      exact ⟨keeps _ (p.coveredGradual lasting), by simp only [p.coveredStart, nothing]⟩

theorem slidGradual (axis : Axis) (start rest : Rat) {animation : Option (Animation Rat)}
    (made : ∀ a ∈ animation, a.Constructed) (canvas object : Rat × Rat) :
    Gradual fun time => slidMachine axis start animation rest ⟨canvas, object, time⟩ := by
  let entering (effect : Effect) : Option (Rat → Rat) :=
    (axis.origin? ⟨canvas, object, 0⟩ effect).map fun offset share => partway offset rest share
  let exiting (effect : Effect) : Option (Rat → Rat) :=
    (axis.destination? ⟨canvas, object, 0⟩ effect).map fun target share =>
      partway rest target share
  change Gradual fun time => machine start animation entering exiting rest time
  refine machineGradual made ?_ ?_
  · intro effect way effective
    obtain ⟨offset, _, rfl⟩ := Option.map_eq_some_iff.mp effective
    exact ⟨keepsPartway _ _, by simp [partway]⟩
  · intro effect way effective
    obtain ⟨target, _, rfl⟩ := Option.map_eq_some_iff.mp effective
    exact ⟨keepsPartway _ _, by simp [partway]⟩

theorem fadedGradual (start : Rat) {animation : Option (Animation Rat)}
    (made : ∀ a ∈ animation, a.Constructed) (canvas object : Rat × Rat) :
    Gradual fun time => fadedMachine start animation ⟨canvas, object, time⟩ := by
  refine machineGradual made ?_ ?_
  · intro effect way effective
    obtain ⟨_, same⟩ := Option.ite_none_right_eq_some.mp effective
    obtain rfl := Option.some.inj same
    exact ⟨fun _ change => change, rfl⟩
  · intro effect way effective
    obtain ⟨_, same⟩ := Option.ite_none_right_eq_some.mp effective
    obtain rfl := Option.some.inj same
    exact ⟨fun f change => by simpa [partway, sub_eq_add_neg] using change.partway 1 0, by norm_num⟩

theorem sizeGradual (start base : Rat) {animation : Option (Animation Rat)}
    (made : ∀ a ∈ animation, a.Constructed) :
    (∀ now, sizeMachine start animation base now = none) ∨
      ∃ f, Gradual f ∧ ∀ now, sizeMachine start animation base now = some (f now) := by
  cases animation with
  | none => exact .inl fun _ => rfl
  | some a =>
    have parts := made a rfl
    cases zooms : (zooming a.entry).or (zooming a.exit) with
    | none => exact .inl fun now => by simp [sizeMachine, zooms]
    | some resting =>
      set rest := resting.zoomTo * base with restIs
      set inEnd := start + (a.entry.map Phase.duration).getD 0 with inEndIs
      have piece := @runGradual
        ((lasting (zooming a.entry)).map fun p now => p.grown start base now)
        ((lasting (zooming a.exit)).map fun p now => p.shrunk rest (inEnd + a.hold) base now)
        rest inEnd _ (le_add_of_nonneg_right parts.holdNonneg) ?_ ?_
      · refine .inr ⟨_, piece, fun now => ?_⟩
        simp only [sizeMachine, Option.bind_eq_bind, Option.bind_some, zooms, ← restIs, ← inEndIs,
          Option.map_map]
        rfl
      · intro f inside
        obtain ⟨p, zoom, rfl⟩ := Option.map_eq_some_iff.mp inside
        obtain ⟨given, first, lasts⟩ := lastingZooming parts.entry p zoom
        have same : resting = p := by
          rw [Option.mem_def.mp first] at zooms
          exact (Option.some.inj zooms).symm
        refine ⟨p.grownGradual base lasts, ?_⟩
        simp only [inEndIs, Option.mem_def.mp given, Option.map_some, Option.getD_some,
          p.grownEnd base lasts, restIs, same]
      · intro g inside
        obtain ⟨p, zoom, rfl⟩ := Option.map_eq_some_iff.mp inside
        obtain ⟨_, _, lasts⟩ := lastingZooming parts.exit p zoom
        exact ⟨(p.coveredGradual lasts).partway _ _, by simp [Phase.shrunk, p.coveredStart, partway]⟩

open OverlayMotion.Expr

def Unbroken (isCaption : Bool) (outer : Scope Rat) (canvas object : Rat × Rat)
    (e : Expr Rat) : Prop :=
  ∃ f : Rat → Rat, Gradual f ∧ ∀ time,
    eval ((⟨canvas, object, time⟩ : Frame).scope isCaption outer) e = .ok (f time)

/-- Neither the position nor the opacity nor the size of an overlay ever jumps, for any
easing and any pair of effects, as long as its resting coordinates stay the same. -/
theorem Motion.neverJumps (exact : PowersExact) {start base : Rat} {finish : Option Rat}
    {animation : Option (Animation Rat)} {x y : Option (Operand Rat)} {isCaption : Bool}
    {outer : Scope Rat} {canvas object : Rat × Rat} {restX restY : Rat}
    (made : ∀ a ∈ animation, a.Constructed)
    (restsX : ∀ time, Rests ((⟨canvas, object, time⟩ : Frame).scope isCaption outer)
      ((canvas.1 - object.1) / 2) x restX)
    (restsY : ∀ time, Rests ((⟨canvas, object, time⟩ : Frame).scope isCaption outer)
      ((canvas.2 - object.2) / 2) y restY) :
    ∃ m size, (Motion.ofOperands start finish animation x y isCaption).outcome = .ok m ∧
      zoomSize? start animation base = .ok size ∧
      Unbroken isCaption outer canvas object m.x ∧
      Unbroken isCaption outer canvas object m.y ∧
      (∀ alpha ∈ m.alpha, Unbroken isCaption outer canvas object alpha) ∧
      ∀ e ∈ size, Unbroken isCaption outer canvas object e := by
  let stage : Frame := ⟨canvas, object, 0⟩
  obtain ⟨m, compiled, follows⟩ :=
    @Motion.followed _ exact start finish animation x y isCaption outer stage _ _ made restsX restsY
  obtain ⟨size, sized, grows⟩ := zoomSizeValue exact start base made
  refine ⟨m, size, compiled, sized,
    ⟨_, slidGradual .horizontal start restX made canvas object, fun now => (follows now).1⟩,
    ⟨_, slidGradual .vertical start restY made canvas object, fun now => (follows now).2.1⟩,
    fun alpha same =>
      ⟨_, fadedGradual start made canvas object, fun now => (follows now).2.2 alpha same⟩,
    fun e same => ?_⟩
  cases same
  have value (now : Rat) := grows _ _ ((stage.at now).sees isCaption outer).time
  rcases sizeGradual start base made with absent | ⟨f, change, sizes⟩
  · have missing := value 0
    rw [absent] at missing
    cases missing
  · refine ⟨f, change, fun now => ?_⟩
    have sized := value now
    rw [sizes] at sized
    cases sized with
    | some same => exact same

end

theorem overshootThenSlideNeverJumps :
    letI := naturalPowers
    let bounce : Animation Rat :=
      ⟨some ⟨.zoom, 2, none, 1 / 5, 1, some (6 / 5)⟩, 0,
        some ⟨.slideUp, 1, some .easeInOut, 1 / 5, 1, none⟩⟩
    ∃ m size, (Motion.ofOperands 0 (some 6) (some bounce) none (some (.number 100))
        true).outcome = .ok m ∧ zoomSize? 0 (some bounce) 60 = .ok size ∧ size ≠ none ∧
      Unbroken true Expr.Scope.constants (1080, 1920) (200, 50) m.x ∧
      Unbroken true Expr.Scope.constants (1080, 1920) (200, 50) m.y ∧
      (∀ alpha ∈ m.alpha, Unbroken true Expr.Scope.constants (1080, 1920) (200, 50) alpha) ∧
      ∀ e ∈ size, Unbroken true Expr.Scope.constants (1080, 1920) (200, 50) e := by
  let _ := naturalPowers
  intro bounce
  have made : ∀ a ∈ some bounce, a.Constructed := by
    rintro _ ⟨⟩
    decide +kernel
  obtain ⟨m, size, compiled, sized, x, y, alpha, grows⟩ := @Motion.neverJumps naturalPowers
    naturalPowersExact 0 60 (some 6) (some bounce) none (some (.number 100)) true
    Expr.Scope.constants (1080, 1920) (200, 50) _ 100 made (fun _ => .centered)
    (fun _ => .given rfl rfl)
  refine ⟨m, size, compiled, sized, ?_, x, y, alpha, grows⟩
  rintro rfl
  obtain ⟨size, sized', follows⟩ := zoomSizeValue naturalPowersExact 0 60 made
  rw [sized] at sized'
  obtain rfl := Except.ok.inj sized'
  have missing := follows (Expr.Scope.constants.extend [("t", 1)]) 1 rfl
  obtain ⟨v, grown⟩ := Option.isSome_iff_exists.mp
    (show (sizeMachine 0 (some bounce) 60 1).isSome by decide +kernel)
  rw [grown] at missing
  cases missing

end OverlayMotion

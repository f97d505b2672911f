import OverlayMotion.Proofs.Course

/-! The laws of easing, over exact rationals. A progress that is a constant is folded to
the point of the curve above it; any other becomes a tree that has this value wherever the
progress has one. The curves themselves rise from 0 to 1, never leave that range on their
way, are nowhere steeper than three, and slowing down is speeding up seen from the end. -/
namespace OverlayMotion

structure Covers (share : Rat → Rat) : Prop where
  start : share 0 = 0
  finish : share 1 = 1
  inside : ∀ p ∈ Set.Icc (0 : Rat) 1, share p ∈ Set.Icc (0 : Rat) 1
  rises : MonotoneOn share (Set.Icc 0 1)
  gradual : ∀ p ∈ Set.Icc (0 : Rat) 1, ∀ q ∈ Set.Icc (0 : Rat) 1,
    |share p - share q| ≤ 3 * |p - q|

namespace Easing

theorem covers (easing : Easing) : Covers easing.share where
  start := easing.shareStart
  finish := easing.shareEnd
  inside _ range := easing.shareRange range.1 range.2
  rises _ low _ high below := easing.shareMonotone low.1 below high.2
  gradual _ hp _ hq := easing.shareChange hp hq

theorem shareMirrored (p : Rat) : easeOut.share p = 1 - easeIn.share (1 - p) := rfl

section
variable [Reading]

theorem powConstant (exact : PowersExact) (v : Rat) (n : Nat) :
    (Expr.const v).pow (Expr.ofInt n) = .ok (.const (v ^ n)) := by
  have raised : Reading.pow v (n : Rat) = .ok (v ^ n) := exact v n
  simp [Expr.pow, Expr.ofInt, Expr.power, raised]

theorem curveConstant (exact : PowersExact) (easing : Easing) (v : Rat) :
    easing.curve (.const v) = .ok (.const (easing.share v)) := by
  have squared (x : Rat) : (Expr.const x).pow (Expr.ofInt 2) = .ok (.const (x ^ 2)) :=
    powConstant exact x 2
  have cubed (x : Rat) : (Expr.const x).pow (Expr.ofInt 3) = .ok (.const (x ^ 3)) :=
    powConstant exact x 3
  have product (n : Int) (x : Rat) : (Expr.ofInt n).mul (.const x) = .ok (.const (n * x)) := rfl
  have difference (x y : Rat) : (Expr.const x).sub (.const y) = .ok (.const (x - y)) := rfl
  cases easing with
  | linear => rfl
  | easeIn => exact cubed v
  | easeOut =>
    have left (x : Rat) : (Expr.ofInt 1).sub (.const x) = .ok (.const (1 - x)) := difference 1 x
    simp [curve, left, cubed, share]
  | easeInOut => simp [curve, squared, product, cubed, difference, share]

/-- An eased progress is the point of the curve above the progress, folded or not, and the
curve is one to move along; that of slowing down is that of speeding up turned around. -/
theorem curveFollows (exact : PowersExact) (easing : Easing) (progress : Expr Rat) :
    ∃ e, easing.curve progress = .ok e ∧
      (∀ v, progress = .const v → e = .const (easing.share v)) ∧
      (∀ scope p, Expr.eval scope progress = .ok p → Expr.eval scope e = .ok (easing.share p)) ∧
      Covers easing.share ∧ ∀ p, easeOut.share p = 1 - easeIn.share (1 - p) := by
  obtain ⟨e, built, value⟩ := easing.curveValue exact progress
  refine ⟨e, built, ?_, value, easing.covers, shareMirrored⟩
  rintro v rfl
  exact Except.ok.inj (built.symm.trans (easing.curveConstant exact v))

end

theorem easeOutFollows :
    letI := naturalPowers
    (∃ e : Expr Rat, easeOut.curve Expr.time = .ok e ∧
        Expr.eval (fun _ => some (1 / 2)) e = .ok (7 / 8)) ∧
      easeOut.curve (.const (1 / 2 : Rat)) = .ok (.const (7 / 8)) ∧
      |easeOut.share (1 / 2) - easeOut.share (1 / 4)| ≤ 3 * |1 / 2 - 1 / 4| := by
  let _ := naturalPowers
  have point : easeOut.share (1 / 2) = 7 / 8 := by norm_num [share]
  obtain ⟨e, built, _, value, laws, _⟩ :=
    @curveFollows naturalPowers naturalPowersExact easeOut Expr.time
  obtain ⟨c, folds, constant, _⟩ :=
    @curveFollows naturalPowers naturalPowersExact easeOut (.const (1 / 2))
  refine ⟨⟨e, built, point ▸ value _ _ rfl⟩, ?_, ?_⟩
  · rw [folds, constant _ rfl, point]
  · exact laws.gradual _ (by norm_num) _ (by norm_num)

end Easing

end OverlayMotion

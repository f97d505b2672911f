import OverlayMotion.Proofs.Rounding
import OverlayMotion.Proofs.SignedZero

/-! Finite doubles compare as the numbers that they stand for. Their fields compare
exponents first; that is the order of the values because only the finest grid has
significands of less than full length. -/
namespace OverlayMotion.Binary64
open Float.Model (UnpackedFloat)
open Float.Model.UnpackedFloat (Sign)

theorem longerAbove {m n : Nat} {e f : Int} (short : m < 2 ^ 53) (long : 2 ^ 52 ≤ n)
    (below : e < f) : (m : Rat) * 2 ^ e < n * 2 ^ f := by
  have bound : (m : Rat) < 2 ^ 53 := by exact_mod_cast short
  calc (m : Rat) * 2 ^ e < 2 ^ 53 * 2 ^ e := mul_lt_mul_of_pos_right bound (by positivity)
    _ = 2 ^ 52 * 2 ^ (e + 1) := by
      rw [zpow_add_one₀ two_ne_zero]
      ring
    _ ≤ 2 ^ 52 * 2 ^ f :=
      mul_le_mul_of_nonneg_left (zpow_le_zpow_right₀ one_le_two below) (by positivity)
    _ ≤ n * 2 ^ f := mul_le_mul_of_nonneg_right (by exact_mod_cast long) (by positivity)

theorem coarserAbove {m n : Nat} {e f : Int} (hm : Canonical m e) (hn : Canonical n f)
    (below : e < f) : (m : Rat) * 2 ^ e < n * 2 ^ f :=
  longerAbove hm.short (hn.full.resolve_right (by have := hm.fine; omega)) below

theorem canonicalOrder {m n : Nat} {e f : Int} (hm : Canonical m e) (hn : Canonical n f) :
    (compare e f).then (compare m n) = compare ((m : Rat) * 2 ^ e) (n * 2 ^ f) := by
  rcases lt_trichotomy e f with below | rfl | above
  · rw [compare_lt_iff_lt.mpr below, compare_lt_iff_lt.mpr (coarserAbove hm hn below)]
    rfl
  · have scale : (0 : Rat) < 2 ^ e := by positivity
    rw [compare_eq_iff_eq.mpr rfl, Ordering.then]
    rcases lt_trichotomy m n with less | rfl | more
    · have values := mul_lt_mul_of_pos_right (Nat.cast_lt.mpr less) scale
      rw [compare_lt_iff_lt.mpr less, compare_lt_iff_lt.mpr values]
    · rw [compare_eq_iff_eq.mpr rfl, compare_eq_iff_eq.mpr rfl]
    · have values := mul_lt_mul_of_pos_right (Nat.cast_lt.mpr more) scale
      rw [compare_gt_iff_gt.mpr more, compare_gt_iff_gt.mpr values]
  · rw [compare_gt_iff_gt.mpr above, compare_gt_iff_gt.mpr (coarserAbove hn hm above)]
    rfl

theorem compareNegated (a b : Rat) : compare (-1 * a) (-1 * b) = (compare a b).swap := by
  rw [neg_one_mul, neg_one_mul]
  rcases lt_trichotomy a b with less | rfl | more
  · rw [compare_lt_iff_lt.mpr less, compare_gt_iff_gt.mpr (neg_lt_neg less)]
    rfl
  · rw [compare_eq_iff_eq.mpr rfl, compare_eq_iff_eq.mpr rfl]
    rfl
  · rw [compare_gt_iff_gt.mpr more, compare_lt_iff_lt.mpr (neg_lt_neg more)]
    rfl

theorem compareStands {x y : Float} {p q : Rat} (hx : Stands x p) (hy : Stands y q) :
    (form x).compare (form y) = some (compare p q) := by
  have positive {m : Nat} (e : Int) (h : 0 < m) : (0 : Rat) < m * 2 ^ e :=
    mul_pos (by exact_mod_cast h) (by positivity)
  rcases standsCases hx with ⟨s, known, rfl⟩ | ⟨s, m, e, h, known, rfl⟩ <;>
    rcases standsCases hy with ⟨t, known', rfl⟩ | ⟨t, n, f, h', known', rfl⟩ <;>
    rw [known, known']
  · rw [compare_eq_iff_eq.mpr rfl]
    rfl
  · have right := positive f h'
    cases t with
    | positive => rw [compare_lt_iff_lt.mpr (by simpa [signed] using right)]; rfl
    | negative => rw [compare_gt_iff_gt.mpr (by simpa [signed] using right)]; rfl
  · have left := positive e h
    cases s with
    | positive => rw [compare_gt_iff_gt.mpr (by simpa [signed] using left)]; rfl
    | negative => rw [compare_lt_iff_lt.mpr (by simpa [signed] using left)]; rfl
  · have left := positive e h
    have right := positive f h'
    have order := canonicalOrder (canonicalForm known).1 (canonicalForm known').1
    cases s <;> cases t
    · simp only [signed]
      rw [compareNegated, ← order]
      rfl
    · rw [compare_lt_iff_lt.mpr (by simp only [signed]; linarith)]
      rfl
    · rw [compare_gt_iff_gt.mpr (by simp only [signed]; linarith)]
      rfl
    · simp only [signed, one_mul]
      rw [← order]
      rfl

theorem ltStands {x y : Float} {p q : Rat} (hx : Stands x p) (hy : Stands y q) :
    x < y ↔ p < q := by
  rw [ltForm, compareStands hx hy]
  simp [compare_lt_iff_lt]

theorem absStands {x : Float} {q : Rat} (stands : Stands x q) : Stands x.abs |q| := by
  have packed : x.abs = .ofModel (.pack (form x).abs) := rfl
  rcases standsCases stands with ⟨s, known, rfl⟩ | ⟨s, m, e, h, known, rfl⟩
  · rw [packed, known, abs_zero]
    exact standsZero (formZero .positive)
  · obtain ⟨canonical, low⟩ := canonicalForm known
    have positive : (0 : Rat) < m * 2 ^ e := mul_pos (by exact_mod_cast h) (by positivity)
    have magnitude : |signed s * (m * 2 ^ e)| = signed .positive * (m * 2 ^ e) := by
      cases s <;> simp [signed, abs_of_pos positive]
    rw [packed, known, magnitude]
    exact standsForm (formPacked .positive h canonical low)

end OverlayMotion.Binary64

import OverlayMotion.Proofs.Exact
import OverlayMotion.Proofs.NumberText
import OverlayMotion.Proofs.Printing

/-! Exact numbers in nine decimals. The text of a rational denotes a whole number of units of
the last decimal, no more than half a unit away from it. Rounding to the nearest unit keeps
the order of any two numbers, however far they are apart or how large. -/
namespace OverlayMotion

theorem Binary64.roundHalfEvenNear (num : Nat) {den : Nat} (positive : 0 < den) :
    2 * num ≤ den + 2 * (den * roundHalfEven num den) ∧
      2 * (den * roundHalfEven num den) ≤ den + 2 * num := by
  have split := Nat.div_add_mod num den
  have below := Nat.mod_lt num positive
  have parity := Nat.mod_two_eq_zero_or_one (num / den)
  have next : den * (num / den + 1) = den * (num / den) + den := Nat.mul_succ ..
  simp only [roundHalfEven]
  generalize num % den = rest at *
  split_ifs
  · omega
  · rw [next]
    omega
  · rcases parity with even | odd
    · rw [even, Nat.add_zero]
      omega
    · rw [odd, next]
      omega

namespace Decimal

theorem compactUnits (num den : Nat) : ∃ n places : Nat, places ≤ 9 ∧
    numeral (compact 9 num den) = (n, -(places : Int)) ∧
    (n : Rat) / 10 ^ places = (Binary64.roundHalfEven (num * 10 ^ 9) den : Nat) / 10 ^ 9 := by
  obtain ⟨n, places, few, worth, scaled⟩ := compactWorth 9 num den (by decide)
  refine ⟨n, places, few, worth, ?_⟩
  rw [← scaled, ← Nat.sub_add_cancel few, pow_add, Nat.add_sub_cancel]
  push_cast
  field_simp

end Decimal

theorem magnitudeRatio (q : Rat) : |q| * q.den = q.num.natAbs := by
  have nonzero : (q.den : Rat) ≠ 0 := by exact_mod_cast q.den_nz
  rw [Rat.abs_def, Rat.divInt_eq_div, Int.cast_natCast, Int.cast_natCast, div_mul_cancel₀ _ nonzero]

theorem magnitudeUnits (q : Rat) :
    |(|q| * 10 ^ 9 - (Binary64.roundHalfEven (q.num.natAbs * 10 ^ 9) q.den : Nat))| ≤ 1 / 2 := by
  have positive : (0 : Rat) < q.den := by exact_mod_cast q.den_pos
  have ratio := magnitudeRatio q
  obtain ⟨low, high⟩ := Binary64.roundHalfEvenNear (q.num.natAbs * 10 ^ 9) q.den_pos
  generalize Binary64.roundHalfEven (q.num.natAbs * 10 ^ 9) q.den = r at *
  have below : (2 : Rat) * (q.num.natAbs * 10 ^ 9) ≤ q.den + 2 * (q.den * r) := by
    exact_mod_cast low
  have above : (2 : Rat) * (q.den * r) ≤ q.den + 2 * (q.num.natAbs * 10 ^ 9) := by
    exact_mod_cast high
  rw [← ratio] at below above
  rw [abs_le]
  constructor
  · by_contra far
    nlinarith
  · by_contra far
    nlinarith

theorem nearestOrdered {a b : Rat} {m n : Int} (near : |a - m| ≤ 1 / 2) (close : |b - n| ≤ 1 / 2)
    (ordered : a < b) : m ≤ n := by
  rw [abs_le] at near close
  have : (m : Rat) < n + 1 := by linarith
  have : m < n + 1 := by exact_mod_cast this
  omega

namespace Expr
variable [Reading]

instance exactSigned : SignedBelowZero Rat where
  nonneg finite above := by
    cases finite
    simpa [Number.zero] using above

theorem exactLiteral (text : List Char) : (literal text : Rat) =
    (Decimal.numeral text).1 * 10 ^ (Decimal.numeral text).2 := rfl

theorem denotedUnits (q : Rat) :
    ∃ n : Int, denoted q = n / 10 ^ 9 ∧ |q * 10 ^ 9 - n| ≤ 1 / 2 := by
  have near := magnitudeUnits q
  have plain := Decimal.compactPlain 9 q.num.natAbs q.den
  have written : numeralText q = .ok (Decimal.nineDecimals q) := rfl
  obtain ⟨n, places, -, worth, value⟩ := Decimal.compactUnits q.num.natAbs q.den
  generalize Binary64.roundHalfEven (q.num.natAbs * 10 ^ 9) q.den = r at near value
  have read : (literal (Decimal.compact 9 q.num.natAbs q.den) : Rat) = r / 10 ^ 9 := by
    rw [exactLiteral, worth, zpow_neg, zpow_natCast, ← div_eq_mul_inv, value]
  simp only [Decimal.nineDecimals] at written
  split at written
  · rename_i signed
    refine ⟨-r, ?_, ?_⟩
    · rw [denotedSigned written, read]
      simp [neg_div]
    · rw [abs_of_neg signed.1, abs_sub_comm] at near
      convert near using 2
      push_cast
      ring
  · rename_i unsigned
    have shown := denotedUnsigned written fun _ => plain.unsigned
    rcases le_or_gt 0 q with nonneg | negative
    · refine ⟨r, by rw [shown, read, Int.cast_natCast], ?_⟩
      rwa [abs_of_nonneg nonneg] at near
    · have nought : Decimal.compact 9 q.num.natAbs q.den = ['0'] := by
        by_contra other
        exact unsigned ⟨negative, other⟩
      have zero : (r : Rat) = 0 := by
        have digits : Decimal.numeral ['0'] = (0, 0) := by decide
        rw [nought, exactLiteral, digits, Nat.cast_zero, zero_mul] at read
        linarith
      refine ⟨0, by rw [shown, read, zero]; simp, ?_⟩
      rw [zero, sub_zero, abs_mul, abs_abs] at near
      rwa [Int.cast_zero, sub_zero, abs_mul]

theorem denotedNear (q : Rat) : |denoted q - q| ≤ 5 / 10 ^ 10 := by
  obtain ⟨n, same, near⟩ := denotedUnits q
  rw [same]
  rw [abs_le] at near ⊢
  constructor
  · linarith
  · linarith

theorem denotedMono {a b : Rat} (ordered : a ≤ b) : denoted a ≤ denoted b := by
  rcases ordered.eq_or_lt with rfl | less
  · exact le_rfl
  obtain ⟨m, first, near⟩ := denotedUnits a
  obtain ⟨n, second, close⟩ := denotedUnits b
  have units : m ≤ n := nearestOrdered near close (by linarith)
  rw [first, second]
  gcongr

end Expr

end OverlayMotion

import OverlayMotion.Proofs.Rounding

/-! The double nearest to a ratio. Its significand is the ratio's place on the grid of its
own binade, so that bounds on the ratio by points of the grid are bounds on the double:
a ratio no larger than a power of two has a double that is no larger, and only a ratio below
the smallest double can become zero. -/
namespace OverlayMotion.Binary64

def ratioExponent (num den : Nat) : Int :=
  let guess : Int := (num.log2 : Int) - den.log2 - 52
  let belowBinade := if 0 ≤ guess then decide (num < den * Nat.pow 2 (guess + 52).toNat)
    else decide (num * Nat.pow 2 (-guess).toNat < den * Nat.pow 2 52)
  Max.max (if belowBinade then guess - 1 else guess) (-1074)

def ratioPoint (num den : Nat) (exponent : Int) : Nat :=
  if 0 ≤ exponent then roundHalfEven num (den * Nat.pow 2 exponent.toNat)
  else roundHalfEven (num * Nat.pow 2 (-exponent).toNat) den

def pointBits (point : Nat) (exponent : Int) : Nat := (exponent + 1074).toNat * 2 ^ 52 + point

theorem nearestBitsOfPoint {num den : Nat} (some : num ≠ 0) : nearestBits num den =
    if pointBits (ratioPoint num den (ratioExponent num den)) (ratioExponent num den) <
        2047 * 2 ^ 52 then
      .some (pointBits (ratioPoint num den (ratioExponent num den)) (ratioExponent num den))
    else none := if_neg some

section
variable {num den : Nat}

theorem ratioPointLe (positive : 0 < den) {n : Nat} {e : Int}
    (h : (num : Rat) / den ≤ n * 2 ^ e) : ratioPoint num den e ≤ n := by
  have cleared : (num : Rat) ≤ n * 2 ^ e * den := (div_le_iff₀ (by exact_mod_cast positive)).mp h
  unfold ratioPoint
  split_ifs with above
  · obtain ⟨l, rfl⟩ := Int.eq_ofNat_of_zero_le above
    refine roundHalfEvenLe ?_
    rw [zpow_natCast] at cleared
    rw [Int.toNat_natCast, Nat.pow_eq]
    have cast : num ≤ n * 2 ^ l * den := by exact_mod_cast cleared
    linarith
  · obtain ⟨l, same⟩ := Int.eq_ofNat_of_zero_le (neg_nonneg.mpr (not_le.mp above).le)
    obtain rfl : e = -(l : Int) := by omega
    refine roundHalfEvenLe ?_
    rw [zpow_neg, zpow_natCast] at cleared
    rw [neg_neg, Int.toNat_natCast, Nat.pow_eq]
    have scaled : (num : Rat) * 2 ^ l ≤ n * den := by
      calc (num : Rat) * 2 ^ l ≤ n * (2 ^ l)⁻¹ * den * 2 ^ l :=
            mul_le_mul_of_nonneg_right cleared (by positivity)
        _ = n * den := by field_simp
    exact_mod_cast scaled

theorem leRatioPoint (positive : 0 < den) {n : Nat} {e : Int}
    (h : n * 2 ^ e ≤ (num : Rat) / den) : n ≤ ratioPoint num den e := by
  have cleared : n * 2 ^ e * den ≤ (num : Rat) := (le_div_iff₀ (by exact_mod_cast positive)).mp h
  unfold ratioPoint
  split_ifs with above
  · obtain ⟨l, rfl⟩ := Int.eq_ofNat_of_zero_le above
    rw [zpow_natCast] at cleared
    rw [Int.toNat_natCast, Nat.pow_eq]
    refine leRoundHalfEven (by positivity) ?_
    have cast : n * 2 ^ l * den ≤ num := by exact_mod_cast cleared
    linarith
  · obtain ⟨l, same⟩ := Int.eq_ofNat_of_zero_le (neg_nonneg.mpr (not_le.mp above).le)
    obtain rfl : e = -(l : Int) := by omega
    rw [zpow_neg, zpow_natCast] at cleared
    rw [neg_neg, Int.toNat_natCast, Nat.pow_eq]
    refine leRoundHalfEven positive ?_
    have scaled : (n : Rat) * den ≤ num * 2 ^ l := by
      calc (n : Rat) * den = n * (2 ^ l)⁻¹ * den * 2 ^ l := by field_simp
        _ ≤ num * 2 ^ l := mul_le_mul_of_nonneg_right cleared (by positivity)
    exact_mod_cast scaled

theorem ratioBinade (some : 0 < num) (positive : 0 < den) :
    (2 : Rat) ^ ((num.log2 : Int) - den.log2 - 1) ≤ (num : Rat) / den ∧
      (num : Rat) / den < 2 ^ ((num.log2 : Int) - den.log2 + 1) := by
  have den0 : (0 : Rat) < den := by exact_mod_cast positive
  have numLow : (2 : Rat) ^ num.log2 ≤ num := by exact_mod_cast Nat.log2_self_le some.ne'
  have numHigh : (num : Rat) < 2 ^ (num.log2 + 1) := by exact_mod_cast Nat.lt_log2_self
  have denLow : (2 : Rat) ^ den.log2 ≤ den := by exact_mod_cast Nat.log2_self_le positive.ne'
  have denHigh : (den : Rat) < 2 ^ (den.log2 + 1) := by exact_mod_cast Nat.lt_log2_self
  constructor
  · have split : (num.log2 : Int) - den.log2 - 1 = num.log2 - ((den.log2 + 1 : Nat) : Int) := by
      push_cast
      ring
    rw [split, zpow_sub₀ two_ne_zero, zpow_natCast, zpow_natCast]
    exact div_le_div₀ (by positivity) numLow den0 denHigh.le
  · have split : (num.log2 : Int) - den.log2 + 1 = ((num.log2 + 1 : Nat) : Int) - den.log2 := by
      push_cast
      ring
    rw [split, zpow_sub₀ two_ne_zero, zpow_natCast, zpow_natCast]
    exact div_lt_div₀ numHigh denLow (by positivity) (by positivity)

theorem binadeTest (positive : 0 < den) (guess : Int) :
    (if 0 ≤ guess then decide (num < den * Nat.pow 2 (guess + 52).toNat)
      else decide (num * Nat.pow 2 (-guess).toNat < den * Nat.pow 2 52)) =
      decide ((num : Rat) / den < 2 ^ (guess + 52)) := by
  have den0 : (0 : Rat) < den := by exact_mod_cast positive
  split_ifs with high
  · obtain ⟨l, rfl⟩ := Int.eq_ofNat_of_zero_le high
    refine decide_eq_decide.mpr ?_
    rw [div_lt_iff₀ den0, show (l : Int) + 52 = (l + 52 : Nat) by push_cast; rfl, zpow_natCast,
      Int.toNat_natCast, Nat.pow_eq, mul_comm]
    exact_mod_cast Iff.rfl
  · obtain ⟨l, same⟩ := Int.eq_ofNat_of_zero_le (neg_nonneg.mpr (not_le.mp high).le)
    obtain rfl : guess = -(l : Int) := by omega
    refine decide_eq_decide.mpr ?_
    rw [div_lt_iff₀ den0, neg_neg, Int.toNat_natCast, zpow_add₀ two_ne_zero, zpow_neg,
      zpow_natCast, Nat.pow_eq, Nat.pow_eq]
    rw [inv_mul_eq_div, div_mul_eq_mul_div, lt_div_iff₀ (by positivity), mul_comm (2 ^ 52 : Rat)]
    exact_mod_cast Iff.rfl

theorem ratioExponentSpec (some : 0 < num) (positive : 0 < den) :
    (num : Rat) / den < 2 ^ (ratioExponent num den + 53) ∧ -1074 ≤ ratioExponent num den ∧
      (ratioExponent num den = -1074 ∨
        2 ^ (ratioExponent num den + 52) ≤ (num : Rat) / den) := by
  obtain ⟨above, below⟩ := ratioBinade some positive
  generalize hg : (num.log2 : Int) - den.log2 - 52 = guess
  rw [show (num.log2 : Int) - den.log2 - 1 = guess + 51 by omega] at above
  rw [show (num.log2 : Int) - den.log2 + 1 = guess + 53 by omega] at below
  -- The guess is right or one too high, and the comparison tells which.
  simp only [ratioExponent, hg, binadeTest positive, decide_eq_true_eq]
  split_ifs with low
  · rcases le_or_gt (-1074) (guess - 1) with fine | fine
    · rw [max_eq_left fine]
      refine ⟨by rwa [show guess - 1 + 53 = guess + 52 by ring], fine, .inr ?_⟩
      rwa [show guess - 1 + 52 = guess + 51 by ring]
    · rw [max_eq_right fine.le]
      refine ⟨low.trans_le (zpow_le_zpow_right₀ one_le_two (by omega)), le_rfl, .inl rfl⟩
  · rcases le_or_gt (-1074) guess with fine | fine
    · rw [max_eq_left fine]
      exact ⟨below, fine, .inr (not_lt.mp low)⟩
    · rw [max_eq_right fine.le]
      refine ⟨below.trans_le (zpow_le_zpow_right₀ one_le_two (by omega)), le_rfl, .inl rfl⟩

theorem decodedBits {bits biased fraction : Nat} (split : bits = biased * 2 ^ 52 + fraction)
    (inside : fraction < 2 ^ 52) (finite : biased < 2047) :
    decode (Float.ofBits bits.toUInt64) = some (if biased = 0 then ⟨false, fraction, -1074⟩
      else ⟨false, 2 ^ 52 + fraction, (biased : Int) - 1075⟩) := by
  have nat := bitsOfBits bits (by omega)
  have positive : ¬ 2 ^ 63 ≤ bits := by omega
  have exponent : bits / 2 ^ 52 % 2 ^ 11 = biased := by omega
  have low : bits % 2 ^ 52 = fraction := by omega
  simp only [decode, nat, Nat.pow_eq, exponent, low, decide_eq_false positive]
  rw [if_neg finite.ne]
  split_ifs <;> rfl

theorem pointStands {point : Nat} {e : Int} (short : point ≤ 2 ^ 53) (fine : -1074 ≤ e)
    (full : 2 ^ 52 ≤ point ∨ e = -1074)
    (small : pointBits point e < 2047 * 2 ^ 52) :
    Stands (Float.ofBits (pointBits point e).toUInt64) (point * 2 ^ e) := by
  unfold pointBits at *
  obtain ⟨n, hn⟩ := Int.eq_ofNat_of_zero_le (show 0 ≤ e + 1074 by omega)
  obtain rfl : e = (n : Int) - 1074 := by omega
  rw [hn, Int.toNat_natCast] at small ⊢
  -- The significand's leading bit is added to the exponent's field, and so is a carry.
  rcases Nat.lt_or_ge point (2 ^ 52) with light | heavy
  · obtain rfl : n = 0 := by omega
    refine ⟨_, decodedBits rfl light (by decide), ?_⟩
    rw [if_pos rfl]
    exact (toRatSigned .positive point _).trans (one_mul _)
  · rcases short.lt_or_eq with inside | rfl
    · refine ⟨_, @decodedBits _ (n + 1) (point - 2 ^ 52) (by omega) (by omega) (by omega), ?_⟩
      rw [if_neg (Nat.succ_ne_zero n), Nat.add_sub_cancel' heavy]
      exact (toRatSigned .positive point _).trans (by rw [signed, one_mul]; congr 2; omega)
    · refine ⟨_, @decodedBits _ (n + 2) 0 (by omega) (by decide) (by omega), ?_⟩
      rw [if_neg (Nat.succ_ne_zero _)]
      refine (toRatSigned .positive (2 ^ 52 + 0) _).trans ?_
      rw [signed, one_mul, show ((n + 2 : Nat) : Int) - 1075 = (n : Int) - 1074 + 1 by omega,
        zpow_add_one₀ two_ne_zero]
      push_cast
      ring

theorem ratioPointShort (positive : 0 < den) {e : Int} (below : (num : Rat) / den < 2 ^ (e + 53)) :
    ratioPoint num den e ≤ 2 ^ 53 := by
  refine ratioPointLe positive (below.le.trans_eq ?_)
  rw [add_comm, zpow_add₀ two_ne_zero]
  norm_cast

theorem ratioPointFull (positive : 0 < den) {e : Int}
    (above : e = -1074 ∨ 2 ^ (e + 52) ≤ (num : Rat) / den) :
    2 ^ 52 ≤ ratioPoint num den e ∨ e = -1074 := by
  refine above.symm.imp_left fun binade => leRatioPoint positive (le_of_eq_of_le ?_ binade)
  rw [add_comm, zpow_add₀ two_ne_zero]
  norm_cast

theorem nearestBounded (some : 0 < num) (positive : 0 < den) {k : Int} (low : -1074 ≤ k)
    (high : k ≤ 1023) (small : (num : Rat) / den ≤ 2 ^ k) :
    ∃ bits r, nearestBits num den = .some bits ∧ Stands (Float.ofBits bits.toUInt64) r ∧
      0 ≤ r ∧ r ≤ 2 ^ k ∧ ((2 : Rat) ^ (-1074 : Int) ≤ (num : Rat) / den → 0 < r) := by
  obtain ⟨below, fine, above⟩ := ratioExponentSpec some positive
  have nearest := @nearestBitsOfPoint num den some.ne'
  generalize ratioExponent num den = e at below fine above nearest
  have inside : e ≤ k := by
    rcases above with finest | binade
    · omega
    · have := (zpow_le_zpow_iff_right₀ one_lt_two).mp (binade.trans small)
      omega
  obtain ⟨n, hn⟩ := Int.eq_ofNat_of_zero_le (sub_nonneg.mpr inside)
  have ceiling : (2 : Rat) ^ k = (2 ^ n : Nat) * 2 ^ e := by
    rw [Nat.cast_pow, Nat.cast_ofNat, ← zpow_natCast, ← zpow_add₀ two_ne_zero]
    congr 1
    omega
  have bounded : ratioPoint num den e ≤ 2 ^ n := ratioPointLe positive (small.trans_eq ceiling)
  have short := ratioPointShort positive below
  have full := ratioPointFull positive above
  generalize hp : ratioPoint num den e = point at nearest bounded short full
  have fits : pointBits point e < 2047 * 2 ^ 52 := by
    unfold pointBits
    rcases full with long | finest
    · have room : 52 ≤ n := (Nat.pow_le_pow_iff_right (by decide)).mp (long.trans bounded)
      rcases Nat.eq_or_lt_of_le room with rfl | _
      · omega
      · omega
    · omega
  refine ⟨_, point * 2 ^ e, nearest.trans (if_pos fits), pointStands short fine full fits,
    by positivity, ?_, fun large => ?_⟩
  · rw [ceiling]
    exact mul_le_mul_of_nonneg_right (by exact_mod_cast bounded) (by positivity)
  · have point : 0 < point := by
      rcases full with long | rfl
      · omega
      · rw [← hp]
        exact leRatioPoint positive (n := 1) (by simpa using large)
    positivity

end

section
variable {k : Int}

theorem standsSigned {x : Float} {r : Rat} (negative : Bool) (stands : Stands x r)
    (nonneg : 0 ≤ r) (small : r ≤ 2 ^ k) :
    ∃ q, Stands (withSign negative x) q ∧ |q| ≤ 2 ^ k := by
  cases negative with
  | false => exact ⟨r, stands, by rwa [abs_of_nonneg nonneg]⟩
  | true => exact ⟨-r, standsNeg stands, by rwa [abs_neg, abs_of_nonneg nonneg]⟩

theorem ofIntBounded {n : Int} (low : 0 ≤ k) (high : k ≤ 1023) (small : |(n : Rat)| ≤ 2 ^ k) :
    ∃ x q, ofInt? n = some x ∧ Stands x q ∧ |q| ≤ 2 ^ k := by
  have magnitude : (n.natAbs : Rat) = |(n : Rat)| := by
    rw [← Int.cast_natCast, Int.natCast_natAbs, Int.cast_abs]
  rcases Nat.eq_zero_or_pos n.natAbs with zero | some
  · obtain rfl := Int.natAbs_eq_zero.mp zero
    refine ⟨_, 0, rfl, standsZero rfl, ?_⟩
    rw [abs_zero]
    positivity
  · obtain ⟨bits, r, nearest, stands, nonneg, bounded, _⟩ :=
      nearestBounded some one_pos (by omega) high (by rwa [Nat.cast_one, div_one, magnitude])
    obtain ⟨q, value, within⟩ := standsSigned (decide (n < 0)) stands nonneg bounded
    refine ⟨_, q, ?_, value, within⟩
    rw [ofInt?, nearest?, nearest, Option.map_some]

theorem ofDecimalNearest {digits places bits : Nat} (some : 0 < digits) (few : places ≤ 1000)
    (nearest : nearestBits digits (10 ^ places) = .some bits) :
    ofDecimal false digits (-(places : Int)) = Float.ofBits bits.toUInt64 := by
  let ratio : Nat × Nat := if 0 ≤ -(places : Int) then
    (digits * Nat.pow 10 (-(places : Int)).toNat, 1)
    else (digits, Nat.pow 10 (- -(places : Int)).toNat)
  have same : ratio = (digits, 10 ^ places) := by
    rcases Nat.eq_zero_or_pos places with rfl | some
    · simp [ratio]
    · simp only [ratio]
      rw [if_neg (by omega), neg_neg, Int.toNat_natCast]
      rfl
  have reached : nearestBits ratio.1 ratio.2 = .some bits := by
    rw [same]
    exact nearest
  simp only [ofDecimal]
  rw [if_neg some.ne', if_neg (by omega), if_neg (by omega)]
  split
  · rename_i bits' found
    cases reached.symm.trans found
    rfl
  · rename_i beyond
    cases reached.symm.trans beyond

theorem ofDecimalZero (exponent : Int) : Stands (ofDecimal false 0 exponent) 0 := by
  have zero : ofDecimal false 0 exponent = 0 := by
    simp only [ofDecimal, withSign]
    rfl
  rw [zero]
  exact standsZero (show form 0 = .zero .positive from rfl)

theorem ofDecimalBounded {digits places : Nat} (few : places ≤ 1000) (low : 0 ≤ k)
    (high : k ≤ 1023) (small : (digits : Rat) / 10 ^ places ≤ 2 ^ k) :
    ∃ r, Stands (ofDecimal false digits (-(places : Int))) r ∧ 0 ≤ r ∧ r ≤ 2 ^ k ∧
      ((2 : Rat) ^ (-1074 : Int) ≤ (digits : Rat) / 10 ^ places → 0 < r) := by
  rcases Nat.eq_zero_or_pos digits with rfl | some
  · refine ⟨0, ofDecimalZero _, le_rfl, by positivity, fun large => ?_⟩
    rw [Nat.cast_zero, zero_div] at large
    exact absurd large (not_le.mpr (by positivity))
  · obtain ⟨bits, r, nearest, stands, nonneg, bounded, large⟩ :=
      @nearestBounded digits (10 ^ places) some (by positivity) k (by omega) high
        (by exact_mod_cast small)
    refine ⟨r, ?_, nonneg, bounded, fun h => large (by exact_mod_cast h)⟩
    rw [ofDecimalNearest some few nearest]
    exact stands

end

end OverlayMotion.Binary64

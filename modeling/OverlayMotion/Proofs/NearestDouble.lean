import OverlayMotion.Proofs.DecimalGrid
import OverlayMotion.Proofs.Nearest

/-! The double nearest to a ratio is the nearest of all doubles, wherever one is at least as
large as the ratio. Rounding to integers comes first: the rounded number is as near as any, and
a number no farther from it than the one it was rounded from is rounded to it as well, since of
two integers that are half a unit away only one is even. -/
namespace OverlayMotion.Binary64

section
variable {num den : Nat} (positive : 0 < den)
include positive

theorem roundHalfEvenHalf (num : Nat) :
    |(num : Rat) / den - (roundHalfEven num den : Nat)| ≤ 1 / 2 := by
  have den0 : (0 : Rat) < den := by exact_mod_cast positive
  obtain ⟨low, high⟩ := roundHalfEvenNear num positive
  have below : (2 : Rat) * num ≤ den + 2 * (den * (roundHalfEven num den : Nat)) := by
    exact_mod_cast low
  have above : (2 : Rat) * (den * (roundHalfEven num den : Nat)) ≤ den + 2 * num := by
    exact_mod_cast high
  rw [div_sub' den0.ne', abs_div, abs_of_pos den0, div_le_iff₀ den0, abs_le]
  constructor <;> linarith

theorem roundHalfEvenTie (num : Nat)
    (tie : |(num : Rat) / den - (roundHalfEven num den : Nat)| = 1 / 2) :
    roundHalfEven num den % 2 = 0 := by
  have den0 : (0 : Rat) < den := by exact_mod_cast positive
  have half : 2 * num = den + 2 * (den * roundHalfEven num den) ∨
      2 * (den * roundHalfEven num den) = den + 2 * num := by
    rw [div_sub' den0.ne', abs_div, abs_of_pos den0, div_eq_iff den0.ne'] at tie
    rcases (abs_eq (by positivity)).mp tie with far | far
    · have above : (2 : Rat) * num = den + 2 * (den * (roundHalfEven num den : Nat)) := by linarith
      exact .inl (by exact_mod_cast above)
    · have below : (2 : Rat) * (den * (roundHalfEven num den : Nat)) = den + 2 * num := by linarith
      exact .inr (by exact_mod_cast below)
  have split := Nat.div_add_mod num den
  have below := Nat.mod_lt num positive
  have parity := Nat.mod_two_eq_zero_or_one (num / den)
  have next : den * (num / den + 1) = den * (num / den) + den := Nat.mul_succ ..
  -- Only a remainder of half the divisor leaves a half, and then the result is made even.
  simp only [roundHalfEven] at half ⊢
  generalize num % den = rest at *
  split_ifs at half ⊢
  · omega
  · rw [next] at half
    omega
  · omega

end

theorem integersApart {m n : Int} (other : m ≠ n) (x : Rat) : 1 ≤ |x - m| + |x - n| := by
  have apart : (1 : Rat) ≤ |(m : Rat) - n| := by
    exact_mod_cast Int.one_le_abs (sub_ne_zero.mpr other)
  calc (1 : Rat) ≤ |(m : Rat) - n| := apart
    _ ≤ |(m : Rat) - x| + |x - n| := abs_sub_le _ _ _
    _ = |x - m| + |x - n| := by rw [abs_sub_comm x m]

theorem nearestOfHalf {x : Rat} {m : Int} (half : |x - m| ≤ 1 / 2) (n : Int) :
    |x - m| ≤ |x - n| := by
  rcases eq_or_ne m n with rfl | other
  · exact le_rfl
  · have apart := integersApart other x
    linarith

theorem roundHalfEvenCloser {num den num' den' : Nat} (positive : 0 < den) (positive' : 0 < den')
    (closer : |(num' : Rat) / den' - (roundHalfEven num den : Nat)| ≤
      |(num : Rat) / den - (roundHalfEven num den : Nat)|) :
    roundHalfEven num' den' = roundHalfEven num den := by
  have half := roundHalfEvenHalf positive num
  have half' := roundHalfEvenHalf positive' num'
  have even := roundHalfEvenTie positive num
  have even' := roundHalfEvenTie positive' num'
  generalize roundHalfEven num den = u at *
  generalize roundHalfEven num' den' = r at *
  by_contra other
  have apart := integersApart (Int.ofNat_inj.not.mpr other) ((num' : Rat) / den')
  simp only [Int.cast_natCast] at apart
  -- Both are half a unit away, so both are even, and yet next to each other.
  have first := even (by linarith)
  have second := even' (by linarith)
  have next : |(r : Rat) - u| ≤ 1 := by
    calc |(r : Rat) - u| ≤ |(r : Rat) - num' / den'| + |(num' : Rat) / den' - u| := abs_sub_le _ _ _
      _ ≤ 1 := by
        rw [abs_sub_comm (r : Rat)]
        linarith
  have gap : |(r : Int) - u| ≤ 1 := by exact_mod_cast next
  rw [abs_le] at gap
  omega

def Nearest (r q : Rat) : Prop := ∀ y u, Stands y u → |r - q| ≤ |u - q|

theorem standsOnGrid {x : Float} {u : Rat} (stands : Stands x u) : ∃ (n k : Int),
    u = n * 2 ^ k ∧ |n| < 2 ^ 53 ∧ -1074 ≤ k ∧ k ≤ 971 := by
  rcases standsCases stands with ⟨s, -, rfl⟩ | ⟨s, m, e, h, known, rfl⟩
  · exact ⟨0, 0, by simp, by simp, by simp, by simp⟩
  · obtain ⟨canonical, low⟩ := canonicalForm known
    have short := canonical.short
    cases s with
    | positive =>
      refine ⟨m, e, by simp [signed], ?_, canonical.fine, low⟩
      rw [abs_of_nonneg (by omega)]
      exact_mod_cast short
    | negative =>
      refine ⟨-m, e, by simp [signed], ?_, canonical.fine, low⟩
      rw [abs_neg, abs_of_nonneg (by omega)]
      exact_mod_cast short

theorem standsBelow {x : Float} {u : Rat} (stands : Stands x u) :
    u ≤ ((2 ^ 53 - 1 : Nat) : Rat) * 2 ^ (971 : Int) := by
  obtain ⟨n, k, rfl, short, -, low⟩ := standsOnGrid stands
  have small : (n : Rat) ≤ (2 ^ 53 - 1 : Nat) := by
    rw [abs_lt] at short
    exact_mod_cast (by omega : n ≤ 2 ^ 53 - 1)
  calc (n : Rat) * 2 ^ k ≤ ((2 ^ 53 - 1 : Nat) : Rat) * 2 ^ k :=
        mul_le_mul_of_nonneg_right small (by positivity)
    _ ≤ ((2 ^ 53 - 1 : Nat) : Rat) * 2 ^ (971 : Int) :=
        mul_le_mul_of_nonneg_left (zpow_le_zpow_right₀ one_le_two low) (by positivity)

section
variable {num den : Nat} (positive : 0 < den)
include positive

theorem ratioPointScaled (num : Nat) (e : Int) : ∃ num' den' : Nat, 0 < den' ∧
    ratioPoint num den e = roundHalfEven num' den' ∧ (num' : Rat) / den' * 2 ^ e = num / den := by
  unfold ratioPoint
  have den0 : (den : Rat) ≠ 0 := by exact_mod_cast positive.ne'
  split_ifs with above
  · obtain ⟨l, rfl⟩ := Int.eq_ofNat_of_zero_le above
    refine ⟨num, den * 2 ^ l, by positivity, rfl, ?_⟩
    rw [zpow_natCast]
    push_cast
    field_simp
  · obtain ⟨l, same⟩ := Int.eq_ofNat_of_zero_le (neg_nonneg.mpr (not_le.mp above).le)
    obtain rfl : e = -(l : Int) := by omega
    refine ⟨_, den, positive, rfl, ?_⟩
    rw [neg_neg, Int.toNat_natCast, Nat.pow_eq, zpow_neg, zpow_natCast]
    push_cast
    field_simp

theorem ratioPointNearest (num : Nat) (e n : Int) :
    |ratioPoint num den e * 2 ^ e - (num : Rat) / den| ≤ |n * 2 ^ e - (num : Rat) / den| := by
  obtain ⟨num', den', positive', point, scaled⟩ := ratioPointScaled positive num e
  have half := roundHalfEvenHalf positive' num'
  rw [← point] at half
  have nearest := nearestOfHalf (m := ratioPoint num den e) (by exact_mod_cast half) n
  have grid : (0 : Rat) ≤ 2 ^ e := by positivity
  have distance (m : Rat) :
      |m * 2 ^ e - (num : Rat) / den| = |(num' : Rat) / den' - m| * 2 ^ e := by
    rw [← scaled, ← sub_mul, abs_mul, abs_of_nonneg grid, abs_sub_comm]
  rw [distance, distance]
  exact mul_le_mul_of_nonneg_right (by exact_mod_cast nearest) grid

theorem gridNearest {e : Int} (binade : e = -1074 ∨ 2 ^ (e + 52) ≤ (num : Rat) / den) :
    Nearest (ratioPoint num den e * 2 ^ e) (num / den) := by
  intro y u stands
  obtain ⟨n, k, rfl, short, fine, -⟩ := standsOnGrid stands
  -- A double on a finer grid lies below the binade of the ratio, whose least point is on the grid.
  rcases le_or_gt e k with coarse | finer
  · obtain ⟨l, hl⟩ := Int.eq_ofNat_of_zero_le (sub_nonneg.mpr coarse)
    have onGrid : (n : Rat) * 2 ^ k = (n * 2 ^ l : Int) * 2 ^ e := by
      obtain rfl : k = l + e := by omega
      rw [zpow_add₀ two_ne_zero, zpow_natCast]
      push_cast
      ring
    rw [onGrid]
    exact ratioPointNearest positive num e _
  · have inside := binade.resolve_left (by omega)
    have least := ratioPointNearest positive num e (2 ^ 52)
    have point : (((2 ^ 52 : Int) : Rat)) * 2 ^ e = 2 ^ (e + 52) := by
      rw [zpow_add₀ two_ne_zero, mul_comm]
      norm_num
    have below : (n : Rat) * 2 ^ k ≤ 2 ^ (e + 52) := by
      have small : (n : Rat) ≤ 2 ^ 53 := by
        exact_mod_cast (le_abs_self n).trans short.le
      calc (n : Rat) * 2 ^ k ≤ 2 ^ 53 * 2 ^ k :=
            mul_le_mul_of_nonneg_right small (by positivity)
        _ = 2 ^ (k + 53) := by
          rw [zpow_add₀ two_ne_zero, mul_comm]
          norm_num
        _ ≤ 2 ^ (e + 52) := zpow_le_zpow_right₀ one_le_two (by omega)
    have edge : |(2 : Rat) ^ (e + 52) - num / den| = num / den - 2 ^ (e + 52) := by
      rw [abs_of_nonpos (by linarith), neg_sub]
    have beside : |n * 2 ^ k - (num : Rat) / den| = num / den - n * 2 ^ k := by
      rw [abs_of_nonpos (by linarith), neg_sub]
    rw [point, edge] at least
    rw [beside]
    linarith

theorem nearestIsNearest (some : 0 < num) {x : Float} {v : Rat} (stands : Stands x v)
    (covers : (num : Rat) / den ≤ v) : ∃ bits r, nearestBits num den = .some bits ∧
      Stands (Float.ofBits bits.toUInt64) r ∧ 0 ≤ r ∧ Nearest r (num / den) := by
  obtain ⟨below, fine, binade⟩ := ratioExponentSpec some positive
  have nearest := @nearestBitsOfPoint num den some.ne'
  generalize ratioExponent num den = e at *
  have short := ratioPointShort positive below
  have full := ratioPointFull positive binade
  have fits : pointBits (ratioPoint num den e) e < 2047 * 2 ^ 52 := by
    have largest : (num : Rat) / den ≤ ((2 ^ 53 - 1 : Nat) : Rat) * 2 ^ (971 : Int) :=
      covers.trans (standsBelow stands)
    have low : e ≤ 971 := by
      rcases binade with finest | binade
      · omega
      · have : (2 : Rat) ^ (e + 52) < 2 ^ (1024 : Int) := by
          refine (binade.trans largest).trans_lt ?_
          rw [show (1024 : Int) = 53 + 971 by norm_num, zpow_add₀ two_ne_zero]
          gcongr
          norm_num
        have := (zpow_lt_zpow_iff_right₀ one_lt_two).mp this
        omega
    unfold pointBits
    rcases low.lt_or_eq with early | rfl
    · omega
    · have := ratioPointLe positive largest
      omega
  exact ⟨_, _, nearest.trans (if_pos fits), pointStands short fine full fits, by positivity,
    gridNearest positive binade⟩

end

theorem ofDecimalIsNearest {digits places : Nat} (few : places ≤ 1000) {x : Float} {v : Rat}
    (stands : Stands x v) (covers : (digits : Rat) / 10 ^ places ≤ v) :
    ∃ r, Stands (ofDecimal false digits (-(places : Int))) r ∧ 0 ≤ r ∧
      Nearest r (digits / 10 ^ places) := by
  rcases Nat.eq_zero_or_pos digits with rfl | some
  · exact ⟨0, ofDecimalZero _, le_rfl, fun y u _ => by simp⟩
  · obtain ⟨bits, r, nearest, finite, nonneg, least⟩ :=
      @nearestIsNearest digits (10 ^ places) (by positivity) some x v stands
        (by exact_mod_cast covers)
    refine ⟨r, ?_, nonneg, by exact_mod_cast least⟩
    rw [ofDecimalNearest some few nearest]
    exact finite

end OverlayMotion.Binary64

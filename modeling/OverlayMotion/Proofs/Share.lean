import OverlayMotion.Proofs.Magnitude

/-! Shares of a way: the progress of a phase, limited to what lies between none and all.
Limiting settles every double that a division can give but one that is undefined, and the
powers that an easing takes of a share stay where they are. -/
namespace OverlayMotion.Scalar
open Binary64 (Stands form ltStands)
open Float.Model (UnpackedFloat)
open Float.Model.UnpackedFloat (Sign)

def Among (s : Set Rat) (v : Scalar) : Prop :=
  ∃ x, v = .float x ∧ (form x = .notANumber ∨ ∃ q ∈ s, Stands x q)

abbrev Share : Scalar → Prop := Among (Set.Icc 0 1)

theorem Among.double {s : Set Rat} {v : Scalar} (among : Among s v) : Double v := by
  obtain ⟨x, same, _⟩ := among
  exact ⟨x, same⟩

def small (n : Nat) : Float := Binary64.ofDecimal false n 0

theorem smallStands {n : Nat} (few : n ≤ 3) : Stands (small n) n := by
  have zero : Stands (small 0) 0 := Binary64.standsZero (s := .positive) rfl
  have some : Stands (small 1) 1 ∧ Stands (small 2) 2 ∧ Stands (small 3) 3 :=
    ⟨⟨⟨false, 2 ^ 52, -52⟩, by decide +kernel, by decide +kernel⟩,
      ⟨⟨false, 2 ^ 52, -51⟩, by decide +kernel, by decide +kernel⟩,
      ⟨⟨false, 3 * 2 ^ 51, -51⟩, by decide +kernel, by decide +kernel⟩⟩
  interval_cases n
  · exact zero
  · exact_mod_cast some.1
  · exact some.2.1
  · exact some.2.2

theorem denotedSmall {n : Nat} (few : n ≤ 3) :
    Expr.denoted (int n) = float (small n) := by
  have finite : Number.finite? (int n) = .ok (some (n : Rat)) := by
    interval_cases n <;> decide +kernel
  have digits : Decimal.nineDecimals n = Decimal.digits n := by
    interval_cases n <;> decide +kernel
  have written : Expr.numeralText (int n) = .ok (Decimal.digits n) := by
    rw [Expr.numeralText, finite, ← digits]
  rw [Expr.denotedUnsigned written fun _ => (Decimal.Plain.whole (Decimal.digitsRun n)).unsigned]
  interval_cases n <;> rfl

section
variable (x y : Float)

theorem ltFloat : Number.lt (float x) (float y) = decide (x < y) := by
  have unfolded : Number.lt (float x) (float y) = (compare? (float x) (float y) == some .lt) := rfl
  rw [unfolded, compare?]
  split_ifs <;> simp_all

theorem minFloat : Number.min (float x) (float y) = float (if y < x then y else x) := by
  rw [Number.min, ltFloat]
  split_ifs <;> simp_all

theorem maxFloat : Number.max (float x) (float y) = float (if x < y then y else x) := by
  rw [Number.max, ltFloat]
  split_ifs <;> simp_all

end

theorem clampedShare (y : Float) :
    Share (Number.min (Number.max (float y) (float (small 0))) (float (small 1))) := by
  have naught : Stands (small 0) 0 := by exact_mod_cast smallStands (n := 0) (by decide)
  have unit : Stands (small 1) 1 := by exact_mod_cast smallStands (n := 1) (by decide)
  have below : ¬ small 1 < small 0 := by
    rw [ltStands unit naught]
    norm_num
  rw [maxFloat, minFloat]
  by_cases low : y < small 0
  · rw [if_pos low, if_neg below]
    exact ⟨_, rfl, .inr ⟨0, by simp, naught⟩⟩
  · rw [if_neg low]
    by_cases high : small 1 < y
    · rw [if_pos high]
      exact ⟨_, rfl, .inr ⟨1, by simp, unit⟩⟩
    · rw [if_neg high]
      refine ⟨y, rfl, ?_⟩
      rw [Binary64.ltForm] at low high
      cases known : form y with
      | notANumber => exact .inl rfl
      | infinity s =>
        rw [known] at low high
        cases s with
        | positive => exact absurd rfl high
        | negative => exact absurd rfl low
      | zero s => exact .inr ⟨0, by simp, Binary64.standsZero known⟩
      | finite s m e h =>
        have stands := Binary64.standsForm known
        rw [← Binary64.ltForm, ltStands stands naught] at low
        rw [← Binary64.ltForm, ltStands unit stands] at high
        exact .inr ⟨_, ⟨not_lt.mp low, not_lt.mp high⟩, stands⟩

theorem restOfShare {v : Scalar} (share : Share v) :
    ∃ w, Number.sub (float (small 1)) v = .ok w ∧ Among {q | |q| ≤ 1} w := by
  obtain ⟨x, rfl, undefined | ⟨q, ⟨low, high⟩, stands⟩⟩ := share
  · refine ⟨float (small 1 - x), rfl, _, rfl, .inl ?_⟩
    have difference : small 1 - x = .ofModel (.pack
        (UnpackedFloat.sub .binary64 (form (small 1)) (form x))) := rfl
    have none : UnpackedFloat.sub .binary64 (form (small 1)) .notANumber = .notANumber := by
      cases form (small 1) <;> rfl
    rw [difference, undefined, none]
    rfl
  · have unit : Stands (small 1) 1 := by exact_mod_cast smallStands (n := 1) (by decide)
    have fits : |1 - q| ≤ (2 : Rat) ^ (0 : Int) := by
      rw [zpow_zero, abs_le]
      constructor <;> linarith
    obtain ⟨r, result, bounded⟩ :=
      Binary64.subBounded unit stands (by decide) (by decide) fits
    exact ⟨float (small 1 - x), rfl, _, rfl, .inr ⟨r, by simpa using bounded, result⟩⟩

theorem shareBounded {v : Scalar} (share : Share v) : Among {q | |q| ≤ 1} v := by
  obtain ⟨x, rfl, undefined | ⟨q, ⟨low, high⟩, stands⟩⟩ := share
  · exact ⟨x, rfl, .inl undefined⟩
  · exact ⟨x, rfl, .inr ⟨q, abs_le.mpr ⟨by linarith, high⟩, stands⟩⟩

theorem smallPower {v : Scalar} (bounded : Among {q | |q| ≤ 1} v) {n : Nat} (two : 2 ≤ n)
    (few : n ≤ 3) : ∃ x, Number.pow v (float (small n)) = .ok (float x) := by
  obtain ⟨x, rfl, shape⟩ := bounded
  have above : ¬ small n < 0 ∧ ¬ small n == 0 ∧ (small n).isNaN = false ∧ isWhole (small n) := by
    interval_cases n <;> decide +kernel
  obtain ⟨nonneg, nonzero, defined, whole⟩ := above
  have power : ∃ z, powFloat x (small n) = .ok z := by
    -- A power that overflows has a base above one.
    have slow : grows x (small n) && (x ^ small n).isInf = true → x.isFinite = false := by
      intro grown
      rcases shape with undefined | ⟨q, inside, stands⟩
      · have shape : x.isFinite = (form x).isFinite := rfl
        rw [shape, undefined]
        rfl
      · have unit : Stands 1 1 := ⟨⟨false, 2 ^ 52, -52⟩, by decide +kernel, by decide +kernel⟩
        have more := (Bool.and_eq_true_iff.mp grown).1
        rw [grows, if_neg nonneg, decide_eq_true_iff, ltStands unit (Binary64.absStands stands)]
          at more
        exact absurd inside (not_le.mpr more)
    unfold powFloat powZero
    simp only [nonneg, nonzero, defined, whole]
    split_ifs <;> simp_all
  obtain ⟨z, result⟩ := power
  refine ⟨z, ?_⟩
  have unfolded : Number.pow (float x) (float (small n)) = float <$> powFloat x (small n) := rfl
  rw [unfolded, result]
  rfl
end OverlayMotion.Scalar

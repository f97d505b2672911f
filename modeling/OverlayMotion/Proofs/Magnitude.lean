import OverlayMotion.Proofs.DecimalGrid
import OverlayMotion.Proofs.Nearest
import OverlayMotion.Proofs.Order

/-! Bounds on the numbers of a running program. Sums, differences and products of numbers
that are bounded by powers of two exist and are bounded by powers of two themselves, and so
is the number that a bounded number's text denotes. It is a zero only if the number is no
more than half of the last decimal. -/
namespace OverlayMotion.Scalar
open Binary64 (Stands form)

def Worth : Scalar → Rat → Prop
  | int n, q => q = n
  | float x, q => Stands x q

def Within (k : Nat) (v : Scalar) : Prop := ∃ q, v.Worth q ∧ |q| ≤ 2 ^ k

def Loose (k : Nat) : Scalar → Prop
  | int n => |(n : Rat)| ≤ 2 ^ k
  | float _ => True

def Double (v : Scalar) : Prop := ∃ x, v = float x

section
variable {j k l : Nat} {a b v : Scalar}

theorem twoPower (k : Nat) : (2 : Rat) ^ (k : Int) = 2 ^ k := zpow_natCast 2 k

theorem Within.mono (within : Within j v) (wider : j ≤ k) : Within k v := by
  obtain ⟨q, worth, small⟩ := within
  exact ⟨q, worth, small.trans (pow_le_pow_right₀ one_le_two wider)⟩

theorem Loose.mono (loose : Loose j v) (wider : j ≤ k) : Loose k v := by
  cases v with
  | int n => exact le_trans loose (pow_le_pow_right₀ one_le_two wider)
  | float x => trivial

theorem Within.ofNat {n : Nat} (few : n ≤ 2 ^ k) : Within k (.int n) := by
  refine ⟨n, (Int.cast_natCast n).symm, ?_⟩
  rw [abs_of_nonneg n.cast_nonneg]
  exact_mod_cast few

theorem Double.loose (double : Double v) : Loose k v := by
  obtain ⟨x, rfl⟩ := double
  trivial

theorem toFloatInt {n : Int} (few : k ≤ 1000) (small : |(n : Rat)| ≤ 2 ^ k) :
    ∃ x q, (int n).toFloat = .ok x ∧ Stands x q ∧ |q| ≤ 2 ^ k := by
  rw [← twoPower] at small
  obtain ⟨x, q, nearest, stands, bounded⟩ :=
    Binary64.ofIntBounded (Int.natCast_nonneg k) (by omega) small
  exact ⟨x, q, by rw [toFloat, nearest], stands, twoPower k ▸ bounded⟩

theorem Within.toFloat (few : k ≤ 1000) (within : Within k v) :
    ∃ x q, v.toFloat = .ok x ∧ Stands x q ∧ |q| ≤ 2 ^ k := by
  obtain ⟨q, worth, small⟩ := within
  cases v with
  | int n => exact toFloatInt few (worth ▸ small)
  | float x => exact ⟨x, q, rfl, worth, small⟩

theorem Loose.toFloat (few : k ≤ 1000) (loose : Loose k v) : ∃ x, v.toFloat = .ok x := by
  cases v with
  | int n =>
    obtain ⟨x, _, result, _⟩ := toFloatInt few loose
    exact ⟨x, result⟩
  | float x => exact ⟨x, rfl⟩

theorem Within.finite (few : k ≤ 1000) (within : Within k v) :
    ∃ q, Number.finite? v = .ok (some q) ∧ |q| ≤ 2 ^ k := by
  obtain ⟨x, q, result, ⟨d, decoded, same⟩, small⟩ := within.toFloat few
  refine ⟨q, ?_, small⟩
  have value : Number.finite? v =
    v.toFloat >>= fun x => .ok ((Binary64.decode x).map Binary64.Decoded.toRat) := rfl
  rw [value, result, okBind, decoded, Option.map_some, same]

section
variable {exact : Int → Int → Int} {rounded : Float → Float → Float} {value : Rat → Rat → Rat}

theorem mixedWithin (few : j ≤ 1000 ∧ k ≤ 1000) (onInts : ∀ m n, (exact m n : Rat) = value m n)
    (onDoubles : ∀ {x y p q}, Stands x p → Stands y q → |value p q| ≤ 2 ^ l →
      ∃ r, Stands (rounded x y) r ∧ |r| ≤ 2 ^ l)
    (bounded : ∀ {p q}, |p| ≤ 2 ^ j → |q| ≤ 2 ^ k → |value p q| ≤ 2 ^ l)
    (ha : Within j a) (hb : Within k b) :
    ∃ c, mixed exact rounded a b = .ok c ∧ Within l c := by
  obtain ⟨x, p, hx, standsX, smallX⟩ := ha.toFloat few.1
  obtain ⟨y, q, hy, standsY, smallY⟩ := hb.toFloat few.2
  rcases mixedRounds exact rounded a b with ⟨m, n, rfl, rfl⟩ | rounds
  · obtain ⟨_, rfl, smallM⟩ := ha
    obtain ⟨_, rfl, smallN⟩ := hb
    exact ⟨int (exact m n), rfl, _, rfl, onInts m n ▸ bounded smallM smallN⟩
  · obtain ⟨r, stands, small⟩ := onDoubles standsX standsY (bounded smallX smallY)
    refine ⟨float (rounded x y), ?_, r, stands, small⟩
    rw [rounds, hx, okBind, hy, okBind]

theorem mixedLoose (few : j ≤ 1000 ∧ k ≤ 1000) (onInts : ∀ m n, (exact m n : Rat) = value m n)
    (bounded : ∀ {p q}, |p| ≤ 2 ^ j → |q| ≤ 2 ^ k → |value p q| ≤ 2 ^ l)
    (ha : Loose j a) (hb : Loose k b) :
    ∃ c, mixed exact rounded a b = .ok c ∧ Loose l c := by
  obtain ⟨x, hx⟩ := ha.toFloat few.1
  obtain ⟨y, hy⟩ := hb.toFloat few.2
  rcases mixedRounds exact rounded a b with ⟨m, n, rfl, rfl⟩ | rounds
  · exact ⟨int (exact m n), rfl, (onInts m n ▸ bounded ha hb : |(exact m n : Rat)| ≤ 2 ^ l)⟩
  · refine ⟨float (rounded x y), ?_, trivial⟩
    rw [rounds, hx, okBind, hy, okBind]

end

theorem sumBounded {p q : Rat} (hp : |p| ≤ 2 ^ j) (hq : |q| ≤ 2 ^ k) :
    |p + q| ≤ 2 ^ (max j k + 1) := by
  have left : (2 : Rat) ^ j ≤ 2 ^ max j k := pow_le_pow_right₀ one_le_two (le_max_left _ _)
  have right : (2 : Rat) ^ k ≤ 2 ^ max j k := pow_le_pow_right₀ one_le_two (le_max_right _ _)
  calc |p + q| ≤ |p| + |q| := abs_add_le p q
    _ ≤ 2 ^ max j k + 2 ^ max j k := add_le_add (hp.trans left) (hq.trans right)
    _ = 2 ^ (max j k + 1) := by rw [pow_succ, mul_two]

theorem differenceBounded {p q : Rat} (hp : |p| ≤ 2 ^ j) (hq : |q| ≤ 2 ^ k) :
    |p - q| ≤ 2 ^ (max j k + 1) := by
  rw [sub_eq_add_neg]
  exact sumBounded hp (by rwa [abs_neg])

theorem productBounded {p q : Rat} (hp : |p| ≤ 2 ^ j) (hq : |q| ≤ 2 ^ k) :
    |p * q| ≤ 2 ^ (j + k) := by
  rw [abs_mul, pow_add]
  exact mul_le_mul hp hq (abs_nonneg q) (by positivity)

theorem Within.add (few : max j k < 1000) (ha : Within j a) (hb : Within k b) :
    ∃ c, Number.add a b = .ok c ∧ Within (max j k + 1) c := by
  refine mixedWithin ⟨by omega, by omega⟩ (fun m n => Int.cast_add m n) ?_ sumBounded ha hb
  intro x y p q hx hy small
  rw [← twoPower] at small ⊢
  exact Binary64.addBounded hx hy (by omega) (by omega) small

theorem Within.sub (few : max j k < 1000) (ha : Within j a) (hb : Within k b) :
    ∃ c, Number.sub a b = .ok c ∧ Within (max j k + 1) c := by
  refine mixedWithin ⟨by omega, by omega⟩ (fun m n => Int.cast_sub m n) ?_ differenceBounded ha hb
  intro x y p q hx hy small
  rw [← twoPower] at small ⊢
  exact Binary64.subBounded hx hy (by omega) (by omega) small

theorem Within.mul (few : j + k ≤ 1000) (ha : Within j a) (hb : Within k b) :
    ∃ c, Number.mul a b = .ok c ∧ Within (j + k) c := by
  refine mixedWithin ⟨by omega, by omega⟩ (fun m n => Int.cast_mul m n) ?_ productBounded ha hb
  intro x y p q hx hy small
  rw [← twoPower] at small ⊢
  exact Binary64.mulBounded hx hy (by omega) (by omega) small

theorem Within.neg (ha : Within k a) : Within k (Number.neg a) := by
  obtain ⟨q, worth, small⟩ := ha
  refine ⟨-q, ?_, by rwa [abs_neg]⟩
  cases a with
  | int n => exact (congrArg (- ·) worth).trans (Int.cast_neg n).symm
  | float x => exact Binary64.standsNeg worth

theorem Loose.add (few : max j k < 1000) (ha : Loose j a) (hb : Loose k b) :
    ∃ c, Number.add a b = .ok c ∧ Loose (max j k + 1) c :=
  mixedLoose ⟨by omega, by omega⟩ (fun m n => Int.cast_add m n) sumBounded ha hb

theorem Loose.sub (few : max j k < 1000) (ha : Loose j a) (hb : Loose k b) :
    ∃ c, Number.sub a b = .ok c ∧ Loose (max j k + 1) c :=
  mixedLoose ⟨by omega, by omega⟩ (fun m n => Int.cast_sub m n) differenceBounded ha hb

theorem Loose.mul (few : j + k ≤ 1000) (ha : Loose j a) (hb : Loose k b) :
    ∃ c, Number.mul a b = .ok c ∧ Loose (j + k) c :=
  mixedLoose ⟨by omega, by omega⟩ (fun m n => Int.cast_mul m n) productBounded ha hb

theorem Loose.neg (ha : Loose k a) : Loose k (Number.neg a) := by
  cases a with
  | int n => exact (by rw [Int.cast_neg, abs_neg]; exact ha : |((-n : Int) : Rat)| ≤ 2 ^ k)
  | float x => trivial

theorem Loose.ofNeg (loose : Loose k (Number.neg a)) : Loose k a := by
  have twice : Number.neg (Number.neg a) = a := by
    cases a with
    | int n => exact congrArg int (neg_neg n)
    | float x => exact congrArg float (Binary64.negNeg x)
  exact twice ▸ loose.neg

theorem Loose.div (few : j ≤ 1000) (ha : Loose j a) {y : Float} (nonzero : ¬ y == 0) :
    ∃ x, Number.div a (float y) = .ok (float x) := by
  obtain ⟨x, hx⟩ := ha.toFloat few
  have rounds : Number.div a (float y) = a.toFloat >>= fun x =>
      if y == 0 then .error .divisionByZero else .ok (float (x / y)) := by
    cases a <;> rfl
  exact ⟨x / y, by rw [rounds, hx, okBind, if_neg nonzero]⟩

theorem Within.sin (few : k ≤ 1000) (ha : Within k a) : ∃ x, Number.sin a = .ok (float x) := by
  obtain ⟨x, q, result, stands, _⟩ := ha.toFloat few
  have finite : x.isInf = false := by
    have shape : x.isInf = (form x).isInf := rfl
    rcases Binary64.standsCases stands with ⟨s, known, _⟩ | ⟨s, m, e, h, known, _⟩ <;>
      · rw [shape, known]
        rfl
  refine ⟨sine x, ?_⟩
  have value : Number.sin a =
      a.toFloat >>= fun x => if x.isInf then .error .outsideDomain else .ok (float (sine x)) := rfl
  rw [value, result, okBind, finite]
  rfl

theorem nonzeroDouble {x : Float} {q : Rat} (stands : Stands x q) (some : q ≠ 0) : ¬ x == 0 := by
  rw [Binary64.isZeroForm]
  rintro ⟨s, zero⟩
  exact some (Binary64.standsOnce stands (Binary64.standsZero zero))

theorem writtenMagnitude {q : Rat} (small : |q| ≤ 2 ^ k) : ∃ n places : Nat, places ≤ 9 ∧
    Decimal.numeral (Decimal.compact 9 q.num.natAbs q.den) = (n, -(places : Int)) ∧
    (n : Rat) / 10 ^ places ≤ 2 ^ k ∧
    (5 / 10 ^ 10 < |q| → 1 / 10 ^ 9 ≤ (n : Rat) / 10 ^ places) := by
  obtain ⟨n, places, few, worth, value⟩ := Decimal.compactUnits q.num.natAbs q.den
  have positive : (0 : Rat) < q.den := by exact_mod_cast q.den_pos
  have ratio := magnitudeRatio q
  refine ⟨n, places, few, worth, ?_, fun large => ?_⟩
  · have fits : q.num.natAbs * 10 ^ 9 ≤ 2 ^ k * 10 ^ 9 * q.den := by
      have : (q.num.natAbs : Rat) ≤ 2 ^ k * q.den :=
        ratio ▸ mul_le_mul_of_nonneg_right small positive.le
      have : q.num.natAbs ≤ 2 ^ k * q.den := by exact_mod_cast this
      nlinarith
    have rounded := Binary64.roundHalfEvenLe fits
    rw [value, div_le_iff₀ (by positivity)]
    exact_mod_cast rounded
  · have some : q.den < 2 * (q.num.natAbs * 10 ^ 9) := by
      have : (5 / 10 ^ 10 : Rat) * q.den < q.num.natAbs :=
        ratio ▸ mul_lt_mul_of_pos_right large positive
      have : (q.den : Rat) < 2 * (q.num.natAbs * 10 ^ 9) := by linarith
      exact_mod_cast this
    have rounded := Binary64.roundHalfEvenSome some
    rw [value]
    gcongr
    exact_mod_cast rounded

theorem denotedBounded {v : Scalar} {q : Rat} (finite : Number.finite? v = .ok (some q))
    (few : k ≤ 1000) (small : |q| ≤ 2 ^ k) :
    ∃ x r, Expr.denoted v = .float x ∧ Stands x r ∧ |r| ≤ 2 ^ k ∧ (5 / 10 ^ 10 < |q| → r ≠ 0) := by
  obtain ⟨n, places, most, worth, bounded, large⟩ := writtenMagnitude small
  obtain ⟨r, stands, nonneg, within, positive⟩ := @Binary64.ofDecimalBounded k n places (by omega)
    (by omega) (by omega) (by exact_mod_cast bounded)
  rw [zpow_natCast] at within
  have least : (2 : Rat) ^ (-1074 : Int) ≤ 1 / 10 ^ 9 :=
    (zpow_le_zpow_right₀ one_le_two (by decide : (-1074 : Int) ≤ -30)).trans (by norm_num)
  have some (h : 5 / 10 ^ 10 < |q|) : 0 < r := positive (least.trans (large h))
  have plain := Decimal.compactPlain 9 q.num.natAbs q.den
  have read : (Expr.literal (Decimal.compact 9 q.num.natAbs q.den) : Scalar) =
      .float (Binary64.ofDecimal false n (-(places : Int))) := by
    rw [Expr.literal, worth]
    rfl
  have written : Expr.numeralText v = .ok (Decimal.nineDecimals q) := by
    rw [Expr.numeralText, finite]
  simp only [Decimal.nineDecimals] at written
  split at written
  · refine ⟨_, -r, ?_, Binary64.standsNeg stands, ?_, fun h => neg_ne_zero.mpr (some h).ne'⟩
    · rw [Expr.denotedSigned written, read]
      rfl
    · rwa [abs_neg, abs_of_nonneg nonneg]
  · refine ⟨_, r, ?_, stands, ?_, fun h => (some h).ne'⟩
    · rw [Expr.denotedUnsigned written fun _ => plain.unsigned, read]
    · rwa [abs_of_nonneg nonneg]

end

end OverlayMotion.Scalar

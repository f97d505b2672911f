import OverlayMotion.Proofs.Double

/-! How the operations of doubles round. A result is found exactly, its significand is
shifted to the grid of doubles with one bit and one flag kept of what falls off, and what is
left is rounded by them: that is the nearest point of the grid, a half going to the even one.
A result no larger than a power of two rounds to one that is no larger either, so sums and
products of doubles far below the largest one are finite. -/
namespace OverlayMotion.Binary64
open Float.Model (UnpackedFloat Format)
open Float.Model.UnpackedFloat (Sign ExtendedMantissa Accuracy packComponents unpackSign
  unpackExponent unpackMantissa pack unpack roundWithAccuracy shiftToTargetExponent)

theorem roundHalfEvenLe {num den n : Nat} (h : num ≤ n * den) : roundHalfEven num den ≤ n := by
  have quotient : num / den ≤ n := Nat.div_le_of_le_mul (by rwa [Nat.mul_comm] at h)
  have split := Nat.div_add_mod num den
  simp only [roundHalfEven]
  rcases quotient.lt_or_eq with below | same
  · split_ifs <;> omega
  · have rest : num % den = 0 := by
      rw [same, Nat.mul_comm] at split
      omega
    simp only [rest]
    split_ifs
    · omega
    · omega
    · have zero : den = 0 := by omega
      simp [zero]

theorem leRoundHalfEven {num den n : Nat} (positive : 0 < den) (h : n * den ≤ num) :
    n ≤ roundHalfEven num den := by
  have quotient : n ≤ num / den := (Nat.le_div_iff_mul_le positive).mpr h
  simp only [roundHalfEven]
  split_ifs <;> omega

theorem roundHalfEvenSome {num den : Nat} (h : den < 2 * num) : 0 < roundHalfEven num den := by
  simp only [roundHalfEven]
  rcases Nat.lt_or_ge num den with below | above
  · rw [Nat.div_eq_of_lt below, Nat.mod_eq_of_lt below]
    split_ifs <;> omega
  · rcases Nat.eq_zero_or_pos den with rfl | positive
    · split_ifs <;> simp_all
    · have quotient : 0 < num / den := Nat.div_pos above positive
      split_ifs <;> omega

structure Shifted (m n : Nat) (em : ExtendedMantissa) : Prop where
  mantissa : em.mantissa = m / 2 ^ n
  roundBit : em.roundBit = decide (2 ^ n ≤ 2 * (m % 2 ^ n))
  stickyBit : em.stickyBit = decide (2 * (m % 2 ^ n) % 2 ^ n ≠ 0)

theorem shiftedNone (m : Nat) : Shifted m 0 (.ofMantissaAndAccuracy m .exact) := by
  constructor <;> simp [ExtendedMantissa.ofMantissaAndAccuracy, Nat.mod_one]

theorem Shifted.once {m n : Nat} {em : ExtendedMantissa} (h : Shifted m n em) :
    Shifted m (n + 1) em.shiftRightOne := by
  have power : 2 ^ (n + 1) = 2 * 2 ^ n := Nat.pow_succ'
  have positive : 0 < 2 ^ n := Nat.two_pow_pos n
  have below : m % 2 ^ n < 2 ^ n := Nat.mod_lt m positive
  have rest : m % 2 ^ (n + 1) = m % 2 ^ n + 2 ^ n * (m / 2 ^ n % 2) := by
    rw [Nat.pow_succ, Nat.mod_mul]
  have bit := Nat.mod_two_eq_zero_or_one (m / 2 ^ n)
  constructor
  · rw [ExtendedMantissa.shiftRightOne, h.mantissa, Nat.div_div_eq_div_mul, Nat.pow_succ]
  · rw [ExtendedMantissa.shiftRightOne, h.mantissa, rest, power, Bool.eq_iff_iff]
    rcases bit with zero | one
    · simp only [zero]
      simp
      omega
    · simp only [one]
      simp
  · have doubled : 2 * (m % 2 ^ (n + 1)) % 2 ^ (n + 1) = 2 * (m % 2 ^ n) := by
      rw [rest, power]
      rcases bit with zero | one
      · rw [zero, Nat.mul_zero, Nat.add_zero]
        exact Nat.mod_eq_of_lt (by omega)
      · rw [one, Nat.mul_one, Nat.mul_add, Nat.add_mod_right]
        exact Nat.mod_eq_of_lt (by omega)
    rw [ExtendedMantissa.shiftRightOne, h.roundBit, h.stickyBit, doubled, Bool.eq_iff_iff]
    simp only [Bool.or_eq_true, decide_eq_true_eq]
    rcases Nat.lt_or_ge (2 * (m % 2 ^ n)) (2 ^ n) with low | high
    · rw [Nat.mod_eq_of_lt low]
      omega
    · omega

theorem shifted (m n : Nat) :
    Shifted m n (ExtendedMantissa.ofMantissaAndAccuracy m .exact >>> n) := by
  change Shifted m n (n.repeat ExtendedMantissa.shiftRightOne _)
  induction n with
  | zero => exact shiftedNone m
  | succ n ih => exact ih.once

theorem Shifted.rounded {m n : Nat} {em : ExtendedMantissa} (h : Shifted m n em) :
    em.roundedMantissa = roundHalfEven m (2 ^ n) := by
  obtain ⟨whole, round, sticky⟩ := em
  obtain ⟨hw, hr, hs⟩ := h
  simp only at hw hr hs
  have below : m % 2 ^ n < 2 ^ n := Nat.mod_lt m (Nat.two_pow_pos n)
  simp only [roundHalfEven, ← hw]
  cases round <;> cases sticky <;>
    simp only [ExtendedMantissa.roundedMantissa, ExtendedMantissa.accuracy,
      Accuracy.roundToNearestEven]
  all_goals
    simp only [eq_comm (a := true), eq_comm (a := false), decide_eq_true_eq,
      decide_eq_false_iff_not, not_le, ne_eq, not_not] at hr hs
  · rw [if_pos hr]
  · rw [if_pos hr]
  · have same : 2 * (m % 2 ^ n) = 2 ^ n := by
      have small : 2 * (m % 2 ^ n) - 2 ^ n < 2 ^ n := by omega
      rw [Nat.mod_eq_sub_mod hr, Nat.mod_eq_of_lt small] at hs
      omega
    rw [if_neg (by omega), if_neg (by omega)]
  · have other : 2 * (m % 2 ^ n) ≠ 2 ^ n := by
      intro same
      rw [same, Nat.mod_self] at hs
      exact hs rfl
    rw [if_neg (by omega), if_pos (by omega)]

def gridExponent (m : Nat) (e : Int) : Int := max ((m.log2 : Int) + 1 + e - 53) (-1074)

def gridPoint (m : Nat) (e : Int) : Nat := roundHalfEven m (2 ^ (gridExponent m e - e).toNat)

structure Canonical (m : Nat) (e : Int) : Prop where
  short : m < 2 ^ 53
  fine : -1074 ≤ e
  full : 2 ^ 52 ≤ m ∨ e = -1074

theorem gridFine (m : Nat) (e : Int) : -1074 ≤ gridExponent m e := le_max_right _ _

theorem shiftedToGrid (m : Nat) (e : Int) : shiftToTargetExponent .binary64 m e .exact =
    (ExtendedMantissa.ofMantissaAndAccuracy m .exact >>> (gridExponent m e - e).toNat,
      e + ((gridExponent m e - e).toNat : Int)) := rfl

theorem gridPointShort {m : Nat} {e : Int} (reach : e ≤ gridExponent m e) :
    gridPoint m e ≤ 2 ^ 53 := by
  refine roundHalfEvenLe ?_
  have below : m < 2 ^ (m.log2 + 1) := Nat.lt_log2_self
  have far : (m.log2 : Int) + 1 + e - 53 ≤ gridExponent m e := le_max_left _ _
  rw [← Nat.pow_add]
  exact below.le.trans (Nat.pow_le_pow_right (by decide) (by omega))

theorem gridPointFull {m : Nat} {e : Int} (positive : 0 < m) (reach : e ≤ gridExponent m e)
    (coarse : gridExponent m e ≠ -1074) : 2 ^ 52 ≤ gridPoint m e := by
  refine leRoundHalfEven (Nat.two_pow_pos _) ?_
  have above : 2 ^ m.log2 ≤ m := Nat.log2_self_le positive.ne'
  have own : gridExponent m e = (m.log2 : Int) + 1 + e - 53 := by
    unfold gridExponent at *
    omega
  rw [← Nat.pow_add]
  exact (Nat.pow_le_pow_right (by decide) (by omega)).trans above

def settled (s : Sign) (r : Nat) (t : Int) : UnpackedFloat :=
  let carried := shiftToTargetExponent .binary64 r t .exact
  if none : carried.1.mantissa = 0 then .zero s
  else .finite s carried.1.mantissa carried.2 (Nat.pos_of_ne_zero none)

theorem roundedSettles (s : Sign) {m : Nat} {e : Int} (reach : e ≤ gridExponent m e) :
    roundWithAccuracy .binary64 s m e .exact = settled s (gridPoint m e) (gridExponent m e) := by
  have point : (ExtendedMantissa.ofMantissaAndAccuracy m .exact >>>
      (gridExponent m e - e).toNat).roundedMantissa = gridPoint m e := (shifted _ _).rounded
  have exponent : e + ((gridExponent m e - e).toNat : Int) = gridExponent m e := by omega
  change settled s (ExtendedMantissa.ofMantissaAndAccuracy m .exact >>>
    (gridExponent m e - e).toNat).roundedMantissa (e + ((gridExponent m e - e).toNat : Int)) = _
  rw [point, exponent]

theorem settledAt (s : Sign) {r r' : Nat} {t t' : Int}
    (carries : (shiftToTargetExponent .binary64 r t .exact).1.mantissa = r')
    (exponent : (shiftToTargetExponent .binary64 r t .exact).2 = t') (positive : 0 < r') :
    settled s r t = .finite s r' t' positive := by
  subst carries exponent
  exact dif_neg positive.ne'

theorem settledCases (s : Sign) {r : Nat} {t : Int} (short : r ≤ 2 ^ 53) (fine : -1074 ≤ t)
    (full : t ≠ -1074 → 2 ^ 52 ≤ r) : r = 0 ∧ settled s r t = .zero s ∨
      ∃ r' t' h, settled s r t = .finite s r' t' h ∧ Canonical r' t' ∧
        (r' : Rat) * 2 ^ t' = r * 2 ^ t := by
  have again := shifted r (gridExponent r t - t).toNat
  rcases short.lt_or_eq with inside | rfl
  · have log : r.log2 < 53 := by
      rcases Nat.eq_zero_or_pos r with rfl | some
      · decide
      · exact (Nat.log2_lt some.ne').mpr inside
    have long : t ≠ -1074 → 52 ≤ r.log2 := fun coarse =>
      (Nat.le_log2 ((Nat.two_pow_pos 52).trans_le (full coarse)).ne').mpr (full coarse)
    have stays : gridExponent r t = t := by
      unfold gridExponent
      omega
    have kept : (shiftToTargetExponent .binary64 r t .exact).1.mantissa = r := by
      rw [shiftedToGrid, again.mantissa, stays]
      simp
    have still : (shiftToTargetExponent .binary64 r t .exact).2 = t := by
      simp [shiftedToGrid, stays]
    rcases Nat.eq_zero_or_pos r with rfl | some
    · exact .inl ⟨rfl, dif_pos kept⟩
    · exact .inr ⟨r, t, some, settledAt s kept still some,
        ⟨inside, fine, or_iff_not_imp_right.mpr full⟩, rfl⟩
  -- A carry: the significand is shifted once more, into the next binade.
  · have next : gridExponent (2 ^ 53) t = t + 1 := by
      unfold gridExponent
      rw [Nat.log2_two_pow]
      omega
    have halved : (shiftToTargetExponent .binary64 (2 ^ 53) t .exact).1.mantissa = 2 ^ 52 := by
      rw [shiftedToGrid, again.mantissa, next, add_sub_cancel_left]
      decide
    have above : (shiftToTargetExponent .binary64 (2 ^ 53) t .exact).2 = t + 1 := by
      rw [shiftedToGrid, next, add_sub_cancel_left]
      rfl
    refine .inr ⟨2 ^ 52, t + 1, by decide, settledAt s halved above (by decide),
      ⟨by decide, by omega, .inl le_rfl⟩, ?_⟩
    rw [zpow_add_one₀ two_ne_zero]
    push_cast
    ring

def signed : Sign → Rat
  | .negative => -1
  | .positive => 1

/-- A finite double that stands for a number. -/
def Stands (x : Float) (q : Rat) : Prop := ∃ d, decode x = some d ∧ d.toRat = q

theorem toRatSigned (s : Sign) (m : Nat) (e : Int) :
    (⟨s == .negative, m, e⟩ : Decoded).toRat = signed s * (m * 2 ^ e) := by
  simp only [Decoded.toRat, Decoded.ratio, Rat.mkRat_eq_div, Nat.pow_eq]
  rcases le_or_gt 0 e with above | below
  · obtain ⟨n, rfl⟩ := Int.eq_ofNat_of_zero_le above
    rw [if_pos above]
    cases s <;> simp [signed]
  · obtain ⟨n, same⟩ := Int.eq_ofNat_of_zero_le (neg_nonneg.mpr below.le)
    obtain rfl : e = -(n : Int) := by omega
    rw [if_neg below.not_ge]
    cases s <;> simp [signed, div_eq_mul_inv]

theorem standsForm {x : Float} {s : Sign} {m : Nat} {e : Int} {h : 0 < m}
    (known : form x = .finite s m e h) : Stands x (signed s * (m * 2 ^ e)) := by
  refine ⟨⟨s == .negative, m, e⟩, ?_, toRatSigned s m e⟩
  rw [decodeForm, known]

theorem standsZero {x : Float} {s : Sign} (known : form x = .zero s) : Stands x 0 := by
  refine ⟨⟨s == .negative, 0, -1074⟩, ?_, ?_⟩
  · rw [decodeForm, known]
  · rw [toRatSigned]
    simp

theorem standsOnce {x : Float} {p q : Rat} (hp : Stands x p) (hq : Stands x q) : p = q := by
  obtain ⟨d, decoded, rfl⟩ := hp
  obtain ⟨d', decoded', rfl⟩ := hq
  rw [decoded] at decoded'
  rw [Option.some.inj decoded']

theorem standsCases {x : Float} {q : Rat} (stands : Stands x q) :
    (∃ s, form x = .zero s ∧ q = 0) ∨
      ∃ s m e h, form x = .finite s m e h ∧ q = signed s * (m * 2 ^ e) := by
  cases known : form x with
  | zero s => exact .inl ⟨s, rfl, standsOnce stands (standsZero known)⟩
  | finite s m e h => exact .inr ⟨s, m, e, h, rfl, standsOnce stands (standsForm known)⟩
  | _ =>
    obtain ⟨d, decoded, _⟩ := stands
    rw [decodeForm, known] at decoded
    contradiction

theorem canonicalForm {x : Float} {s : Sign} {m : Nat} {e : Int} {h : 0 < m}
    (known : form x = .finite s m e h) : Canonical m e ∧ e ≤ 971 := by
  obtain ⟨b, same⟩ : ∃ b : Bits, x.toBits.toBitVec = b := ⟨_, rfl⟩
  have fields := unpackComponents (.ofBitVec (unpackSign b)) (unpackExponent b) (unpackMantissa b)
  have unpacked : form x = unpack .binary64 b := by
    rw [← same]
    rfl
  rw [componentsBack, ← unpacked, known] at fields
  generalize unpackExponent b = biased at fields
  generalize unpackMantissa b = fraction at fields
  have short : fraction.toNat < 2 ^ 52 := fraction.isLt
  have few : biased.toNat < 2 ^ 11 := biased.isLt
  split_ifs at fields with high none low zero
  · injection fields with _ hm he
    subst hm he
    exact ⟨⟨by omega, le_rfl, .inr rfl⟩, by decide⟩
  · injection fields with _ hm he
    rw [implicitNat] at hm
    have notHigh : biased.toNat ≠ 2047 := fun same => high (BitVec.eq_of_toNat_eq same)
    have notLow : biased.toNat ≠ 0 := fun same => low (BitVec.eq_of_toNat_eq same)
    exact ⟨⟨by omega, by omega, .inl (by omega)⟩, by omega⟩

theorem formPacked (s : Sign) {m : Nat} {e : Int} (h : 0 < m) (canonical : Canonical m e)
    (low : e ≤ 971) : form (.ofModel (.pack (.finite s m e h))) = .finite s m e h := by
  obtain ⟨short, fine, full⟩ := canonical
  change unpack .binary64 (pack .binary64 (.finite s m e h)) = _
  rcases Nat.lt_or_ge m (2 ^ 52) with light | heavy
  · obtain rfl := full.resolve_left (by omega)
    obtain ⟨b, rfl⟩ : ∃ b : BitVec 52, m = b.toNat :=
      ⟨BitVec.ofNat 52 m, (Nat.mod_eq_of_lt light).symm⟩
    have some : b ≠ 0#52 := by
      rintro rfl
      exact absurd h (by decide)
    rw [packSubnormal s b h, unpackComponents, if_neg (by decide), if_pos (by rfl), dif_neg some]
  · obtain ⟨b, rfl⟩ : ∃ b : BitVec 52, m = 2 ^ 52 + b.toNat :=
      ⟨BitVec.ofNat 52 (m - 2 ^ 52), by
        rw [BitVec.toNat_ofNat, Nat.mod_eq_of_lt (by omega)]
        omega⟩
    obtain ⟨c, rfl⟩ : ∃ c : BitVec 11, e = (c.toNat : Int) - 1075 :=
      ⟨BitVec.ofNat 11 (e + 1075).toNat, by
        rw [BitVec.toNat_ofNat, Nat.mod_eq_of_lt (by omega)]
        omega⟩
    have nonzero : c ≠ 0#11 := by
      rintro rfl
      simp at fine
    have finite : c ≠ -1#11 := by
      rintro rfl
      simp at low
    rw [packNormal s c b nonzero finite h, unpackComponents, if_neg finite, if_neg nonzero]
    simp only [implicitNat]

theorem formInfinity (s : Sign) : form (.ofModel (.pack (.infinity s))) = .infinity s := by
  cases s <;> rfl

theorem formBeyond (s : Sign) {m : Nat} {e : Int} (h : 0 < m) (high : 971 < e) :
    form (.ofModel (.pack (.finite s m e h))) = .infinity s := by
  have biased : (e + Format.exponentBias .binary64 + (52 : Nat)).toNat = (e + 1075).toNat := by
    rw [show Format.exponentBias .binary64 = 1023 from rfl]
    omega
  have packed : pack .binary64 (.finite s m e h) = pack .binary64 (.infinity s) := by
    simp only [pack, biased]
    exact if_pos (by omega)
  change unpack .binary64 (pack .binary64 (.finite s m e h)) = _
  rw [packed]
  exact formInfinity s

theorem roundReaches (s : Sign) {m : Nat} (e : Int) (positive : 0 < m) :
    ∃ n t, 0 < n ∧ t ≤ gridExponent n t ∧ (n : Rat) * 2 ^ t = m * 2 ^ e ∧
      UnpackedFloat.round .binary64 s m e = roundWithAccuracy .binary64 s n t .exact := by
  -- A number that is coarser than the grid is shifted up to it first.
  let n := (e - gridExponent m e).toNat
  have some : 0 < m <<< n := by
    rw [Nat.shiftLeft_eq]
    positivity
  have log : (m <<< n).log2 = m.log2 + n := by
    have above := Nat.log2_self_le positive.ne'
    have below := Nat.lt_log2_self (n := m)
    rw [Nat.log2_eq_iff some.ne', Nat.shiftLeft_eq, Nat.add_right_comm, Nat.pow_add, Nat.pow_add]
    exact ⟨Nat.mul_le_mul_right _ above, Nat.mul_lt_mul_of_pos_right below (Nat.two_pow_pos n)⟩
  have grid : gridExponent (m <<< n) (e - (n : Int)) = gridExponent m e := by
    unfold gridExponent
    rw [log]
    push_cast
    congr 1
    ring
  refine ⟨m <<< n, e - (n : Int), some, by omega, ?_, rfl⟩
  rw [Nat.shiftLeft_eq, zpow_sub₀ two_ne_zero, zpow_natCast]
  push_cast
  field_simp

section
variable {k : Int}

theorem gridPointBounded {m : Nat} {e : Int} (positive : 0 < m) (reach : e ≤ gridExponent m e)
    (low : -1074 ≤ k) (small : (m : Rat) * 2 ^ e ≤ 2 ^ k) :
    (gridPoint m e : Rat) * 2 ^ gridExponent m e ≤ 2 ^ k := by
  have log : (m.log2 : Int) + e ≤ k := by
    have above : (2 : Rat) ^ m.log2 ≤ m := by exact_mod_cast Nat.log2_self_le positive.ne'
    have binade : (2 : Rat) ^ ((m.log2 : Int) + e) ≤ 2 ^ k := by
      rw [zpow_add₀ two_ne_zero, zpow_natCast]
      exact (mul_le_mul_of_nonneg_right above (by positivity)).trans small
    exact (zpow_le_zpow_iff_right₀ one_lt_two).mp binade
  have inside : gridExponent m e ≤ k := by
    unfold gridExponent
    omega
  obtain ⟨n, hn⟩ := Int.eq_ofNat_of_zero_le (sub_nonneg.mpr inside)
  obtain ⟨l, hl⟩ := Int.eq_ofNat_of_zero_le (sub_nonneg.mpr reach)
  have steps : k = e + (l + n : Nat) := by
    push_cast
    omega
  have below : m ≤ 2 ^ n * 2 ^ l := by
    rw [steps, zpow_add₀ two_ne_zero, zpow_natCast, mul_comm] at small
    have cast := le_of_mul_le_mul_left small (by positivity)
    rw [← Nat.pow_add, Nat.add_comm]
    exact_mod_cast cast
  have point : gridPoint m e ≤ 2 ^ n := by
    refine roundHalfEvenLe ?_
    rwa [hl, Int.toNat_natCast]
  calc (gridPoint m e : Rat) * 2 ^ gridExponent m e ≤ 2 ^ n * 2 ^ gridExponent m e := by
        refine mul_le_mul_of_nonneg_right ?_ (by positivity)
        exact_mod_cast point
    _ = 2 ^ k := by
        rw [← zpow_natCast, ← zpow_add₀ two_ne_zero]
        congr 1
        omega

theorem roundedBounded (s : Sign) {m : Nat} {e : Int} (positive : 0 < m)
    (reach : e ≤ gridExponent m e) (low : -1074 ≤ k) (high : k ≤ 1023)
    (small : (m : Rat) * 2 ^ e ≤ 2 ^ k) :
    ∃ q, Stands (.ofModel (.pack (roundWithAccuracy .binary64 s m e .exact))) (signed s * q) ∧
      0 ≤ q ∧ q ≤ 2 ^ k := by
  have bounded := gridPointBounded positive reach low small
  rw [roundedSettles s reach]
  obtain ⟨_, lands⟩ | ⟨r, t, h, lands, canonical, same⟩ := settledCases s (gridPointShort reach)
    (gridFine m e) (gridPointFull positive reach)
  · refine ⟨0, ?_, le_rfl, by positivity⟩
    rw [lands, mul_zero]
    exact standsZero (formZero s)
  · have small : (r : Rat) * 2 ^ t ≤ 2 ^ k := same.trans_le bounded
    have finite : t ≤ 971 := by
      rcases canonical.full with long | fine
      · have above : (2 : Rat) ^ 52 ≤ r := by exact_mod_cast long
        have binade : (2 : Rat) ^ ((52 : Int) + t) ≤ 2 ^ k := by
          rw [zpow_add₀ two_ne_zero]
          exact (mul_le_mul_of_nonneg_right above (by positivity)).trans small
        have := (zpow_le_zpow_iff_right₀ one_lt_two).mp binade
        omega
      · omega
    rw [lands]
    exact ⟨r * 2 ^ t, standsForm (formPacked s h canonical finite), by positivity, small⟩

theorem signedBounded {s : Sign} {q : Rat} (nonneg : 0 ≤ q) (small : q ≤ 2 ^ k) :
    |signed s * q| ≤ 2 ^ k := by
  cases s <;> simpa [signed, abs_of_nonneg nonneg] using small

theorem roundBounded (s : Sign) {m : Nat} {e : Int} (positive : 0 < m) (low : -1074 ≤ k)
    (high : k ≤ 1023) (small : (m : Rat) * 2 ^ e ≤ 2 ^ k) :
    ∃ q, Stands (.ofModel (.pack (UnpackedFloat.round .binary64 s m e))) q ∧ |q| ≤ 2 ^ k := by
  obtain ⟨n, t, some, reach, same, rounded⟩ := roundReaches s e positive
  obtain ⟨q, stands, nonneg, bounded⟩ :=
    roundedBounded s some reach low high (same.trans_le small)
  exact ⟨_, rounded ▸ stands, signedBounded nonneg bounded⟩

theorem normalizeBounded {m e : Int} (low : -1074 ≤ k) (high : k ≤ 1023)
    (small : |(m : Rat) * 2 ^ e| ≤ 2 ^ k) :
    ∃ q, Stands (.ofModel (.pack (UnpackedFloat.normalize .binary64 m e .positive))) q ∧
      |q| ≤ 2 ^ k := by
  rw [abs_mul, abs_of_pos (zpow_pos (two_pos : (0 : Rat) < 2) e)] at small
  unfold UnpackedFloat.normalize
  rcases lt_trichotomy m 0 with below | rfl | above
  · have magnitude : ((-m).toNat : Rat) = |(m : Rat)| := by
      rw [abs_of_neg (by exact_mod_cast below)]
      exact_mod_cast Int.toNat_of_nonneg (by omega)
    rw [Int.compare_eq_lt.mpr below]
    exact roundBounded .negative (by omega) low high (by rwa [magnitude])
  · rw [Int.compare_eq_eq.mpr rfl]
    exact ⟨0, standsZero (formZero _), by simp; positivity⟩
  · have magnitude : (m.toNat : Rat) = |(m : Rat)| := by
      rw [abs_of_pos (by exact_mod_cast above)]
      exact_mod_cast Int.toNat_of_nonneg above.le
    rw [Int.compare_eq_gt.mpr above]
    exact roundBounded .positive (by omega) low high (by rwa [magnitude])

theorem signedApply (s : Sign) (m : Nat) : ((s.apply m : Int) : Rat) = signed s * m := by
  cases s <;> simp [Sign.apply, signed]

theorem signedMul (s t : Sign) : signed (s * t) = signed s * signed t := by
  cases s <;> cases t <;> decide +kernel

theorem standsNeg {x : Float} {q : Rat} (stands : Stands x q) : Stands (-x) (-q) := by
  obtain ⟨d, decoded, rfl⟩ := stands
  exact ⟨_, by rw [decodeNeg, decoded, Option.map_some], toRatNeg d⟩

theorem formRepacked {x : Float} {q : Rat} (stands : Stands x q) :
    form (.ofModel (.pack (form x))) = form x := by
  rcases standsCases stands with ⟨s, known, _⟩ | ⟨s, m, e, h, known, _⟩
  · rw [known, formZero]
  · obtain ⟨canonical, low⟩ := canonicalForm known
    rw [known, formPacked s h canonical low]

theorem decreased (m : Nat) {e t : Int} (below : t ≤ e) :
    UnpackedFloat.decreaseExponent m e t = (m <<< (e - t).toNat, t) := by
  simp only [UnpackedFloat.decreaseExponent]
  congr 1
  omega

theorem aligned (m : Nat) {e t : Int} (below : t ≤ e) :
    ((m <<< (e - t).toNat : Nat) : Rat) * 2 ^ t = m * 2 ^ e := by
  obtain ⟨n, same⟩ := Int.eq_ofNat_of_zero_le (sub_nonneg.mpr below)
  obtain rfl : e = t + n := by omega
  rw [add_sub_cancel_left, Int.toNat_natCast, Nat.shiftLeft_eq, zpow_add₀ two_ne_zero,
    zpow_natCast]
  push_cast
  ring

theorem sumCases {x y : Float} {p q : Rat} (hx : Stands x p) (hy : Stands y q) :
    Stands (x + y) (p + q) ∨ ∃ m e : Int, (m : Rat) * 2 ^ e = p + q ∧
      x + y = .ofModel (.pack (UnpackedFloat.normalize .binary64 m e .positive)) := by
  have sum : x + y = .ofModel (.pack (UnpackedFloat.add .binary64 (form x) (form y))) := rfl
  rcases standsCases hx with ⟨s, known, rfl⟩ | ⟨s, m, e, h, known, rfl⟩
  · left
    rcases standsCases hy with ⟨t, known', rfl⟩ | ⟨t, n, f, h', known', rfl⟩
    · have zero : ∃ u, UnpackedFloat.add .binary64 (form x) (form y) = .zero u := by
        rw [known, known', UnpackedFloat.add]
        split_ifs <;> exact ⟨_, rfl⟩
      obtain ⟨u, zero⟩ := zero
      rw [sum, zero, add_zero]
      exact standsZero (formZero u)
    · have other : UnpackedFloat.add .binary64 (form x) (form y) = form y := by
        rw [known, known']
        rfl
      rw [sum, other, zero_add]
      exact standsForm ((formRepacked hy).trans known')
  · rcases standsCases hy with ⟨t, known', rfl⟩ | ⟨t, n, f, h', known', rfl⟩
    · have other : UnpackedFloat.add .binary64 (form x) (form y) = form x := by
        rw [known, known']
        rfl
      left
      rw [sum, other, add_zero]
      exact standsForm ((formRepacked hx).trans known)
    · right
      rw [sum, known, known', UnpackedFloat.add, decreased m (min_le_left e f),
        decreased n (min_le_right e f)]
      refine ⟨_, _, ?_, rfl⟩
      rw [Int.cast_add, signedApply, signedApply, add_mul, mul_assoc, mul_assoc,
        aligned m (min_le_left e f), aligned n (min_le_right e f)]

theorem addBounded {x y : Float} {p q : Rat} (hx : Stands x p) (hy : Stands y q)
    (low : -1074 ≤ k) (high : k ≤ 1023) (small : |p + q| ≤ 2 ^ k) :
    ∃ r, Stands (x + y) r ∧ |r| ≤ 2 ^ k := by
  rcases sumCases hx hy with stands | ⟨m, e, value, rounds⟩
  · exact ⟨_, stands, small⟩
  · rw [rounds]
    exact normalizeBounded low high (by rwa [value])

theorem subBounded {x y : Float} {p q : Rat} (hx : Stands x p) (hy : Stands y q)
    (low : -1074 ≤ k) (high : k ≤ 1023) (small : |p - q| ≤ 2 ^ k) :
    ∃ r, Stands (x - y) r ∧ |r| ≤ 2 ^ k := by
  have opposite : x - y = x + -y := by
    have forms (u v : UnpackedFloat) :
        UnpackedFloat.sub .binary64 u v = UnpackedFloat.add .binary64 u v.neg := by
      cases u <;> cases v <;> try rfl
      rename_i s m e _ t n f _
      have flipped (a : Nat) : t.apply a = -((-t).apply a) := by
        cases t
        · exact rfl
        · exact (neg_neg _).symm
      simp only [UnpackedFloat.sub, UnpackedFloat.add, UnpackedFloat.neg, flipped, sub_neg_eq_add]
    change Float.ofModel (.pack (UnpackedFloat.sub .binary64 (form x) (form y))) =
      .ofModel (.pack (UnpackedFloat.add .binary64 (form x) (form (-y))))
    rw [formNeg, forms]
  rw [opposite]
  exact addBounded hx (standsNeg hy) low high (by rwa [← sub_eq_add_neg])

theorem productReach {m n : Nat} {e f : Int} (hm : 0 < m) (hn : 0 < n) (canonical : Canonical m e)
    (canonical' : Canonical n f) : e + f ≤ gridExponent (m * n) (e + f) := by
  have fine := gridFine (m * n) (e + f)
  obtain ⟨_, _, full⟩ := canonical
  obtain ⟨_, _, full'⟩ := canonical'
  -- A product too short for its own binade has two factors on the finest grid.
  by_cases long : 2 ^ 52 ≤ m * n
  · have log : 52 ≤ (m * n).log2 := (Nat.le_log2 (Nat.mul_pos hm hn).ne').mpr long
    unfold gridExponent
    omega
  · have short : m < 2 ^ 52 := by nlinarith
    have short' : n < 2 ^ 52 := by nlinarith
    omega

theorem mulBounded {x y : Float} {p q : Rat} (hx : Stands x p) (hy : Stands y q)
    (low : -1074 ≤ k) (high : k ≤ 1023) (small : |p * q| ≤ 2 ^ k) :
    ∃ r, Stands (x * y) r ∧ |r| ≤ 2 ^ k := by
  have product : x * y = .ofModel (.pack (UnpackedFloat.mul .binary64 (form x) (form y))) := rfl
  have zero {s : Sign} (none : UnpackedFloat.mul .binary64 (form x) (form y) = .zero s) :
      ∃ r, Stands (x * y) r ∧ |r| ≤ 2 ^ k := by
    refine ⟨0, ?_, by rw [abs_zero]; positivity⟩
    rw [product, none]
    exact standsZero (formZero s)
  rcases standsCases hx with ⟨s, known, rfl⟩ | ⟨s, m, e, h, known, rfl⟩ <;>
    rcases standsCases hy with ⟨t, known', rfl⟩ | ⟨t, n, f, h', known', rfl⟩
  · exact zero (s := s * t) (by rw [known, known']; rfl)
  · exact zero (s := s * t) (by rw [known, known']; rfl)
  · exact zero (s := s * t) (by rw [known, known']; rfl)
  · have reach := productReach h h' (canonicalForm known).1 (canonicalForm known').1
    have value : signed s * (m * 2 ^ e) * (signed t * (n * 2 ^ f)) =
        signed (s * t) * ((m * n : Nat) * 2 ^ (e + f)) := by
      rw [signedMul, zpow_add₀ two_ne_zero]
      push_cast
      ring
    rw [value] at small
    have magnitude : ((m * n : Nat) : Rat) * 2 ^ (e + f) ≤ 2 ^ k := by
      have positive : (0 : Rat) ≤ (m * n : Nat) * 2 ^ (e + f) := by positivity
      cases h : s * t <;> simpa [h, signed, abs_of_nonneg positive] using small
    obtain ⟨q, stands, nonneg, bounded⟩ :=
      roundedBounded (s * t) (Nat.mul_pos h h') reach low high magnitude
    refine ⟨signed (s * t) * q, ?_, signedBounded nonneg bounded⟩
    rw [product, known, known']
    exact stands

end

end OverlayMotion.Binary64

import Mathlib
import OverlayMotion.Number.Scalar
import OverlayMotion.Proofs.Outcome

/-! The fields of a double and what they stand for. A double is read through its form: an
infinity, the undefined value, a zero or a finite number, each but the undefined one with
a sign. Equal forms are equal doubles, and negation changes nothing but the sign. -/
namespace OverlayMotion.Binary64
open Float.Model (UnpackedFloat Format)
open Float.Model.UnpackedFloat (Sign packComponents unpackSign unpackExponent unpackMantissa pack
  unpack packedNaN)

abbrev Bits := BitVec (Format.numBits .binary64)

theorem exponentField (b : Bits) : (unpackExponent b).toNat = b.toNat / 2 ^ 52 % 2 ^ 11 := by
  simp [unpackExponent, Nat.shiftRight_eq_div_pow]

theorem mantissaField (b : Bits) : (unpackMantissa b).toNat = b.toNat % 2 ^ 52 := by
  simp [unpackMantissa]

theorem signField (b : Bits) : (unpackSign b).toNat = b.toNat / 2 ^ 63 := by
  have small : b.toNat < 2 ^ 64 := b.isLt
  simp [unpackSign, Nat.shiftRight_eq_div_pow]
  omega

theorem appendNat {n m : Nat} (x : BitVec n) (y : BitVec m) :
    (x ++ y).toNat = x.toNat * 2 ^ m + y.toNat := by
  rw [BitVec.toNat_append, ← Nat.shiftLeft_add_eq_or_of_lt y.isLt, Nat.shiftLeft_eq]

theorem componentsNat (s : Sign) (e : BitVec 11) (m : BitVec 52) :
    (packComponents .binary64 s e m).toNat =
      s.toBitVec.toNat * 2 ^ 63 + e.toNat * 2 ^ 52 + m.toNat := by
  unfold packComponents
  rw [appendNat, appendNat]
  omega

theorem signOfComponents (s : Sign) (e : BitVec 11) (m : BitVec 52) :
    unpackSign (packComponents .binary64 s e m) = s.toBitVec := by
  apply BitVec.eq_of_toNat_eq
  have he := e.isLt
  have hm := m.isLt
  rw [signField, componentsNat]
  omega

theorem signBack (s : Sign) : Sign.ofBitVec s.toBitVec = s := by
  cases s <;> rfl

theorem componentsBack (b : Bits) :
    packComponents .binary64 (.ofBitVec (unpackSign b)) (unpackExponent b) (unpackMantissa b) =
      b := by
  have sign : (Sign.ofBitVec (unpackSign b)).toBitVec = unpackSign b := by
    generalize unpackSign b = v
    revert v
    decide
  apply BitVec.eq_of_toNat_eq
  rw [componentsNat, sign, signField, exponentField, mantissaField]
  have small : b.toNat < 2 ^ 64 := b.isLt
  omega

theorem implicitNat (m : BitVec 52) : (1#1 ++ m).toNat = 2 ^ 52 + m.toNat := by
  rw [appendNat]
  rfl

theorem unpackComponents (s : Sign) (e : BitVec 11) (m : BitVec 52) :
    unpack .binary64 (packComponents .binary64 s e m) =
      if e = -1#11 then if m = 0#52 then .infinity s else .notANumber
      else if e = 0#11 then
        if h : m = 0#52 then .zero s else .finite s m.toNat (-1074)
          (by simpa [BitVec.toNat_pos, BitVec.pos_iff_ne_zero])
      else .finite s (1#1 ++ m).toNat (e.toNat - 1075)
        (by rw [implicitNat]; omega) := by
  simp only [unpack, Float.Model.UnpackedFloat.unpackMantissa_packComponents,
    Float.Model.UnpackedFloat.unpackExponent_packComponents, signOfComponents, signBack]
  split
  · rfl
  · split
    · rename_i h
      split
      · rfl
      · simp only [h]
        rfl
    · rfl

theorem negComponents (s : Sign) (e : BitVec 11) (m : BitVec 52) :
    (unpack .binary64 (packComponents .binary64 s e m)).neg =
      unpack .binary64 (packComponents .binary64 (-s) e m) := by
  rw [unpackComponents, unpackComponents]
  split
  · split <;> rfl
  · split
    · split <;> rfl
    · rfl

theorem packSubnormal (s : Sign) (m : BitVec 52) (positive : 0 < m.toNat) :
    pack .binary64 (.finite s m.toNat (-1074) positive) = packComponents .binary64 s 0 m := by
  have log : m.toNat.log2 < 52 := (Nat.log2_lt (by omega)).mpr m.isLt
  have short : ¬ m.toNat.log2 + 1 = Format.mantissaBits .binary64 := by
    rw [show Format.mantissaBits .binary64 = 53 from rfl]
    omega
  simp only [pack]
  rw [if_neg (by decide), if_neg short, BitVec.ofNat_toNat, BitVec.setWidth_eq]
  rfl

theorem packNormal (s : Sign) (e : BitVec 11) (m : BitVec 52) (nonzero : e ≠ 0#11)
    (finite : e ≠ -1#11) (positive : 0 < 2 ^ 52 + m.toNat) :
    pack .binary64 (.finite s (2 ^ 52 + m.toNat) (e.toNat - 1075) positive) =
      packComponents .binary64 s e m := by
  have hm := m.isLt
  have log : (2 ^ 52 + m.toNat).log2 + 1 = Format.mantissaBits .binary64 := by
    have log : (2 ^ 52 + m.toNat).log2 = 52 :=
      (Nat.log2_eq_iff (by omega)).mpr ⟨by omega, by omega⟩
    rw [log]
    rfl
  have low : e.toNat ≠ 0 := fun same => nonzero (BitVec.eq_of_toNat_eq same)
  have high : e.toNat ≠ 2047 := fun same => finite (BitVec.eq_of_toNat_eq same)
  have he := e.isLt
  have biased : ((e.toNat : Int) - 1075 + Format.exponentBias .binary64 + (52 : Nat)).toNat =
      e.toNat := by
    rw [show Format.exponentBias .binary64 = 1023 from rfl]
    omega
  simp only [pack, biased]
  rw [if_neg (by omega), if_pos log, BitVec.ofNat_toNat, BitVec.setWidth_eq]
  congr 1
  apply BitVec.eq_of_toNat_eq
  rw [BitVec.toNat_ofNat]
  omega

theorem packUnpack (b : Bits) (defined : unpack .binary64 b ≠ .notANumber) :
    pack .binary64 (unpack .binary64 b) = b := by
  obtain ⟨s, e, m, rfl⟩ : ∃ s e m, packComponents .binary64 s e m = b := ⟨_, _, _, componentsBack b⟩
  rw [unpackComponents] at *
  split
  · split
    · simp_all [pack, Float.Model.UnpackedFloat.packedInfinity]
    · simp_all
  · rename_i finite
    split
    · rename_i zero
      subst zero
      split
      · simp_all [pack, Float.Model.UnpackedFloat.packedZero]
      · exact packSubnormal s m _
    · rename_i nonzero
      simp only [implicitNat]
      exact packNormal s e m nonzero finite _

theorem unpackNeg (b : Bits) :
    unpack .binary64 (pack .binary64 (unpack .binary64 b).neg) = (unpack .binary64 b).neg := by
  cases h : (unpack .binary64 b).neg with
  | notANumber => rfl
  | _ =>
    have flipped := negComponents (.ofBitVec (unpackSign b)) (unpackExponent b) (unpackMantissa b)
    rw [componentsBack, h] at flipped
    rw [flipped, packUnpack _ (by rw [← flipped]; simp)]

def form (x : Float) : UnpackedFloat := x.toModel.unpack

theorem formNeg (x : Float) : form (-x) = (form x).neg := unpackNeg _

theorem undefinedFields {b : Bits} (h : unpack .binary64 b = .notANumber) :
    unpackExponent b = -1#11 ∧ unpackMantissa b ≠ 0#52 := by
  rw [← componentsBack b, unpackComponents] at h
  split at h
  · rename_i high
    split at h
    · contradiction
    · rename_i some
      exact ⟨high, some⟩
  · split at h
    · split at h <;> contradiction
    · contradiction

theorem packForm (x : Float) : pack .binary64 (form x) = x.toBits.toBitVec := by
  cases h : form x with
  | notANumber =>
    obtain ⟨high, some⟩ := undefinedFields h
    exact (x.toModel.valid.eq_packedNaN high some).symm
  | _ =>
    rw [← h]
    refine packUnpack _ fun undefined => ?_
    rw [form, Float.Model.unpack, undefined] at h
    contradiction

theorem formInjective {x y : Float} (h : form x = form y) : x = y := by
  have bits : x.toBits.toBitVec = y.toBits.toBitVec := by rw [← packForm, ← packForm, h]
  have words : x.toModel.toBits = y.toModel.toBits := UInt64.toBitVec_inj.mp bits
  obtain ⟨⟨b, hb⟩⟩ := x
  obtain ⟨⟨c, hc⟩⟩ := y
  simp only at words
  subst words
  rfl

theorem negNeg (x : Float) : - -x = x := by
  apply formInjective
  rw [formNeg, formNeg]
  cases form x with
  | notANumber => rfl
  | _ s => cases s <;> rfl

theorem bitsOfBits (bits : Nat) (small : bits < 2047 * 2 ^ 52) :
    (Float.ofBits bits.toUInt64).toBits.toNat = bits := by
  have word : bits.toUInt64.toBitVec.toNat = bits := by
    simp
    omega
  have defined : unpack .binary64 bits.toUInt64.toBitVec ≠ .notANumber := by
    intro undefined
    have high := congrArg BitVec.toNat (undefinedFields undefined).1
    rw [exponentField, word] at high
    simp at high
    omega
  have kept := packUnpack _ defined
  simp only [Float.ofBits, Float.toBits, Float.Model.ofBits, Float.Model.pack]
  rw [kept]
  exact word

theorem signNegative (v : BitVec 1) : (Sign.ofBitVec v == .negative) = decide (v.toNat = 1) := by
  revert v
  decide

theorem decodeFields (x : Float) (b : Bits) (same : x.toBits.toBitVec = b) :
    decode x =
      let negative := Sign.ofBitVec (unpackSign b) == .negative
      let e := (unpackExponent b).toNat
      let m := (unpackMantissa b).toNat
      if e = 2047 then none
      else if e = 0 then some ⟨negative, m, -1074⟩
      else some ⟨negative, 2 ^ 52 + m, e - 1075⟩ := by
  have nat : x.toBits.toNat = b.toNat := congrArg BitVec.toNat same
  have small : b.toNat < 2 ^ 64 := b.isLt
  have negative : (Sign.ofBitVec (unpackSign b) == .negative) = decide (2 ^ 63 ≤ b.toNat) := by
    rw [signNegative, signField]
    exact decide_eq_decide.mpr (by omega)
  simp only [decode, nat, exponentField, mantissaField, negative, Int.ofNat_eq_natCast,
    Nat.pow_eq]

theorem decodeForm (x : Float) :
    decode x = match form x with
      | .infinity _ | .notANumber => none
      | .zero s => some ⟨s == .negative, 0, -1074⟩
      | .finite s m e _ => some ⟨s == .negative, m, e⟩ := by
  obtain ⟨b, same⟩ : ∃ b : Bits, x.toBits.toBitVec = b := ⟨_, rfl⟩
  have fields := unpackComponents (.ofBitVec (unpackSign b)) (unpackExponent b) (unpackMantissa b)
  rw [componentsBack] at fields
  have unpacked : form x = unpack .binary64 b := by
    rw [← same]
    rfl
  rw [unpacked, fields, decodeFields x b same]
  generalize unpackExponent b = e
  generalize unpackMantissa b = m
  have high : e.toNat = 2047 ↔ e = -1#11 :=
    ⟨fun h => BitVec.eq_of_toNat_eq h, fun h => congrArg BitVec.toNat h⟩
  have low : e.toNat = 0 ↔ e = 0#11 :=
    ⟨fun h => BitVec.eq_of_toNat_eq h, fun h => congrArg BitVec.toNat h⟩
  simp only [high, low]
  by_cases infinite : e = -1#11
  · rw [if_pos infinite, if_pos infinite]
    by_cases none : m = 0#52
    · rw [if_pos none]
    · rw [if_neg none]
  · rw [if_neg infinite, if_neg infinite]
    by_cases tiny : e = 0#11
    · rw [if_pos tiny, if_pos tiny]
      by_cases none : m = 0#52
      · rw [dif_pos none, none]
        rfl
      · rw [dif_neg none]
    · rw [if_neg tiny, if_neg tiny]
      simp only [implicitNat]

theorem decodeNeg (x : Float) :
    decode (-x) = (decode x).map fun d => { d with negative := !d.negative } := by
  rw [decodeForm, decodeForm, formNeg]
  cases form x with
  | notANumber => rfl
  | infinity s => rfl
  | zero s => cases s <;> rfl
  | finite s m e h => cases s <;> rfl

theorem toRatNeg (d : Decoded) :
    Decoded.toRat { d with negative := !d.negative } = -d.toRat := by
  simp only [Decoded.toRat, Decoded.ratio, Rat.neg_mkRat]
  cases d.negative <;> simp

theorem toRatNonneg {d : Decoded} (h : d.negative = false ∨ d.significand = 0) : 0 ≤ d.toRat := by
  simp only [Decoded.toRat]
  apply Rat.mkRat_nonneg
  rcases h with positive | zero
  · rw [positive]
    exact Int.natCast_nonneg _
  · have none : d.ratio.1 = 0 := by
      unfold Decoded.ratio
      split <;> simp [zero]
    rw [none]
    split <;> simp

theorem nearestBitsSmall {num den bits : Nat} (h : nearestBits num den = some bits) :
    bits < 2047 * 2 ^ 52 := by
  unfold nearestBits at h
  split at h
  · cases h
    decide
  · simp only [Option.ite_none_right_eq_some] at h
    obtain ⟨small, last⟩ := h
    cases last
    exact small

theorem decodeSign {x : Float} {d : Decoded} (h : decode x = some d) :
    d.negative = decide (2 ^ 63 ≤ x.toBits.toNat) := by
  simp only [decode] at h
  split at h
  · contradiction
  · split at h <;> cases h <;> rfl

theorem ofIntSign {n : Int} {x : Float} {d : Decoded} (h : ofInt? n = some x) (nonneg : 0 ≤ n)
    (decoded : decode x = some d) : d.negative = false := by
  simp only [ofInt?, nearest?, Option.map_eq_some_iff] at h
  obtain ⟨bits, hb, rfl⟩ := h
  have small := nearestBitsSmall hb
  have plus : decide (n < 0) = false := decide_eq_false (by omega)
  rw [plus] at decoded
  rw [decodeSign decoded, withSign, if_neg (by decide), bitsOfBits bits small]
  exact decide_eq_false (by omega)

theorem compareIntSign {d : Decoded} (h : (Scalar.compareInt 0 d).isLE) :
    d.negative = false ∨ d.significand = 0 := by
  cases hd : d.negative with
  | false => exact .inl rfl
  | true =>
    right
    simp only [Scalar.compareInt, hd, if_true] at h
    split at h
    · rw [Std.LawfulOrderOrd.isLE_compare, Int.neg_mul] at h
      by_contra some
      have scale : 0 < Nat.pow 2 d.exponent.toNat := Nat.pow_pos (by decide)
      have positive : 0 < (d.significand : Int) * Nat.pow 2 d.exponent.toNat :=
        Int.mul_pos (by omega) (by omega)
      linarith
    · rw [Std.LawfulOrderOrd.isLE_compare] at h
      omega

theorem formZero (s : Sign) : form (.ofModel (.pack (.zero s))) = .zero s := by
  cases s <;> rfl

theorem isZeroForm (x : Float) : x == 0 ↔ ∃ s, form x = .zero s := by
  have compared : (x == 0) = ((form x).compare (form 0) == some .eq) := rfl
  have zero : form 0 = .zero .positive := rfl
  rw [compared, zero]
  cases h : form x with
  | notANumber => simp [UnpackedFloat.compare]
  | infinity s => cases s <;> simp [UnpackedFloat.compare]
  | zero s => simp [UnpackedFloat.compare]
  | finite s m e positive => cases s <;> simp [UnpackedFloat.compare]

def Alike (x y : Float) : Prop := x = y ∨ x == 0 ∧ y == 0

def Near (u v : UnpackedFloat) : Prop := u = v ∨ ∃ s t, u = .zero s ∧ v = .zero t

theorem alikeNear {x y : Float} : Alike x y ↔ Near (form x) (form y) := by
  unfold Alike Near
  rw [isZeroForm, isZeroForm]
  constructor
  · rintro (rfl | ⟨⟨s, hs⟩, t, ht⟩)
    · exact .inl rfl
    · exact .inr ⟨s, t, hs, ht⟩
  · rintro (same | ⟨s, t, hs, ht⟩)
    · exact .inl (formInjective same)
    · exact .inr ⟨⟨s, hs⟩, t, ht⟩

theorem nearPacked {u v : UnpackedFloat} (h : Near u v) :
    Alike (.ofModel (.pack u)) (.ofModel (.pack v)) := by
  rcases h with rfl | ⟨s, t, rfl, rfl⟩
  · exact .inl rfl
  · rw [alikeNear, formZero, formZero]
    exact .inr ⟨s, t, rfl, rfl⟩

end OverlayMotion.Binary64

import OverlayMotion.Proofs.Order

/-! Numbers on the line with an infinity at either end. Every number but an undefined one has
a rank there, and comparisons compare ranks, so a comparison that fails is the opposite one
for two numbers that have one. A sum of two doubles that are not below zero is undefined only
if one of them is; otherwise rounding and overflow leave it no lower than either. -/
namespace OverlayMotion

abbrev Extended := WithBotTop Rat

namespace Binary64
open Float.Model (UnpackedFloat)
open Float.Model.UnpackedFloat (Sign roundWithAccuracy)

def rank (x : Float) : Option Extended :=
  match form x with
  | .notANumber => none
  | .infinity .positive => some ⊤
  | .infinity .negative => some ⊥
  | .zero _ => some (.coe 0)
  | .finite s m e _ => some (.coe (signed s * (m * 2 ^ e)))

theorem rankStands {x : Float} {q : Rat} (stands : Stands x q) : rank x = some (.coe q) := by
  rcases standsCases stands with ⟨s, known, rfl⟩ | ⟨s, m, e, h, known, rfl⟩ <;>
    simp only [rank, known]

theorem located (x : Float) :
    form x = .notANumber ∨ (∃ s, form x = .infinity s) ∨ ∃ q, Stands x q := by
  cases known : form x with
  | notANumber => exact .inl rfl
  | infinity s => exact .inr (.inl ⟨s, rfl⟩)
  | zero s => exact .inr (.inr ⟨0, standsZero known⟩)
  | finite s m e h => exact .inr (.inr ⟨_, standsForm known⟩)

theorem rankNone {x : Float} : rank x = none ↔ form x = .notANumber := by
  rw [rank]
  cases form x with
  | infinity s => cases s <;> simp
  | _ => simp

theorem compareEmbedded (p q : Rat) : compare (p : Extended) q = compare p q := by
  rw [← cmp_eq_compare, ← cmp_eq_compare]
  exact WithBotTop.coe_strictMono.cmp_map_eq p q

theorem compareBeyond {x : Float} {q : Rat} (stands : Stands x q) :
    (UnpackedFloat.infinity .positive).compare (form x) = some (compare ⊤ (q : Extended)) ∧
      (UnpackedFloat.infinity .negative).compare (form x) = some (compare ⊥ (q : Extended)) ∧
      (form x).compare (.infinity .positive) = some (compare (q : Extended) ⊤) ∧
      (form x).compare (.infinity .negative) = some (compare (q : Extended) ⊥) := by
  have above : (q : Extended) < ⊤ := lt_top_iff_ne_top.mpr (WithBotTop.coe_ne_top q)
  have below : ⊥ < (q : Extended) := bot_lt_iff_ne_bot.mpr (WithBotTop.coe_ne_bot q)
  rw [compare_gt_iff_gt.mpr above, compare_lt_iff_lt.mpr below, compare_lt_iff_lt.mpr above,
    compare_gt_iff_gt.mpr below]
  rcases standsCases stands with ⟨s, known, _⟩ | ⟨s, m, e, h, known, _⟩ <;>
    rw [known] <;>
    exact ⟨rfl, rfl, rfl, rfl⟩

theorem compareForms (x y : Float) :
    (form x).compare (form y) = do return compare (← rank x) (← rank y) := by
  rcases located x with hx | ⟨s, hx⟩ | ⟨p, hx⟩
  · rw [rank, hx]
    rfl
  · rcases located y with hy | ⟨t, hy⟩ | ⟨q, hy⟩
    · rw [rank, rank, hx, hy]
      cases s <;> rfl
    · rw [rank, rank, hx, hy]
      cases s <;> cases t <;> decide +kernel
    · have beyond := compareBeyond hy
      rw [rankStands hy, rank, hx]
      cases s with
      | positive => exact beyond.1
      | negative => exact beyond.2.1
  · rcases located y with hy | ⟨t, hy⟩ | ⟨q, hy⟩
    · rw [rankStands hx, rank, hy]
      rcases standsCases hx with ⟨s, known, _⟩ | ⟨s, m, e, h, known, _⟩ <;>
        rw [known] <;>
        rfl
    · have beyond := compareBeyond hx
      rw [rankStands hx, rank, hy]
      cases t with
      | positive => exact beyond.2.2.1
      | negative => exact beyond.2.2.2
    · rw [compareStands hx hy, rankStands hx, rankStands hy, ← compareEmbedded]
      rfl

theorem signBitInfinity {x : Float} {s : Sign} (known : form x = .infinity s) :
    signBit x = (s == .negative) := by
  rw [formInjective (known.trans (formInfinity s).symm)]
  cases s <;> decide +kernel

theorem compareCast (a b : Int) : compare a b = compare (a : Rat) b := by
  rw [← cmp_eq_compare, ← cmp_eq_compare]
  exact (Int.cast_strictMono.cmp_map_eq a b).symm

theorem compareIntStands (n : Int) (d : Decoded) :
    Scalar.compareInt n d = compare (n : Rat) d.toRat := by
  obtain ⟨negative, m, e⟩ := d
  obtain ⟨s, rfl⟩ : ∃ s : Sign, negative = (s == .negative) := by
    cases negative
    · exact ⟨.positive, rfl⟩
    · exact ⟨.negative, rfl⟩
  have whole : ((if (s == .negative) = true then -(m : Int) else m : Int) : Rat) = signed s * m := by
    cases s <;> simp [signed]
  rw [toRatSigned]
  simp only [Scalar.compareInt, compareCast]
  rcases le_or_gt 0 e with above | below
  · obtain ⟨k, rfl⟩ := Int.eq_ofNat_of_zero_le above
    rw [if_pos above, Int.cast_mul, whole, mul_assoc]
    simp
  · obtain ⟨k, same⟩ := Int.eq_ofNat_of_zero_le (neg_nonneg.mpr below.le)
    obtain rfl : e = -(k : Int) := by omega
    have scale : (0 : Rat) < 2 ^ k := by positivity
    have back : signed s * m = signed s * (m * 2 ^ (-(k : Int))) * 2 ^ k := by
      rw [zpow_neg, zpow_natCast]
      field_simp
    have multiplied : ((n * Nat.pow 2 (-(-(k : Int))).toNat : Int) : Rat) = n * 2 ^ k := by
      simp
    rw [if_neg below.not_ge, multiplied, whole, back, ← cmp_eq_compare, ← cmp_eq_compare]
    exact cmp_mul_pos_right scale _ _

theorem gridPointAbove {m n : Nat} {e t : Int} (canonical : Canonical m e) (positive : 0 < n)
    (reach : t ≤ gridExponent n t) (below : (m : Rat) * 2 ^ e ≤ n * 2 ^ t) :
    (m : Rat) * 2 ^ e ≤ gridPoint n t * 2 ^ gridExponent n t := by
  rcases le_or_gt (gridExponent n t) e with coarse | fine
  -- On a finer grid than its own the double is a point.
  · obtain ⟨l, hl⟩ := Int.eq_ofNat_of_zero_le (sub_nonneg.mpr reach)
    obtain ⟨k, hk⟩ := Int.eq_ofNat_of_zero_le (sub_nonneg.mpr coarse)
    have point : m * 2 ^ k ≤ gridPoint n t := by
      refine leRoundHalfEven (Nat.two_pow_pos _) ?_
      have steps : e = t + (k + l : Nat) := by
        push_cast
        omega
      rw [steps, zpow_add₀ two_ne_zero, zpow_natCast, mul_left_comm, mul_comm (n : Rat)] at below
      have cast := le_of_mul_le_mul_left below (by positivity)
      rw [hl, Int.toNat_natCast, Nat.mul_assoc, ← Nat.pow_add]
      exact_mod_cast cast
    calc (m : Rat) * 2 ^ e = (m * 2 ^ k : Nat) * 2 ^ gridExponent n t := by
          push_cast
          rw [mul_assoc, ← zpow_natCast, ← zpow_add₀ two_ne_zero]
          congr 2
          omega
      _ ≤ gridPoint n t * 2 ^ gridExponent n t :=
          mul_le_mul_of_nonneg_right (by exact_mod_cast point) (by positivity)
  -- On a coarser one every point of full length is above it.
  · have := canonical.fine
    exact (longerAbove canonical.short (gridPointFull positive reach (by omega)) fine).le

theorem roundedAbove {m n : Nat} {e t : Int} (canonical : Canonical m e) (positive : 0 < n)
    (reach : t ≤ gridExponent n t) (below : (m : Rat) * 2 ^ e ≤ n * 2 ^ t) :
    ∃ p, rank (.ofModel (.pack (roundWithAccuracy .binary64 .positive n t .exact))) = some p ∧
      ((m * 2 ^ e : Rat) : Extended) ≤ p := by
  have point := gridPointAbove canonical positive reach below
  rw [roundedSettles .positive reach]
  obtain ⟨none, lands⟩ | ⟨r, t, h, lands, canonical, same⟩ := settledCases .positive
    (gridPointShort reach) (gridFine n t) (gridPointFull positive reach)
  · rw [lands]
    refine ⟨_, rankStands (standsZero (formZero .positive)), ?_⟩
    rw [none, Nat.cast_zero, zero_mul] at point
    exact WithBotTop.coe_le_coe.mpr point
  · rw [lands]
    rcases le_or_gt t 971 with low | high
    · refine ⟨_, rankStands (standsForm (formPacked .positive h canonical low)), ?_⟩
      rw [← same] at point
      exact WithBotTop.coe_le_coe.mpr (point.trans_eq (one_mul _).symm)
    · exact ⟨⊤, by rw [rank, formBeyond .positive h high], le_top⟩

theorem normalizeAbove {m : Nat} {e t : Int} {n : Int} (canonical : Canonical m e)
    (below : (m : Rat) * 2 ^ e ≤ n * 2 ^ t) :
    ∃ r, rank (.ofModel (.pack (UnpackedFloat.normalize .binary64 n t .positive))) = some r ∧
      ((m * 2 ^ e : Rat) : Extended) ≤ r := by
  have scale : (0 : Rat) < 2 ^ t := by positivity
  have nonneg : (0 : Rat) ≤ n := by
    have least : (0 : Rat) ≤ m * 2 ^ e := by positivity
    exact nonneg_of_mul_nonneg_left (least.trans below) scale
  obtain ⟨n, rfl⟩ := Int.eq_ofNat_of_zero_le (Int.cast_nonneg_iff.mp nonneg)
  unfold UnpackedFloat.normalize
  rcases Nat.eq_zero_or_pos n with rfl | positive
  · rw [Int.compare_eq_eq.mpr Int.natCast_zero]
    refine ⟨_, rankStands (standsZero (formZero .positive)), WithBotTop.coe_le_coe.mpr ?_⟩
    rwa [Int.natCast_zero, Int.cast_zero, zero_mul] at below
  · obtain ⟨k, u, some, reach, same, rounded⟩ := roundReaches .positive t positive
    rw [Int.compare_eq_gt.mpr (Int.natCast_pos.mpr positive)]
    simp only [Int.toNat_natCast, rounded]
    exact roundedAbove canonical some reach (below.trans_eq same.symm)

theorem canonicalStands {x : Float} {p : Rat} (stands : Stands x p) (low : 0 ≤ p) :
    ∃ m e, Canonical m e ∧ p = m * 2 ^ e := by
  rcases standsCases stands with ⟨s, known, rfl⟩ | ⟨s, m, e, h, known, rfl⟩
  · exact ⟨0, -1074, ⟨by decide, le_rfl, .inr rfl⟩, by simp⟩
  · refine ⟨m, e, (canonicalForm known).1, ?_⟩
    have positive : (0 : Rat) < m * 2 ^ e := mul_pos (by exact_mod_cast h) (by positivity)
    cases s with
    | positive => exact one_mul _
    | negative => exact absurd low (by simp only [signed]; linarith)

theorem addAbove {x y : Float} {p q : Rat} (hx : Stands x p) (hy : Stands y q) (low : 0 ≤ p)
    (low' : 0 ≤ q) : ∃ r, rank (x + y) = some r ∧ (p : Extended) ≤ r := by
  have above : p ≤ p + q := le_add_of_nonneg_right low'
  rcases sumCases hx hy with stands | ⟨m, e, value, sum⟩
  · exact ⟨_, rankStands stands, WithBotTop.coe_le_coe.mpr above⟩
  · obtain ⟨n, f, canonical, rfl⟩ := canonicalStands hx low
    rw [sum]
    exact normalizeAbove canonical (above.trans_eq value.symm)

theorem rankAbove {x : Float} {p : Extended} (hx : rank x = some p) (low : .coe 0 ≤ p) :
    form x = .infinity .positive ∧ p = ⊤ ∨ ∃ q, Stands x q ∧ p = .coe q ∧ 0 ≤ q := by
  rcases located x with known | ⟨s, known⟩ | ⟨q, stands⟩
  · rw [rank, known] at hx
    contradiction
  · rw [rank, known] at hx
    cases s with
    | positive => exact .inl ⟨known, (Option.some.inj hx).symm⟩
    | negative =>
      obtain rfl := Option.some.inj hx
      exact absurd (le_bot_iff.mp low) (WithBotTop.coe_ne_bot 0)
  · rw [rankStands stands] at hx
    obtain rfl := Option.some.inj hx
    exact .inr ⟨q, stands, rfl, WithBotTop.coe_le_coe.mp low⟩

theorem sumRank {x y : Float} {p q : Extended} (hx : rank x = some p) (hy : rank y = some q)
    (low : .coe 0 ≤ p) (low' : .coe 0 ≤ q) : ∃ r, rank (x + y) = some r ∧ p ≤ r := by
  have sum : x + y = .ofModel (.pack (UnpackedFloat.add .binary64 (form x) (form y))) := rfl
  have infinite (h : UnpackedFloat.add .binary64 (form x) (form y) = .infinity .positive) :
      ∃ r, rank (x + y) = some r ∧ p ≤ r := by
    refine ⟨⊤, ?_, le_top⟩
    rw [sum, h, rank, formInfinity]
  rcases rankAbove hx low with ⟨known, _⟩ | ⟨q, stands, rfl, nonneg⟩ <;>
    rcases rankAbove hy low' with ⟨known', _⟩ | ⟨q', stands', _, nonneg'⟩
  · exact infinite (by rw [known, known']; rfl)
  · refine infinite ?_
    rw [known]
    rcases standsCases stands' with ⟨s, known', _⟩ | ⟨s, m, e, h, known', _⟩ <;>
      rw [known'] <;>
      rfl
  · refine infinite ?_
    rw [known']
    rcases standsCases stands with ⟨s, known, _⟩ | ⟨s, m, e, h, known, _⟩ <;>
      rw [known] <;>
      rfl
  · exact addAbove stands stands' nonneg nonneg'

theorem sumUndefined {x y : Float} (undefined : rank x = none ∨ rank y = none) :
    rank (x + y) = none := by
  have sum : x + y = .ofModel (.pack (UnpackedFloat.add .binary64 (form x) (form y))) := rfl
  have none : UnpackedFloat.add .binary64 (form x) (form y) = .notANumber := by
    rcases undefined with hx | hy
    · rw [rankNone.mp hx]
      rfl
    · rw [rankNone.mp hy]
      cases form x <;> rfl
  rw [sum, none]
  rfl

end Binary64

namespace Scalar
open Binary64 (form located Stands rankStands compareForms)
open Float.Model (UnpackedFloat)

def rank : Scalar → Option Extended
  | int n => some (.coe n)
  | float x => Binary64.rank x

theorem compareBeside (n : Int) (x : Float) :
    compare? (int n) (float x) = do return compare (.coe n) (← Binary64.rank x) := by
  rw [compare?, Binary64.decodeForm]
  rcases located x with hx | ⟨s, hx⟩ | ⟨q, d, decoded, rfl⟩
  · have undefined : x.isNaN = true := congrArg UnpackedFloat.isNaN hx
    rw [Binary64.rank, hx, undefined]
    rfl
  · have defined : x.isNaN = false := congrArg UnpackedFloat.isNaN hx
    have above : ((n : Rat) : Extended) < ⊤ := lt_top_iff_ne_top.mpr (WithBotTop.coe_ne_top _)
    have below : ⊥ < ((n : Rat) : Extended) := bot_lt_iff_ne_bot.mpr (WithBotTop.coe_ne_bot _)
    rw [Binary64.rank, hx]
    simp only [defined, Binary64.signBitInfinity hx]
    cases s with
    | positive => exact congrArg some (compare_lt_iff_lt.mpr above).symm
    | negative => exact congrArg some (compare_gt_iff_gt.mpr below).symm
  · rw [← Binary64.decodeForm, decoded, rankStands ⟨d, decoded, rfl⟩]
    simp only [Binary64.compareIntStands, ← Binary64.compareEmbedded]
    rfl

theorem compareRanks (a b : Scalar) :
    compare? a b = do return compare (← a.rank) (← b.rank) := by
  cases a with
  | int m =>
    cases b with
    | int n =>
      rw [compare?, Binary64.compareCast, ← Binary64.compareEmbedded]
      rfl
    | float y => exact compareBeside m y
  | float x =>
    cases b with
    | int n =>
      have swapped : compare? (float x) (int n) = (compare? (int n) (float x)).map Ordering.swap := by
        simp only [compare?]
        split
        · rfl
        · split_ifs <;> rfl
      rw [swapped, compareBeside, rank, rank]
      cases Binary64.rank x with
      | none => rfl
      | some p =>
        refine congrArg some ?_
        rw [← cmp_eq_compare, ← cmp_eq_compare]
        exact cmp_swap _ _
    | float y =>
      have forms := compareForms x y
      have back := compareForms y x
      have equal : (x == y) = ((form x).compare (form y) == some .eq) := rfl
      simp only [compare?, Binary64.ltForm, equal, forms, back, rank]
      cases Binary64.rank x <;> cases Binary64.rank y <;> try rfl
      rename_i p q
      rcases lt_trichotomy p q with less | rfl | more
      · simp [compare_lt_iff_lt.mpr less]
      · simp
      · simp [compare_lt_iff_lt.mpr more, compare_gt_iff_gt.mpr more]

def Defined : Scalar → Prop
  | int _ => True
  | float x => x.isNaN = false

instance : DecidablePred Defined
  | int _ => isTrue trivial
  | float x => inferInstanceAs (Decidable (x.isNaN = false))

theorem definedRank {v : Scalar} : v.Defined ↔ ∃ p, v.rank = some p := by
  cases v with
  | int n => exact ⟨fun _ => ⟨_, rfl⟩, fun _ => trivial⟩
  | float x =>
    have undefined : x.isNaN = (form x).isNaN := rfl
    have known : (form x).isNaN = true ↔ Binary64.rank x = none := by
      rw [Binary64.rankNone]
      cases form x <;> simp [UnpackedFloat.isNaN]
    rw [Defined, undefined, ← Option.ne_none_iff_exists', rank, ne_eq, ← known, Bool.not_eq_true]

section
variable {a b c : Scalar}

theorem ltRank : Number.lt a b ↔ ∃ p q, a.rank = some p ∧ b.rank = some q ∧ p < q := by
  have unfolded : Number.lt a b = (compare? a b == some .lt) := rfl
  rw [unfolded, compareRanks]
  cases a.rank <;> cases b.rank <;> simp [compare_lt_iff_lt]

theorem leRank : Number.le a b ↔ ∃ p q, a.rank = some p ∧ b.rank = some q ∧ p ≤ q := by
  have unfolded : Number.le a b = (compare? a b).any Ordering.isLE := by
    simp only [Number.le]
    cases compare? a b <;> rfl
  rw [unfolded, compareRanks]
  cases a.rank <;> cases b.rank <;> simp [Ordering.isLE_iff_ne_gt, compare_gt_iff_gt]

theorem leDefined (below : Number.le a b) : a.Defined ∧ b.Defined := by
  obtain ⟨p, q, hp, hq, _⟩ := leRank.mp below
  exact ⟨definedRank.mpr ⟨p, hp⟩, definedRank.mpr ⟨q, hq⟩⟩

theorem leUnlessAbove (above : Number.lt b a = false) :
    Number.le a b ↔ a.Defined ∧ b.Defined := by
  refine ⟨leDefined, ?_⟩
  rintro ⟨ha, hb⟩
  obtain ⟨p, hp⟩ := definedRank.mp ha
  obtain ⟨q, hq⟩ := definedRank.mp hb
  refine leRank.mpr ⟨p, q, hp, hq, not_lt.mp fun less => ?_⟩
  exact Bool.eq_false_iff.mp above (ltRank.mpr ⟨q, p, hq, hp, less⟩)

theorem ltUnlessAbove (above : Number.le b a = false) :
    Number.lt a b ↔ a.Defined ∧ b.Defined := by
  constructor
  · intro below
    obtain ⟨p, q, hp, hq, _⟩ := ltRank.mp below
    exact ⟨definedRank.mpr ⟨p, hp⟩, definedRank.mpr ⟨q, hq⟩⟩
  · rintro ⟨ha, hb⟩
    obtain ⟨p, hp⟩ := definedRank.mp ha
    obtain ⟨q, hq⟩ := definedRank.mp hb
    refine ltRank.mpr ⟨p, q, hp, hq, not_le.mp fun less => ?_⟩
    exact Bool.eq_false_iff.mp above (leRank.mpr ⟨q, p, hq, hp, less⟩)

theorem leSelf : Number.le a a ↔ a.Defined := by
  rw [leRank, definedRank]
  constructor
  · rintro ⟨p, _, hp, _⟩
    exact ⟨p, hp⟩
  · rintro ⟨p, hp⟩
    exact ⟨p, p, hp, hp, le_rfl⟩

theorem leTrans (below : Number.le a b) (above : Number.le b c) : Number.le a c := by
  obtain ⟨p, q, hp, hq, low⟩ := leRank.mp below
  obtain ⟨q', r, hq', hr, high⟩ := leRank.mp above
  obtain rfl := Option.some.inj (hq.symm.trans hq')
  exact leRank.mpr ⟨p, r, hp, hr, low.trans high⟩

end

theorem leSum {x y : Float} (hx : Number.le Number.zero (float x))
    (hy : Number.le Number.zero (float y)) : Number.le (float x) (float (x + y)) := by
  obtain ⟨_, p, naught, hp, low⟩ := leRank.mp hx
  obtain ⟨_, q, naught', hq, low'⟩ := leRank.mp hy
  obtain rfl := Option.some.inj naught
  obtain rfl := Option.some.inj naught'
  obtain ⟨r, hr, above⟩ := Binary64.sumRank hp hq low low'
  exact leRank.mpr ⟨p, r, hp, hr, above⟩

theorem definedSum {x y : Float} (h : (float (x + y)).Defined) :
    (float x).Defined ∧ (float y).Defined := by
  obtain ⟨r, hr⟩ := definedRank.mp h
  constructor <;> refine definedRank.mpr (Option.ne_none_iff_exists'.mp fun undefined => ?_)
  · exact absurd (Binary64.sumUndefined (.inl undefined)) (hr ▸ Option.some_ne_none r)
  · exact absurd (Binary64.sumUndefined (.inr undefined)) (hr ▸ Option.some_ne_none r)

end Scalar

end OverlayMotion

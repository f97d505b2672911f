import OverlayMotion.Proofs.NearestDouble
import OverlayMotion.Proofs.RoundTrip

/-! Number text as a projection. What a double is written as denotes the nearest whole number of
units of the ninth decimal; written again, the number that the text denotes has the same text,
whether it is taken as it is or read as a double first. A double is read that is no farther from
the units than the one they were rounded from, and so it rounds to the same ones. -/
namespace OverlayMotion

namespace Decimal
open Binary64 (Stands roundHalfEven)

inductive Fraction (places : Nat) : List Char → Prop
  | none : Fraction places []
  | pointed {ds} (run : Run ds) (few : ds.length ≤ places) (last : ds.getLast? ≠ some '0') :
      Fraction places ('.' :: ds)

def NumberShape (cs : List Char) : Prop :=
  cs ≠ ['-', '0'] ∧ ∃ sign whole fraction, cs = sign ++ whole ++ fraction ∧
    (sign = [] ∨ sign = ['-']) ∧ Run whole ∧ Fraction 9 fraction

theorem keptLast (ds : List Char) : (dropTrailingZeros ds).getLast? ≠ some '0' := by
  rw [dropTrailingZeros, List.getLast?_reverse]
  intro zero
  have other := List.head?_dropWhile_not (· = '0') ds.reverse
  rw [zero] at other
  simp at other

theorem compactShape {places : Nat} (some : 0 < places) (num den : Nat) : ∃ whole fraction,
    compact places num den = whole ++ fraction ∧ Run whole ∧ Fraction places fraction := by
  simp only [compact, fixedParts, Nat.pow_eq]
  generalize roundHalfEven (num * 10 ^ places) den = scaled
  have length : (padded places (scaled % 10 ^ places)).length = places :=
    paddedLength some (Nat.mod_lt _ (Nat.pow_pos (by decide)))
  have all : ∀ c ∈ padded places (scaled % 10 ^ places), c.isDigit := fun c => paddedDigits
  generalize padded places (scaled % 10 ^ places) = shown at *
  split
  · exact ⟨digits (scaled / 10 ^ places), [], by simp, digitsRun _, .none⟩
  · rename_i some
    refine ⟨_, _, rfl, digitsRun _, .pointed ⟨some, fun c inside => ?_⟩ ?_ (keptLast _)⟩
    · exact all c (keptDigits inside)
    · rw [dropTrailingZeros, List.length_reverse, ← length, ← @List.length_reverse _ shown]
      exact (List.dropWhile_sublist _).length_le

theorem nineDecimalsShaped (q : Rat) : NumberShape (nineDecimals q) := by
  obtain ⟨whole, fraction, parts, run, rest⟩ :=
    @compactShape 9 (by decide) q.num.natAbs q.den
  have unsigned : compact 9 q.num.natAbs q.den ≠ ['-', '0'] :=
    (compactPlain 9 q.num.natAbs q.den).unsigned
  unfold nineDecimals
  simp only
  split
  · rename_i signed
    refine ⟨fun same => signed.2 (List.cons.inj same).2, ['-'], whole, fraction, ?_, .inr rfl, run,
      rest⟩
    rw [parts]
    rfl
  · exact ⟨unsigned, [], whole, fraction, parts, .inl rfl, run, rest⟩

def units (q : Rat) : Nat := roundHalfEven (q.num.natAbs * 10 ^ 9) q.den

def unsignedWorth (cs : List Char) : Rat := (numeral cs).1 * 10 ^ (numeral cs).2

def worth : List Char → Rat
  | '-' :: cs => -unsignedWorth cs
  | cs => unsignedWorth cs

theorem scaledRatio (q : Rat) :
    ((q.num.natAbs * 10 ^ 9 : Nat) : Rat) / q.den = |q| * 10 ^ 9 := by
  have den0 : (q.den : Rat) ≠ 0 := by exact_mod_cast q.den_nz
  rw [Nat.cast_mul, ← magnitudeRatio, Nat.cast_pow, Nat.cast_ofNat]
  field_simp

theorem unitsCloser {q r : Rat}
    (closer : |(|r| * 10 ^ 9 - units q)| ≤ |(|q| * 10 ^ 9 - units q)|) : units r = units q := by
  refine Binary64.roundHalfEvenCloser q.den_pos r.den_pos ?_
  rw [scaledRatio, scaledRatio]
  exact closer

theorem compactZero : compact 9 (0 : Rat).num.natAbs (0 : Rat).den = ['0'] := by decide

theorem compactOfRounded {places num den num' den' : Nat}
    (same : roundHalfEven (num' * 10 ^ places) den' = roundHalfEven (num * 10 ^ places) den) :
    compact places num' den' = compact places num den := by
  simp only [compact, fixedParts, Nat.pow_eq, same]

theorem nineDecimalsAlike {q r : Rat} (same : units r = units q) (below : q ≤ 0 → r ≤ 0)
    (above : 0 ≤ q → 0 ≤ r) : nineDecimals r = nineDecimals q := by
  have text : compact 9 r.num.natAbs r.den = compact 9 q.num.natAbs q.den := compactOfRounded same
  have sign : (r < 0 ∧ compact 9 q.num.natAbs q.den ≠ ['0']) ↔
      q < 0 ∧ compact 9 q.num.natAbs q.den ≠ ['0'] := by
    refine and_congr_left fun nonzero => ⟨fun negative => ?_, fun negative => ?_⟩
    · exact not_le.mp fun nonneg => (above nonneg).not_gt negative
    · refine (below negative.le).lt_of_ne ?_
      rintro rfl
      exact nonzero (text.symm.trans compactZero)
  simp only [nineDecimals, text, sign]

theorem compactDenotes (q : Rat) :
    unsignedWorth (compact 9 q.num.natAbs q.den) = units q / 10 ^ 9 := by
  obtain ⟨n, places, -, written, value⟩ := compactUnits q.num.natAbs q.den
  rw [unsignedWorth, written, zpow_neg, zpow_natCast, ← div_eq_mul_inv, value, units]

theorem Plain.worth {cs : List Char} (plain : Plain cs) : worth cs = unsignedWorth cs := by
  unfold Decimal.worth
  split
  · exact absurd rfl plain.unsigned
  · rfl

theorem nineDecimalsSigned (q : Rat) :
    (q < 0 ∧ nineDecimals q = '-' :: compact 9 q.num.natAbs q.den ∧
      worth (nineDecimals q) = -(units q / 10 ^ 9)) ∨
    ((q < 0 → units q = 0) ∧ nineDecimals q = compact 9 q.num.natAbs q.den ∧
      worth (nineDecimals q) = units q / 10 ^ 9) := by
  have plain := compactPlain 9 q.num.natAbs q.den
  have value := compactDenotes q
  by_cases signed : q < 0 ∧ compact 9 q.num.natAbs q.den ≠ ['0']
  · have text : nineDecimals q = '-' :: compact 9 q.num.natAbs q.den := if_pos signed
    exact .inl ⟨signed.1, text, by rw [text, worth, value]⟩
  · have text : nineDecimals q = compact 9 q.num.natAbs q.den := if_neg signed
    refine .inr ⟨fun negative => ?_, text, by rw [text, plain.worth, value]⟩
    have zero : compact 9 q.num.natAbs q.den = ['0'] := by
      by_contra other
      exact signed ⟨negative, other⟩
    rw [zero] at value
    have none : unsignedWorth ['0'] = 0 := by
      have read : numeral ['0'] = (0, 0) := by decide
      rw [unsignedWorth, read, Nat.cast_zero, zero_mul]
    rw [none] at value
    have : (units q : Rat) = 0 := by linarith
    exact_mod_cast this

theorem denotedWorth (q : Rat) :
    letI := wholePowers
    Expr.denoted q = worth (nineDecimals q) := by
  let _ := wholePowers
  have written : Expr.numeralText q = .ok (nineDecimals q) := rfl
  have plain := compactPlain 9 q.num.natAbs q.den
  have read (cs : List Char) : (Expr.literal cs : Rat) = unsignedWorth cs := rfl
  rcases nineDecimalsSigned q with ⟨-, text, -⟩ | ⟨-, text, -⟩
  · rw [text] at written
    rw [Expr.denotedSigned written, text, exactNeg, read, worth]
  · rw [text] at written
    rw [Expr.denotedUnsigned written fun _ => plain.unsigned, text, read, plain.worth]

theorem worthNear (q : Rat) : |worth (nineDecimals q) - q| ≤ 5 / 10 ^ 10 := by
  rw [← denotedWorth]
  exact @Expr.denotedNear wholePowers q

theorem worthMono {q r : Rat} (ordered : q ≤ r) :
    worth (nineDecimals q) ≤ worth (nineDecimals r) := by
  rw [← denotedWorth, ← denotedWorth]
  exact @Expr.denotedMono wholePowers q r ordered

theorem droppedZeros {ds : List Char} (zeros : ∀ c ∈ ds, c = '0') : dropTrailingZeros ds = [] := by
  rw [dropTrailingZeros, List.reverse_eq_nil_iff, List.dropWhile_eq_nil_iff]
  intro c inside
  exact decide_eq_true (zeros c (List.mem_reverse.mp inside))

theorem paddedZero (width : Nat) : ∀ c ∈ padded width 0, c = '0' := by
  intro c inside
  rcases List.mem_append.mp inside with filled | last
  · exact List.eq_of_mem_replicate filled
  · exact List.mem_singleton.mp last

theorem compactWhole (places n : Nat) : compact places n 1 = digits n := by
  have kept (m : Nat) : roundHalfEven m 1 = m := by
    simp [roundHalfEven, Nat.mod_one]
  have positive : 0 < 10 ^ places := Nat.pow_pos (by decide)
  simp only [compact, fixedParts, Nat.pow_eq, kept, Nat.mul_mod_left, Nat.mul_div_left _ positive,
    droppedZeros (paddedZero places)]

theorem nineDecimalsWhole (n : Int) : String.ofList (nineDecimals n) = toString n := by
  have text : compact 9 (n : Rat).num.natAbs (n : Rat).den = digits n.natAbs :=
    compactWhole 9 n.natAbs
  simp only [nineDecimals, text]
  cases n with
  | ofNat m =>
    rw [if_neg fun signed => absurd signed.1 (not_lt.mpr (by simp))]
    rfl
  | negSucc m =>
    have nonzero : digits (m + 1) ≠ ['0'] := by
      intro zero
      have back : Nat.ofDigitChars 10 (digits (m + 1)) 0 = m + 1 :=
        Nat.ofDigitChars_toDigits (by decide) (by decide)
      rw [zero] at back
      cases back
    rw [if_pos ⟨by exact_mod_cast Int.negSucc_lt_zero m, nonzero⟩, ← List.singleton_append,
      String.ofList_append]
    rfl

theorem unitsWhole (n : Int) : (units n : Rat) = |(n : Rat)| * 10 ^ 9 := by
  have near := magnitudeUnits (n : Rat)
  have apart : |(|n| * 10 ^ 9 - (units n : Int))| < 1 := by
    have : |((|n| * 10 ^ 9 - (units n : Int) : Int) : Rat)| < 1 := by
      push_cast
      exact near.trans_lt (by norm_num)
    exact_mod_cast this
  have same := Int.abs_lt_one_iff.mp apart
  have : ((|n| * 10 ^ 9 : Int) : Rat) = (units n : Int) := by rw [sub_eq_zero.mp same]
  push_cast at this
  exact this.symm

theorem worthWhole (n : Int) : worth (nineDecimals n) = n := by
  have whole := unitsWhole n
  rcases nineDecimalsSigned n with ⟨negative, -, value⟩ | ⟨vanishes, -, value⟩
  · rw [value, whole, mul_div_cancel_right₀ _ (by norm_num), abs_of_neg negative, neg_neg]
  · rw [value, whole, mul_div_cancel_right₀ _ (by norm_num), abs_of_nonneg]
    by_contra below
    rw [vanishes (not_le.mp below), Nat.cast_zero, eq_comm, mul_eq_zero] at whole
    norm_num at whole
    rw [whole] at below
    exact below le_rfl

theorem worthZero : worth (nineDecimals 0) = 0 := by
  have none : units 0 = 0 := by simp [units, roundHalfEven]
  rcases nineDecimalsSigned 0 with ⟨below, -, -⟩ | ⟨-, -, value⟩
  · exact absurd below (lt_irrefl 0)
  · rw [value, none, Nat.cast_zero, zero_div]

theorem worthUnits (q : Rat) : |worth (nineDecimals q)| * 10 ^ 9 = units q := by
  rcases nineDecimalsSigned q with ⟨-, -, value⟩ | ⟨-, -, value⟩
  · rw [value, abs_neg, abs_of_nonneg (by positivity), div_mul_cancel₀ _ (by norm_num)]
  · rw [value, abs_of_nonneg (by positivity), div_mul_cancel₀ _ (by norm_num)]

theorem nineDecimalsFixed (q : Rat) : nineDecimals (worth (nineDecimals q)) = nineDecimals q := by
  have same : units (worth (nineDecimals q)) = units q := by
    refine unitsCloser ?_
    rw [worthUnits, sub_self, abs_zero]
    exact abs_nonneg _
  refine nineDecimalsAlike same (fun below => ?_) fun above => ?_
  · exact (worthMono below).trans_eq worthZero
  · exact worthZero.symm.trans_le (worthMono above)

end Decimal

namespace Binary64
open Decimal (units)

theorem standsAbs {x : Float} {v : Rat} (stands : Stands x v) : ∃ y, Stands y |v| := by
  rcases abs_choice v with same | opposite
  · exact ⟨x, same.symm ▸ stands⟩
  · exact ⟨-x, opposite.symm ▸ standsNeg stands⟩

theorem unitsCovered {x : Float} {v : Rat} (stands : Stands x v) :
    ∃ y u, Stands y u ∧ (units v : Rat) / 10 ^ 9 ≤ u := by
  obtain ⟨n, k, same, short, -, -⟩ := standsOnGrid stands
  -- Doubles on a coarse grid are whole, and so are their units; the others are below 2 ^ 52.
  rcases le_or_gt 0 k with whole | fine
  · obtain ⟨l, rfl⟩ := Int.eq_ofNat_of_zero_le whole
    have integer : v = (n * 2 ^ l : Int) := by
      rw [same, zpow_natCast]
      push_cast
      rfl
    obtain ⟨y, exact⟩ := standsAbs stands
    refine ⟨y, |v|, exact, ?_⟩
    rw [integer, Decimal.unitsWhole, mul_div_cancel_right₀ _ (by norm_num)]
  · refine ⟨_, _, @pointStands (2 ^ 52) 1 (by norm_num) (by norm_num)
      (.inl le_rfl) (by decide), ?_⟩
    have near : |(|v| * 10 ^ 9 - units v)| ≤ 1 / 2 := magnitudeUnits v
    have small : |v| ≤ 2 ^ 52 := by
      have significand : |(n : Rat)| ≤ 2 ^ 53 := by exact_mod_cast short.le
      have half : (2 : Rat) ^ k ≤ 2 ^ (-1 : Int) := zpow_le_zpow_right₀ one_le_two (by omega)
      rw [same, abs_mul, abs_of_nonneg (by positivity : (0 : Rat) ≤ 2 ^ k)]
      calc |(n : Rat)| * 2 ^ k ≤ 2 ^ 53 * 2 ^ (-1 : Int) := by gcongr
        _ = 2 ^ 52 := by norm_num
    rw [abs_le] at near
    rw [div_le_iff₀ (by norm_num)]
    calc (units v : Rat) ≤ |v| * 10 ^ 9 + 1 / 2 := by linarith
      _ ≤ 2 ^ 52 * 10 ^ 9 + 1 / 2 := by gcongr
      _ ≤ ((2 ^ 52 : Nat) : Rat) * 2 ^ (1 : Int) * 10 ^ 9 := by norm_num

theorem unitsReadBack {x : Float} {v : Rat} (stands : Stands x v) :
    ∃ r, Stands (ofDecimal false (Decimal.numeral (Decimal.compact 9 v.num.natAbs v.den)).1
      (Decimal.numeral (Decimal.compact 9 v.num.natAbs v.den)).2) r ∧
      0 ≤ r ∧ units r = units v := by
  obtain ⟨n, places, few, written, value⟩ := Decimal.compactUnits v.num.natAbs v.den
  change (n : Rat) / 10 ^ places = (units v : Nat) / 10 ^ 9 at value
  obtain ⟨y, u, finite, covers⟩ := unitsCovered stands
  obtain ⟨r, read, nonneg, nearest⟩ :=
    @ofDecimalIsNearest n places (by omega) y u finite (value.trans_le covers)
  obtain ⟨z, exact⟩ := standsAbs stands
  have closer := nearest z |v| exact
  rw [value] at closer
  refine ⟨r, by rwa [written], nonneg, Decimal.unitsCloser ?_⟩
  have scaled (w : Rat) :
      |w * 10 ^ 9 - (units v : Nat)| = |w - (units v : Nat) / 10 ^ 9| * 10 ^ 9 := by
    have ten : (0 : Rat) < 10 ^ 9 := by norm_num
    rw [← abs_of_pos ten, ← abs_mul, abs_of_pos ten, sub_mul, div_mul_cancel₀ _ ten.ne']
  rw [abs_of_nonneg nonneg, scaled, scaled]
  exact mul_le_mul_of_nonneg_right closer (by norm_num)

theorem ofDecimalSigned (digits : Nat) (exponent : Int) :
    ofDecimal true digits exponent = -ofDecimal false digits exponent := by
  simp only [ofDecimal, withSign, if_true, Bool.false_eq_true, if_false]

theorem nineDecimalsReadBack {x : Float} {v : Rat} (stands : Stands x v) :
    ∃ y w, Decimal.readFloat? (Decimal.nineDecimals v) = some y ∧ Stands y w ∧
      Decimal.nineDecimals w = Decimal.nineDecimals v := by
  obtain ⟨r, read, nonneg, same⟩ := unitsReadBack stands
  have plain := Decimal.compactPlain 9 v.num.natAbs v.den
  rcases Decimal.nineDecimalsSigned v with ⟨negative, text, -⟩ | ⟨-, text, -⟩
  · have opposite : units (-r) = units v := by
      rw [← same, units, units, Rat.neg_num, Rat.neg_den, Int.natAbs_neg]
    refine ⟨_, -r, by rw [text, plain.readsSigned], ?_, ?_⟩
    · rw [ofDecimalSigned]
      exact standsNeg read
    · refine Decimal.nineDecimalsAlike opposite (fun _ => neg_nonpos.mpr nonneg) fun above => ?_
      exact absurd negative above.not_gt
  · refine ⟨_, r, by rw [text, plain.readsFloat], read, ?_⟩
    have text' : Decimal.compact 9 r.num.natAbs r.den = Decimal.compact 9 v.num.natAbs v.den :=
      Decimal.compactOfRounded same
    rw [text, ← text']
    exact if_neg fun signed => nonneg.not_gt signed.1

end Binary64

namespace Expr
open Binary64 (Stands)
open Decimal (worth NumberShape)

theorem doubleText {x : Float} {v : Rat} (stands : Stands x v) :
    numberText (.float x : Scalar) = .ok (String.ofList (Decimal.nineDecimals v)) := by
  obtain ⟨d, decoded, rfl⟩ := stands
  have finite : Number.finite? (.float x : Scalar) = .ok (some d.toRat) := by
    change Except.ok ((Binary64.decode x).map Binary64.Decoded.toRat) = _
    rw [decoded, Option.map_some]
  rw [numberText, numeralText, finite]
  rfl

/-- What a finite double is written as: the nearest number of nine decimals, in its shortest
form. Whole numbers are written as integers are, the order of numbers is the order of what they
are written as, and what is written is written again as it is, also by way of a double. -/
theorem numberTextProjects {x : Float} {v : Rat} (stands : Stands x v) :
    ∃ text, numberText (.float x : Scalar) = .ok text ∧ NumberShape text.toList ∧
      |worth text.toList - v| ≤ 5 / 10 ^ 10 ∧
      (∀ n : Int, v = n → text = toString n ∧ worth text.toList = v) ∧
      Decimal.nineDecimals (worth text.toList) = text.toList ∧
      (∃ y, Decimal.readFloat? text.toList = some y ∧ numberText (.float y : Scalar) = .ok text) ∧
      ∀ y w other, Stands y w → v ≤ w → numberText (.float y : Scalar) = .ok other →
        worth text.toList ≤ worth other.toList := by
  refine ⟨_, doubleText stands, ?_⟩
  rw [String.toList_ofList]
  refine ⟨Decimal.nineDecimalsShaped v, Decimal.worthNear v, ?_, Decimal.nineDecimalsFixed v,
    ?_, ?_⟩
  · rintro n rfl
    exact ⟨Decimal.nineDecimalsWhole n, Decimal.worthWhole n⟩
  · obtain ⟨y, w, read, finite, same⟩ := Binary64.nineDecimalsReadBack stands
    exact ⟨y, read, by rw [doubleText finite, same]⟩
  · intro y w other finite ordered written
    rw [doubleText finite] at written
    cases written
    rw [String.toList_ofList]
    exact Decimal.worthMono ordered

theorem halfUnitProjects :
    let half : Scalar := .float (Binary64.ofDecimal true 29296875 (-10))
    let large : Scalar := .float (Binary64.ofDecimal false 1 22)
    numberText half = .ok "-0.002929688" ∧ numberText large = .ok "10000000000000000000000" ∧
      NumberShape "-0.002929688".toList ∧ |worth "-0.002929688".toList - -3 / 1024| ≤ 5 / 10 ^ 10 ∧
      (∃ y, Decimal.readFloat? "-0.002929688".toList = some y ∧
        numberText (.float y : Scalar) = .ok "-0.002929688") ∧
      worth "-0.002929688".toList ≤ worth "10000000000000000000000".toList := by
  intro half large
  have halfStands : Stands (Binary64.ofDecimal true 29296875 (-10)) (-3 / 1024) :=
    ⟨⟨true, 3 * 2 ^ 51, -61⟩, by decide +kernel, by decide +kernel⟩
  have largeStands : Stands (Binary64.ofDecimal false 1 22) (10 ^ 22) :=
    ⟨⟨false, 2 * 5 ^ 22, 21⟩, by decide +kernel, by decide +kernel⟩
  have halfText : numberText half = .ok "-0.002929688" := toOptionOk.mp (by decide +kernel)
  have largeText : numberText large = .ok "10000000000000000000000" :=
    toOptionOk.mp (by decide +kernel)
  obtain ⟨text, written, shape, near, -, -, back, ordered⟩ := numberTextProjects halfStands
  obtain rfl := Except.ok.inj (halfText.symm.trans written)
  exact ⟨halfText, largeText, shape, near, back,
    ordered _ _ _ largeStands (by norm_num) largeText⟩

end Expr

end OverlayMotion

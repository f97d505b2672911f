import OverlayMotion.Decimal.Reading
import OverlayMotion.Proofs.Numeral

/-! Number text read as a number, by the reader of floats and by that of formulas, and what it
is worth: the digits of a compact text, scaled back to all their places, are the number
rounded to those places. -/
namespace OverlayMotion.Decimal

theorem Run.grouped {ds : List Char} (run : Run ds) : isGroupedRun Text.isDigit ds := by
  obtain ⟨some, digits⟩ := run
  induction ds with
  | nil => contradiction
  | cons d ds ih =>
    have first := digitReads (digits d List.mem_cons_self)
    have others : ∀ c ∈ ds, c.isDigit := fun c inside => digits c (List.mem_cons_of_mem d inside)
    match ds with
    | [] => simpa [isGroupedRun] using first
    | e :: es =>
      rw [isGroupedRun, first, ih (by simp) others]
      · rfl
      · simp
      · intro rest same
        obtain ⟨rfl, _⟩ := List.cons.inj same
        exact absurd (others '_' List.mem_cons_self) (by decide)

theorem spanAll {p : Char → Bool} {cs : List Char} (all : ∀ c ∈ cs, p c) :
    cs.span p = (cs, []) := by
  rw [List.span_eq_takeWhile_dropWhile, List.takeWhile_eq_self_iff.mpr all,
    List.dropWhile_eq_nil_iff.mpr all]

theorem Run.pointless {ds : List Char} (run : Run ds) : ∀ c ∈ ds, decide (c ≠ '.') := by
  intro c inside
  refine decide_eq_true ?_
  rintro rfl
  exact absurd (run.digits '.' inside) (by decide)

theorem Plain.unscaled {cs : List Char} (plain : Plain cs) : splitExponent cs = (cs, []) := by
  refine spanAll fun c inside => ?_
  rcases plain.characters c inside with digit | rfl
  · have other : c ≠ 'e' ∧ c ≠ 'E' := by
      constructor <;> rintro rfl <;> revert digit <;> decide
    simpa using other
  · rfl

theorem Run.splits {ds : List Char} (run : Run ds) : splitPoint ds = (ds, []) :=
  spanAll run.pointless

theorem Run.splitsBefore {ds : List Char} (run : Run ds) (fs : List Char) :
    splitPoint (ds ++ '.' :: fs) = (ds, '.' :: fs) := by
  rw [splitPoint, List.span_eq_takeWhile_dropWhile, List.takeWhile_append_of_pos run.pointless,
    List.dropWhile_append_of_pos run.pointless]
  simp

theorem Plain.isNumeral {cs : List Char} (plain : Plain cs) :
    isNumeral (isGroupedRun Text.isDigit) cs := by
  rw [Decimal.isNumeral, plain.unscaled]
  cases plain with
  | whole run => simp [run.splits, run.grouped]
  | pointed run fraction =>
    obtain ⟨f, gs, rfl⟩ := List.exists_cons_of_ne_nil fraction.some
    simp [run.splitsBefore, run.grouped, fraction.grouped]

theorem Plain.front {cs : List Char} (plain : Plain cs) : ∃ c rest, cs = c :: rest ∧ c.isDigit := by
  cases plain with
  | whole run =>
    obtain ⟨c, rest, rfl⟩ := List.exists_cons_of_ne_nil run.some
    exact ⟨c, rest, rfl, run.digits c List.mem_cons_self⟩
  | pointed run =>
    obtain ⟨c, rest, rfl⟩ := List.exists_cons_of_ne_nil run.some
    exact ⟨c, _, rfl, run.digits c List.mem_cons_self⟩

theorem Plain.unnamed {cs : List Char} (plain : Plain cs) : named? cs = none := by
  obtain ⟨c, rest, rfl, digit⟩ := plain.front
  have small : c.toLower = c := by
    have codes := digitCodes digit
    have low : ¬ (c.val ≥ 'A'.val ∧ c.val ≤ 'Z'.val) := by
      rintro ⟨above, _⟩
      have : 65 ≤ c.toNat := above
      omega
    exact dif_neg low
  have other (name : String) (front : ∀ d ∈ name.toList.head?, ¬ d.isDigit) :
      String.ofList ((c :: rest).map Char.toLower) ≠ name := by
    intro same
    rw [← same, String.toList_ofList, List.map_cons, small] at front
    exact front c rfl digit
  unfold named?
  split
  · rename_i same
    exact absurd same (other _ (by simp))
  · rename_i same
    exact absurd same (other _ (by simp))
  · rename_i same
    exact absurd same (other _ (by simp))
  · rfl

theorem unpadded {cs : List Char} (dense : ∀ c ∈ cs, Text.isBlank c = false) :
    dropPadding cs = cs := by
  have kept {ds : List Char} (dense : ∀ c ∈ ds, Text.isBlank c = false) :
      ds.dropWhile isPadding = ds := by
    rw [List.dropWhile_eq_self_iff]
    intro some padding
    have blank := (Bool.and_eq_true_iff.mp padding).1
    rw [dense _ (List.getElem_mem some)] at blank
    contradiction
  have reversed : ∀ c ∈ cs.reverse, Text.isBlank c = false := fun c inside =>
    dense c (List.mem_reverse.mp inside)
  rw [dropPadding, kept dense, kept reversed, List.reverse_reverse]

theorem Plain.unsignedFront {cs : List Char} (plain : Plain cs) :
    cs.head? ≠ some '-' ∧ dropSign cs = cs := by
  obtain ⟨c, rest, rfl, digit⟩ := plain.front
  have signless : c ≠ '-' ∧ c ≠ '+' := by
    constructor <;> rintro rfl <;> revert digit <;> decide
  refine ⟨by simpa using signless.1, ?_⟩
  unfold dropSign
  split
  · rename_i same
    exact absurd (List.cons.inj same).1 signless.1
  · rename_i same
    exact absurd (List.cons.inj same).1 signless.2
  · rfl

theorem Plain.readsFloat {cs : List Char} (plain : Plain cs) : readFloat? cs =
    some (Binary64.ofDecimal false (numeral cs).1 (numeral cs).2) := by
  obtain ⟨unsigned, body⟩ := plain.unsignedFront
  rw [readFloat?, unpadded plain.dense, read?]
  simp only [body, plain.unnamed, plain.isNumeral, if_true, decide_eq_false unsigned]

theorem Plain.readsSigned {cs : List Char} (plain : Plain cs) : readFloat? ('-' :: cs) =
    some (Binary64.ofDecimal true (numeral cs).1 (numeral cs).2) := by
  have dense : ∀ c ∈ '-' :: cs, Text.isBlank c = false := by
    intro c inside
    rcases List.mem_cons.mp inside with rfl | inside
    · rfl
    · exact plain.dense c inside
  rw [readFloat?, unpadded dense, read?]
  simp [dropSign, plain.unnamed, plain.isNumeral]

def digitStep (n : Nat) (c : Char) : Nat :=
  match Text.digitValue? c with
  | some d => 10 * n + d
  | none => n

theorem readDigitsSteps (cs : List Char) : Text.readDigits cs = cs.foldl digitStep 0 := rfl

theorem stepsOfDigits {ds : List Char} (all : ∀ c ∈ ds, c.isDigit) (n : Nat) :
    ds.foldl digitStep n = Nat.ofDigitChars 10 ds n := by
  induction ds generalizing n with
  | nil => rfl
  | cons c ds ih =>
    have codes := digitCodes (all c List.mem_cons_self)
    have step : digitStep n c = 10 * n + (c.toNat - '0'.toNat) := by
      simp only [digitStep, Text.digitValue?]
      rw [if_pos (by omega), if_pos codes]
      rfl
    rw [List.foldl_cons, Nat.ofDigitChars_cons, step]
    exact ih (fun d inside => all d (List.mem_cons_of_mem c inside)) _

theorem Run.worth {ds : List Char} (run : Run ds) :
    numeral ds = (Nat.ofDigitChars 10 ds 0, 0) := by
  have plain : Plain ds := .whole run
  have read : Text.readDigits ds = Nat.ofDigitChars 10 ds 0 := stepsOfDigits run.digits 0
  simp only [numeral, plain.unscaled, run.splits, List.append_nil, read]
  rfl

theorem Run.worthBefore {ds fs : List Char} (run : Run ds) (fraction : Run fs) :
    numeral (ds ++ '.' :: fs) = (Nat.ofDigitChars 10 (ds ++ fs) 0, -(fs.length : Int)) := by
  have plain : Plain (ds ++ '.' :: fs) := .pointed run fraction
  have read : Text.readDigits (ds ++ '.' :: fs) = Nat.ofDigitChars 10 (ds ++ fs) 0 := by
    rw [readDigitsSteps, List.foldl_append, List.foldl_cons, stepsOfDigits run.digits,
      Nat.ofDigitChars_append]
    exact stepsOfDigits fraction.digits _
  have places : ('.' :: fs).countP Text.isDigit = fs.length := by
    rw [List.countP_cons_of_neg (by decide), List.countP_eq_length]
    exact fun c inside => digitReads (fraction.digits c inside)
  have none : Text.readDigits [] = 0 := rfl
  simp only [numeral, plain.unscaled, run.splitsBefore, read, places, none]
  simp

theorem paddedLength {width n : Nat} (some : 0 < width) (fits : n < 10 ^ width) :
    (padded width n).length = width := by
  have short : (digits n).length ≤ width :=
    (Nat.length_toDigits_le_iff (by decide) some).mpr fits
  simp only [padded, List.length_append, List.length_replicate]
  omega

theorem paddedWorth (width n : Nat) : Nat.ofDigitChars 10 (padded width n) 0 = n := by
  have zeros (z : Nat) : Nat.ofDigitChars 10 (List.replicate z '0') 0 = 0 := by
    rw [Nat.ofDigitChars_replicate_zero, Nat.mul_zero]
  rw [padded, Nat.ofDigitChars_append, zeros, digits]
  exact Nat.ofDigitChars_toDigits (by decide) (by decide)

theorem trailingZeros (ds : List Char) :
    ∃ z, ds = dropTrailingZeros ds ++ List.replicate z '0' := by
  have zeros : ∀ c ∈ ds.reverse.takeWhile (· = '0'), c = '0' := fun c inside => by
    simpa using List.mem_takeWhile_imp inside
  have parts := congrArg List.reverse
    (List.takeWhile_append_dropWhile (p := (· = '0')) (l := ds.reverse))
  rw [List.eq_replicate_of_mem zeros, List.reverse_append, List.reverse_replicate,
    List.reverse_reverse] at parts
  exact ⟨_, parts.symm⟩

theorem compactWorth (places num den : Nat) (some : 0 < places) : ∃ n kept, kept ≤ places ∧
    numeral (compact places num den) = (n, -(kept : Int)) ∧
    n * 10 ^ (places - kept) = Binary64.roundHalfEven (num * 10 ^ places) den := by
  generalize hr : Binary64.roundHalfEven (num * 10 ^ places) den = scaled
  have rest : scaled % 10 ^ places < 10 ^ places := Nat.mod_lt _ (Nat.pow_pos (by decide))
  have length := paddedLength some rest
  have worth := paddedWorth places (scaled % 10 ^ places)
  have whole : Nat.ofDigitChars 10 (digits (scaled / 10 ^ places)) 0 = scaled / 10 ^ places :=
    Nat.ofDigitChars_toDigits (by decide) (by decide)
  have split := Nat.div_add_mod scaled (10 ^ places)
  obtain ⟨z, parts⟩ := trailingZeros (padded places (scaled % 10 ^ places))
  simp only [compact, fixedParts, Nat.pow_eq, hr]
  have kept : ∀ c ∈ dropTrailingZeros (padded places (scaled % 10 ^ places)), c.isDigit :=
    fun c inside => paddedDigits (keptDigits inside)
  generalize dropTrailingZeros (padded places (scaled % 10 ^ places)) = ds at parts kept
  rw [parts, List.length_append, List.length_replicate] at length
  -- With the zeros back, the digits after the point continue those before it.
  have value : Nat.ofDigitChars 10 (digits (scaled / 10 ^ places) ++ ds) 0 * 10 ^ z = scaled := by
    rw [parts, Nat.ofDigitChars_append, Nat.ofDigitChars_replicate_zero] at worth
    rw [Nat.ofDigitChars_append, whole, Nat.ofDigitChars_eq_ofDigitChars_zero]
    calc (10 ^ ds.length * (scaled / 10 ^ places) + Nat.ofDigitChars 10 ds 0) * 10 ^ z =
          10 ^ (ds.length + z) * (scaled / 10 ^ places) + 10 ^ z * Nat.ofDigitChars 10 ds 0 := by
            ring
      _ = scaled := by rw [length, worth, split]
  cases ds with
  | nil =>
    rw [List.append_nil, whole] at value
    refine ⟨_, 0, Nat.zero_le _, (digitsRun _).worth, ?_⟩
    rw [List.length_nil, Nat.zero_add] at length
    subst length
    rw [whole, Nat.sub_zero, value]
  | cons d ds =>
    refine ⟨_, _, by omega, (digitsRun _).worthBefore ⟨by simp, kept⟩, ?_⟩
    have left : places - (d :: ds).length = z := by omega
    rw [left, value]

end OverlayMotion.Decimal

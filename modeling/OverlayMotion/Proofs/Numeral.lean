import Mathlib.Tactic.Linarith
import OverlayMotion.Decimal
import OverlayMotion.Proofs.Scanning

/-! The shape of number text: digits, at most one point with digits after it, and a
minus sign only in front of what is below zero. Without its sign it is one token. -/
namespace OverlayMotion.Decimal
open Token (Lexeme Scans)

structure Run (ds : List Char) : Prop where
  some : ds ≠ []
  digits : ∀ c ∈ ds, c.isDigit

inductive Plain : List Char → Prop
  | whole {ds} (run : Run ds) : Plain ds
  | pointed {ds fs} (whole : Run ds) (fraction : Run fs) : Plain (ds ++ '.' :: fs)

theorem digitsRun (n : Nat) : Run (digits n) where
  some := Nat.toDigits_ne_nil
  digits _ inside := Nat.isDigit_of_mem_toDigits (by decide) (by decide) inside

theorem paddedDigits {width n : Nat} {c : Char} (inside : c ∈ padded width n) : c.isDigit := by
  rcases List.mem_append.mp inside with zero | digit
  · rw [List.eq_of_mem_replicate zero]
    rfl
  · exact (digitsRun n).digits c digit

theorem keptDigits {ds : List Char} {c : Char} (inside : c ∈ dropTrailingZeros ds) : c ∈ ds := by
  have kept := (List.dropWhile_sublist _).subset (List.mem_reverse.mp inside)
  exact List.mem_reverse.mp kept

theorem compactPlain (places num den : Nat) : Plain (compact places num den) := by
  simp only [compact, fixedParts]
  split
  · exact .whole (digitsRun _)
  · rename_i nonempty
    refine .pointed (digitsRun _) ⟨nonempty, fun c inside => ?_⟩
    exact paddedDigits (keptDigits inside)

theorem nineDecimalsShape (q : Rat) : ∃ cs, Plain cs ∧
    (nineDecimals q = cs ∨ q < 0 ∧ nineDecimals q = '-' :: cs) := by
  refine ⟨_, compactPlain 9 q.num.natAbs q.den, ?_⟩
  simp only [nineDecimals]
  split
  · rename_i signed
    exact .inr ⟨signed.1, rfl⟩
  · exact .inl rfl

theorem nineDecimalsNeg (q : Rat) : nineDecimals q = ['0'] ∧ nineDecimals (-q) = ['0'] ∨
    ∃ cs, Plain cs ∧ (nineDecimals q = cs ∧ nineDecimals (-q) = '-' :: cs ∨
      nineDecimals q = '-' :: cs ∧ nineDecimals (-q) = cs) := by
  have plain := compactPlain 9 q.num.natAbs q.den
  simp only [nineDecimals, Rat.neg_num, Rat.neg_den, Int.natAbs_neg]
  by_cases zero : compact 9 q.num.natAbs q.den = ['0']
  · exact .inl (by simp [zero])
  · refine .inr ⟨_, plain, ?_⟩
    rcases lt_trichotomy q 0 with below | same | above
    · have opposite : ¬ -q < 0 := by linarith
      exact .inr (by simp [below, opposite, zero])
    · subst same
      exact absurd (by decide) zero
    · have opposite : ¬ q < 0 := by linarith
      exact .inl (by simp [above, opposite, zero])

theorem digitCodes {c : Char} (h : c.isDigit) : 48 ≤ c.toNat ∧ c.toNat ≤ 57 := by
  simpa [Char.isDigit, UInt32.le_iff_toNat_le] using h

theorem digitReads {c : Char} (h : c.isDigit) : Text.isDigit c := by
  have codes := digitCodes h
  simp only [Text.isDigit, Text.digitValue?]
  rw [if_pos (by omega), if_pos codes]
  rfl

theorem digitDense {c : Char} (h : c.isDigit) : Text.isBlank c = false := by
  refine Bool.eq_false_iff.mpr fun blank => ?_
  simpa [digitReads h] using Token.blankNotDigit blank

theorem Run.span {ds : List Char} (run : Run ds) (rest : List Char)
    (h : ∀ c ∈ rest.head?, Text.isDigit c = false) : Token.digitRun (ds ++ rest) = (ds, rest) := by
  have all : ∀ c ∈ ds, Text.isDigit c := fun c inside => digitReads (run.digits c inside)
  rw [Token.digitRun, List.span_eq_takeWhile_dropWhile, List.takeWhile_append_of_pos all,
    List.dropWhile_append_of_pos all]
  cases rest with
  | nil => simp
  | cons c rest => simp [h c rfl]

theorem Plain.mantissa {cs : List Char} (plain : Plain cs) :
    Token.mantissaPart cs = some (cs, []) := by
  cases plain with
  | whole run =>
    have digits := run.span [] (by simp)
    rw [List.append_nil] at digits
    have some := run.some
    cases cs with
    | nil => contradiction
    | cons d ds => simp [Token.mantissaPart, digits]
  | @pointed ds fs run fraction =>
    have digits := run.span ('.' :: fs) (by rintro c ⟨⟩; rfl)
    have inner := fraction.span [] (by simp)
    rw [List.append_nil] at inner
    have some := run.some
    cases ds with
    | nil => contradiction
    | cons d ds =>
      unfold Token.mantissaPart
      rw [digits]
      simp [inner]

theorem Plain.lexeme {cs : List Char} (plain : Plain cs) : Lexeme (.number cs) := by
  simp [Lexeme, Token.scan?, Token.text, Token.numberPart, plain.mantissa, Token.exponentPart]

theorem Plain.characters {cs : List Char} (plain : Plain cs) :
    ∀ c ∈ cs, c.isDigit ∨ c = '.' := by
  intro c inside
  cases plain with
  | whole run => exact .inl (run.digits c inside)
  | pointed run fraction =>
    rcases List.mem_append.mp inside with whole | inside
    · exact .inl (run.digits c whole)
    · rcases List.mem_cons.mp inside with rfl | inside
      · exact .inr rfl
      · exact .inl (fraction.digits c inside)

theorem Plain.dense {cs : List Char} (plain : Plain cs) : ∀ c ∈ cs, Text.isBlank c = false := by
  intro c inside
  rcases plain.characters c inside with digit | rfl
  · exact digitDense digit
  · rfl

theorem Plain.unsigned {cs ds : List Char} (plain : Plain cs) : cs ≠ '-' :: ds := by
  rintro rfl
  rcases plain.characters '-' (by simp) with digit | same <;> contradiction

theorem Plain.scans {cs : List Char} (plain : Plain cs) : Scans cs [.number cs] :=
  plain.lexeme.scans plain.dense

end OverlayMotion.Decimal

import Mathlib
import OverlayMotion.Expr.Token
import OverlayMotion.Proofs.Outcome

/-! Scanning text by text. What a word scans to does not depend on what follows it, as
long as that is nothing, white space or a symbol; so the tokens of texts put together
with symbols between them are the tokens of the parts. -/
namespace OverlayMotion.Token
open Text

theorem symbolClasses {c : Char} (h : isSymbol c) :
    isDigit c = false ∧ isNameStart c = false ∧ isNameRest c = false ∧ isBlank c = false ∧
      c ≠ '.' := by
  have among : c ∈ ['-', '+', '*', '/', '^', '(', ')', ','] := by simpa [isSymbol] using h
  simp only [List.mem_cons, List.not_mem_nil, or_false] at among
  rcases among with rfl | rfl | rfl | rfl | rfl | rfl | rfl | rfl <;> decide

theorem blankNotDigit {c : Char} (h : isBlank c) : isDigit c = false := by
  simp only [isBlank, Bool.or_eq_true, Bool.and_eq_true, decide_eq_true_eq, beq_iff_eq] at h
  simp only [isDigit, digitValue?]
  split
  · rw [if_neg (by omega)]
    rfl
  · have none : zeros.find? (fun start => decide (start ≤ c.toNat) && decide (c.toNat < start + 10))
        = none := by
      rw [List.find?_eq_none]
      intro start inside
      simp only [zeros, List.mem_cons, List.not_mem_nil, or_false] at inside
      simp only [Bool.and_eq_true, decide_eq_true_eq]
      omega
    simp [none]

theorem nameCodes {c : Char} (h : isNameRest c) :
    48 ≤ c.toNat ∧ c.toNat ≤ 57 ∨ 65 ≤ c.toNat ∧ c.toNat ≤ 90 ∨ c.toNat = 95 ∨
      97 ≤ c.toNat ∧ c.toNat ≤ 122 := by
  simp only [isNameRest, Char.isAlphanum, Char.isAlpha, Char.isUpper, Char.isLower, Char.isDigit,
    Bool.or_eq_true, Bool.and_eq_true, decide_eq_true_eq, UInt32.le_iff_toNat_le] at h
  rcases h with ((upper | lower) | digit) | rfl
  · exact .inr (.inl upper)
  · exact .inr (.inr (.inr lower))
  · exact .inl digit
  · decide

theorem blankNotName {c : Char} (h : isBlank c) : isNameRest c = false := by
  simp only [isBlank, Bool.or_eq_true, Bool.and_eq_true, decide_eq_true_eq, beq_iff_eq] at h
  refine Bool.eq_false_iff.mpr fun name => ?_
  have codes := nameCodes name
  omega

def Stops (rest : List Char) : Prop := ∀ c ∈ rest.head?, isBlank c ∨ isSymbol c

theorem Stops.notDigit {rest : List Char} (stops : Stops rest) :
    ∀ c ∈ rest.head?, isDigit c = false := by
  intro c first
  rcases stops c first with blank | symbol
  · exact blankNotDigit blank
  · exact (symbolClasses symbol).1

theorem Stops.notName {rest : List Char} (stops : Stops rest) :
    ∀ c ∈ rest.head?, isNameRest c = false := by
  intro c first
  rcases stops c first with blank | symbol
  · exact blankNotName blank
  · exact (symbolClasses symbol).2.2.1

theorem Stops.ne {rest tail : List Char} {c : Char} (stops : Stops rest) (blank : isBlank c = false)
    (symbol : isSymbol c = false) : rest ≠ c :: tail := by
  rintro rfl
  rcases stops c rfl with h | h <;> simp_all

theorem stopsNil : Stops [] := by
  intro c first
  cases first

theorem stopsSymbol {c : Char} (symbol : isSymbol c) (rest : List Char) : Stops (c :: rest) := by
  intro d first
  cases first
  exact .inr symbol

theorem spanAppend {p : Char → Bool} {cs rest ds tail : List Char} (h : cs.span p = (ds, tail))
    (stops : ∀ c ∈ rest.head?, p c = false) : (cs ++ rest).span p = (ds, tail ++ rest) := by
  rw [List.span_eq_takeWhile_dropWhile] at *
  cases h
  induction cs with
  | nil =>
    cases rest with
    | nil => rfl
    | cons c rest => simp [stops c rfl]
  | cons c cs ih =>
    cases hc : p c <;> simp_all

theorem runAppend {cs rest ds tail : List Char} (h : digitRun cs = (ds, tail))
    (stops : Stops rest) : digitRun (cs ++ rest) = (ds, tail ++ rest) :=
  spanAppend h stops.notDigit

theorem mantissaAppend {cs rest ds tail : List Char} (h : mantissaPart cs = some (ds, tail))
    (stops : Stops rest) : mantissaPart (cs ++ rest) = some (ds, tail ++ rest) := by
  unfold mantissaPart at h
  split at h
  · rename_i middle run
    split at h
    · contradiction
    · rename_i fraction after some fractionRun
      cases h
      simp [mantissaPart, runAppend run stops, runAppend fractionRun stops]
  · contradiction
  · rename_i whole middle _ run
    cases h
    have inner : digitRun (middle ++ rest) = (_, _ ++ rest) := runAppend rfl stops
    simp [mantissaPart, runAppend run stops, inner]
  · rename_i some noPoint run
    cases h
    have stillNoPoint : ∀ r, tail ++ rest ≠ '.' :: r := by
      intro r same
      cases tail with
      | nil => exact stops.ne rfl rfl same
      | cons c tail => exact noPoint tail (by simp_all)
    unfold mantissaPart
    rw [runAppend run stops]
    split <;> simp_all

theorem exponentAppend {cs rest ds : List Char} (h : exponentPart cs = (ds, []))
    (stops : Stops rest) : exponentPart (cs ++ rest) = (ds, rest) := by
  cases cs with
  | nil =>
    cases h
    cases rest with
    | nil => rfl
    | cons c rest =>
      have notMark : ¬ (c = 'e' ∨ c = 'E') := by
        have other := stops.notName c rfl
        rintro (rfl | rfl) <;> contradiction
      simp [exponentPart, notMark]
  | cons e cs =>
    by_cases mark : e = 'e' ∨ e = 'E'
    case neg => simp [exponentPart, mark] at h
    cases cs with
    | nil => simp [exponentPart, mark] at h
    | cons sign digits =>
      by_cases signed : sign = '+' ∨ sign = '-'
      · obtain ⟨run, after, hr⟩ : ∃ run after, digitRun digits = (run, after) := ⟨_, _, rfl⟩
        cases run with
        | nil => simp [exponentPart, mark, signed, hr] at h
        | cons d run =>
          simp only [exponentPart, mark, signed, hr, if_true, Prod.mk.injEq] at h
          obtain ⟨rfl, rfl⟩ := h
          simp [exponentPart, mark, signed, runAppend hr stops]
      · obtain ⟨run, after, hr⟩ : ∃ run after, digitRun (sign :: digits) = (run, after) :=
          ⟨_, _, rfl⟩
        cases run with
        | nil => simp [exponentPart, mark, signed, hr] at h
        | cons d run =>
          simp only [exponentPart, mark, signed, hr, if_true, if_false, Prod.mk.injEq] at h
          obtain ⟨rfl, rfl⟩ := h
          have longer := runAppend hr stops
          rw [List.cons_append] at longer
          simp [exponentPart, mark, signed, longer]

theorem numberAppend {cs rest ds : List Char} (h : numberPart cs = some (ds, []))
    (stops : Stops rest) : numberPart (cs ++ rest) = some (ds, rest) := by
  simp only [numberPart, Option.map_eq_some_iff] at h
  obtain ⟨⟨mantissa, tail⟩, hm, whole⟩ := h
  obtain ⟨exponent, after, he⟩ : ∃ exponent after, exponentPart tail = (exponent, after) :=
    ⟨_, _, rfl⟩
  simp only [he, Prod.mk.injEq] at whole
  obtain ⟨rfl, rfl⟩ := whole
  simp [numberPart, mantissaAppend hm stops, exponentAppend he stops]

theorem noNumber {c : Char} (digit : isDigit c = false) (point : c ≠ '.') (rest : List Char) :
    numberPart (c :: rest) = none := by
  have run : digitRun (c :: rest) = ([], c :: rest) := by
    simp [digitRun, List.span_eq_takeWhile_dropWhile, digit]
  simp [numberPart, mantissaPart, run, point]

theorem nameStartCodes {c : Char} (h : isNameStart c) :
    65 ≤ c.toNat ∧ c.toNat ≤ 90 ∨ c.toNat = 95 ∨ 97 ≤ c.toNat ∧ c.toNat ≤ 122 := by
  simp only [isNameStart, Char.isAlpha, Char.isUpper, Char.isLower, Bool.or_eq_true,
    Bool.and_eq_true, decide_eq_true_eq, UInt32.le_iff_toNat_le] at h
  rcases h with (upper | lower) | rfl
  · exact .inl upper
  · exact .inr (.inr lower)
  · decide

theorem noNumberBeforeName {c : Char} (h : isNameStart c) (rest : List Char) :
    numberPart (c :: rest) = none := by
  have codes := nameStartCodes h
  refine noNumber ?_ ?_ rest
  · simp only [isDigit, digitValue?]
    rw [if_pos (by omega), if_neg (by omega)]
    rfl
  · rintro rfl
    simp at codes

def Lexeme (token : Token) : Prop := scan? token.text = some (token, [])

theorem symbolFront {c : Char} (h : isSymbol c) (rest : List Char) :
    scan? (c :: rest) = some (symbol c, rest) := by
  obtain ⟨digit, start, _, _, point⟩ := symbolClasses h
  simp [scan?, noNumber digit point, start, h]

theorem scanFront {token : Token} {rest : List Char} (lexeme : Lexeme token) (stops : Stops rest) :
    scan? (token.text ++ rest) = some (token, rest) := by
  unfold Lexeme scan? at lexeme
  split at lexeme
  · rename_i text after hn
    cases lexeme
    have longer := numberAppend hn stops
    simp only [Token.text] at longer
    simp [scan?, Token.text, longer]
  · split at lexeme
    · contradiction
    · rename_i none c tail ht
      split at lexeme
      · rename_i start
        obtain ⟨word, after, hw⟩ : ∃ word after, tail.span isNameRest = (word, after) := ⟨_, _, rfl⟩
        simp only [hw, Option.some.injEq, Prod.mk.injEq] at lexeme
        obtain ⟨rfl, rfl⟩ := lexeme
        cases ht
        have longer := spanAppend hw stops.notName
        rw [List.nil_append] at longer
        simp only [Token.text, List.cons_append, scan?, noNumberBeforeName start, start, longer,
          if_true]
      · rename_i start
        split at lexeme
        · rename_i isSymbol
          cases lexeme
          exact symbolFront isSymbol rest
        · contradiction

theorem runParts {p : Char → Bool} {cs ds tail : List Char} (h : cs.span p = (ds, tail)) :
    ds ++ tail = cs := by
  rw [List.span_eq_takeWhile_dropWhile] at h
  cases h
  exact List.takeWhile_append_dropWhile

theorem mantissaParts {cs ds tail : List Char} (h : mantissaPart cs = some (ds, tail)) :
    ds ++ tail = cs ∧ ds ≠ [] := by
  unfold mantissaPart at h
  split at h
  · rename_i middle run
    split at h
    · contradiction
    · rename_i fraction after some fractionRun
      cases h
      rw [← runParts run, ← runParts fractionRun]
      simp
  · contradiction
  · rename_i whole middle _ run
    cases h
    have inner : (digitRun middle).1 ++ (digitRun middle).2 = middle := runParts rfl
    rw [← runParts run, List.append_assoc, List.cons_append]
    exact ⟨congrArg (whole ++ '.' :: ·) inner, by simp⟩
  · rename_i some _ run
    cases h
    exact ⟨runParts run, by simpa using some⟩

theorem exponentParts {cs ds tail : List Char} (h : exponentPart cs = (ds, tail)) :
    ds ++ tail = cs := by
  unfold exponentPart at h
  split at h
  · split at h
    · split at h
      · split at h
        · split at h
          · cases h; rfl
          · rename_i run
            cases h
            simp [runParts run]
        · split at h
          · cases h; rfl
          · rename_i run
            cases h
            simp [runParts run]
      · cases h; rfl
    · cases h; rfl
  · cases h; rfl

theorem numberParts {cs ds tail : List Char} (h : numberPart cs = some (ds, tail)) :
    ds ++ tail = cs ∧ ds ≠ [] := by
  simp only [numberPart, Option.map_eq_some_iff] at h
  obtain ⟨⟨mantissa, middle⟩, hm, whole⟩ := h
  obtain ⟨exponent, after, he⟩ : ∃ exponent after, exponentPart middle = (exponent, after) :=
    ⟨_, _, rfl⟩
  simp only [he, Prod.mk.injEq] at whole
  obtain ⟨rfl, rfl⟩ := whole
  obtain ⟨parts, nonempty⟩ := mantissaParts hm
  rw [List.append_assoc, exponentParts he]
  exact ⟨parts, by simp [nonempty]⟩

theorem scanParts {cs rest : List Char} {token : Token} (h : scan? cs = some (token, rest)) :
    token.text ++ rest = cs ∧ token.text ≠ [] := by
  unfold scan? at h
  split at h
  · rename_i text after hn
    cases h
    exact numberParts hn
  · split at h
    · contradiction
    · rename_i c tail none
      split at h
      · obtain ⟨word, after, hw⟩ : ∃ word after, tail.span isNameRest = (word, after) := ⟨_, _, rfl⟩
        simp only [hw, Option.some.injEq, Prod.mk.injEq] at h
        obtain ⟨rfl, rfl⟩ := h
        simp [Token.text, runParts hw]
      · split at h
        · cases h
          simp [Token.text]
        · contradiction

inductive Lexes : List Char → List Token → Prop
  | nil : Lexes [] []
  | cons {cs token rest tokens} (first : scan? (dropBlanks cs) = some (token, rest))
      (others : Lexes rest tokens) : Lexes cs (token :: tokens)

theorem dropBlanksShorter (cs : List Char) : (dropBlanks cs).length ≤ cs.length :=
  (List.dropWhile_suffix _).length_le

theorem scanAllLexes {cs : List Char} {tokens : List Token} (h : Lexes cs tokens) :
    ∀ {steps : Nat} (position : Nat), cs.length ≤ steps →
      scanAll steps position cs = .ok tokens := by
  induction h with
  | nil =>
    intro steps position _
    unfold scanAll
    rfl
  | @cons cs token rest tokens first others ih =>
    intro steps position enough
    obtain ⟨whole, nonempty⟩ := scanParts first
    have shorter := dropBlanksShorter cs
    have positive := List.length_pos_iff.mpr nonempty
    rw [← whole, List.length_append] at shorter
    cases steps with
    | zero => omega
    | succ steps =>
      have tail := ih (position + (cs.length - rest.length)) (show rest.length ≤ steps by omega)
      cases cs with
      | nil => simp only [List.length_nil] at shorter; omega
      | cons c cs => simp only [scanAll, first, tail, okBind, pureIsOk]

theorem lexesScanAll {steps : Nat} : ∀ {position : Nat} {cs : List Char} {tokens : List Token},
    scanAll steps position cs = .ok tokens → Lexes cs tokens := by
  induction steps with
  | zero =>
    intro position cs tokens h
    cases cs with
    | nil =>
      cases h
      exact .nil
    | cons c cs => contradiction
  | succ steps ih =>
    intro position cs tokens h
    cases cs with
    | nil =>
      cases h
      exact .nil
    | cons c cs =>
      simp only [scanAll] at h
      split at h
      · contradiction
      · rename_i first
        simp only [bindOk, pureIsOk] at h
        obtain ⟨others, ho, last⟩ := h
        cases last
        exact .cons first (ih ho)

theorem lexesTokenize {cs : List Char} {tokens : List Token} (h : tokenize cs = .ok tokens) :
    Lexes (dropBlanksRight cs) tokens := by
  simp only [tokenize, bindOk] at h
  obtain ⟨scanned, hs, last⟩ := h
  have lexes := lexesScanAll hs
  split at last
  · contradiction
  · cases last
    exact lexes

structure Scans (text : List Char) (tokens : List Token) : Prop where
  dense : ∀ c ∈ text, isBlank c = false
  lexes : ∀ {rest others}, Stops rest → Lexes rest others → Lexes (text ++ rest) (tokens ++ others)

theorem dropBlanksDense {c : Char} (h : isBlank c = false) (cs : List Char) :
    dropBlanks (c :: cs) = c :: cs := by
  simp [dropBlanks, h]

theorem lexesSymbol {c : Char} (h : isSymbol c) {rest : List Char} {tokens : List Token}
    (others : Lexes rest tokens) : Lexes (c :: rest) (symbol c :: tokens) := by
  refine .cons ?_ others
  rw [dropBlanksDense (symbolClasses h).2.2.2.1, symbolFront h]

theorem Lexeme.scans {token : Token} (lexeme : Lexeme token)
    (dense : ∀ c ∈ token.text, isBlank c = false) : Scans token.text [token] where
  dense := dense
  lexes {rest others} stops h := by
    refine .cons ?_ h
    obtain ⟨_, nonempty⟩ := scanParts lexeme
    cases ht : token.text with
    | nil => contradiction
    | cons c cs =>
      have front := scanFront lexeme stops
      rw [ht] at front
      rw [List.cons_append, dropBlanksDense (dense c (by simp [ht]))]
      exact front

def IsName (cs : List Char) : Prop :=
  ∃ c rest, cs = c :: rest ∧ isNameStart c ∧ ∀ d ∈ rest, isNameRest d

theorem nameScanned {cs rest text : List Char} (h : scan? cs = some (.name text, rest)) :
    IsName text := by
  unfold scan? at h
  split at h
  · cases h
  · split at h
    · contradiction
    · rename_i c tail _
      split at h
      · rename_i start
        rw [List.span_eq_takeWhile_dropWhile] at h
        cases h
        exact ⟨c, _, rfl, start, fun _ inside => List.mem_takeWhile_imp inside⟩
      · split at h <;> cases h

theorem IsName.wordy {cs : List Char} (name : IsName cs) : ∀ c ∈ cs, isNameRest c := by
  obtain ⟨c, rest, rfl, start, others⟩ := name
  intro d inside
  rcases List.mem_cons.mp inside with rfl | inside
  · have start : d.isAlpha ∨ d = '_' := by simpa [isNameStart] using start
    rcases start with letter | rfl
    · simp [isNameRest, Char.isAlphanum, letter]
    · rfl
  · exact others d inside

theorem IsName.dense {cs : List Char} (name : IsName cs) : ∀ c ∈ cs, isBlank c = false := by
  intro d inside
  refine Bool.eq_false_iff.mpr fun blank => ?_
  simpa [name.wordy d inside] using blankNotName blank

theorem IsName.lexeme {cs : List Char} (name : IsName cs) : Lexeme (.name cs) := by
  obtain ⟨c, rest, rfl, start, others⟩ := name
  have whole : rest.span isNameRest = (rest, []) := by
    rw [List.span_eq_takeWhile_dropWhile, List.takeWhile_eq_self_iff.mpr others,
      List.dropWhile_eq_nil_iff.mpr others]
  simp only [Lexeme, scan?, Token.text, noNumberBeforeName start, start, whole, if_true]

theorem IsName.scans {cs : List Char} (name : IsName cs) : Scans cs [.name cs] :=
  name.lexeme.scans name.dense

theorem lexesNames {cs : List Char} {tokens : List Token} (h : Lexes cs tokens) :
    ∀ {text}, .name text ∈ tokens → IsName text := by
  induction h with
  | nil => simp
  | cons first _ ih =>
    intro text inside
    rcases List.mem_cons.mp inside with rfl | inside
    · exact nameScanned first
    · exact ih inside

namespace Scans

variable {c : Char} {left right text : List Char} {ls rs ts : List Token}

theorem before (sym : isSymbol c) (h : Scans text ts) : Scans (c :: text) (symbol c :: ts) where
  dense d inside := by
    rcases List.mem_cons.mp inside with rfl | inside
    · exact (symbolClasses sym).2.2.2.1
    · exact h.dense d inside
  lexes stops others := lexesSymbol sym (h.lexes stops others)

theorem between (sym : isSymbol c) (hl : Scans left ls) (hr : Scans right rs) :
    Scans (left ++ c :: right) (ls ++ symbol c :: rs) where
  dense d inside := by
    rcases List.mem_append.mp inside with inside | inside
    · exact hl.dense d inside
    · exact (hr.before sym).dense d inside
  lexes {rest others} stops h := by
    have tail := (hr.before sym).lexes stops h
    have whole := hl.lexes (stopsSymbol sym (right ++ rest)) tail
    simpa using whole

theorem after (sym : isSymbol c) (h : Scans text ts) : Scans (text ++ [c]) (ts ++ [symbol c]) where
  dense d inside := by
    rcases List.mem_append.mp inside with inside | inside
    · exact h.dense d inside
    · cases List.mem_singleton.mp inside
      exact (symbolClasses sym).2.2.2.1
  lexes {rest others} _ h' := by
    have whole := h.lexes (stopsSymbol sym rest) (lexesSymbol sym h')
    simpa using whole

end Scans

theorem tokenizeScans {text : List Char} {tokens : List Token} (h : Scans text tokens)
    (some : tokens ≠ []) : tokenize text = .ok tokens := by
  have kept : dropBlanksRight text = text := by
    unfold dropBlanksRight
    cases hr : text.reverse with
    | nil => simp_all
    | cons c cs =>
      have last := h.dense c (by rw [← List.mem_reverse, hr]; simp)
      rw [List.dropWhile_cons_of_neg (by simp [last]), ← hr, List.reverse_reverse]
  have whole := h.lexes stopsNil .nil
  rw [List.append_nil, List.append_nil] at whole
  simp only [tokenize, kept, scanAllLexes whole 0 (Nat.le_refl _), okBind]
  cases tokens with
  | nil => contradiction
  | cons token tokens => rfl

end OverlayMotion.Token

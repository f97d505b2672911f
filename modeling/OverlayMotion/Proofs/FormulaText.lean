import OverlayMotion.Proofs.RoundTrip

/-! The characters of formula text. Whatever script the digits of a formula come from and
whatever white space stands between its tokens, its tree is written with few characters of
ASCII, and with parentheses that match. -/
namespace OverlayMotion.Expr
open Token (IsName)

def isFormulaChar (c : Char) : Bool := c.isAlphanum || "_.+-*/^(),".toList.contains c

inductive Balanced : List Char → Prop
  | nil : Balanced []
  | plain {c : Char} : c ≠ '(' → c ≠ ')' → Balanced [c]
  | append {as bs : List Char} : Balanced as → Balanced bs → Balanced (as ++ bs)
  | enclosed {cs : List Char} : Balanced cs → Balanced (parenthesized cs)

structure FormulaText (cs : List Char) : Prop where
  letters : ∀ c ∈ cs, isFormulaChar c
  balanced : Balanced cs

namespace FormulaText
variable {as bs cs : List Char} {c : Char}

theorem nil : FormulaText [] := ⟨nofun, .nil⟩

theorem append (first : FormulaText as) (second : FormulaText bs) : FormulaText (as ++ bs) :=
  ⟨List.forall_mem_append.mpr ⟨first.letters, second.letters⟩,
    first.balanced.append second.balanced⟩

theorem cons (first : FormulaText [c]) (others : FormulaText cs) : FormulaText (c :: cs) :=
  first.append others

theorem plain (letter : isFormulaChar c) (bare : c ≠ '(' ∧ c ≠ ')') : FormulaText [c] :=
  ⟨List.forall_mem_singleton.mpr letter, .plain bare.1 bare.2⟩

theorem each (each : ∀ c ∈ cs, FormulaText [c]) : FormulaText cs := by
  induction cs with
  | nil => exact nil
  | cons c cs ih =>
    obtain ⟨first, others⟩ := List.forall_mem_cons.mp each
    exact first.cons (ih others)

theorem parenthesized (h : FormulaText cs) : FormulaText (parenthesized cs) where
  letters := by
    refine List.forall_mem_cons.mpr ⟨by decide, List.forall_mem_append.mpr ⟨h.letters, ?_⟩⟩
    exact List.forall_mem_singleton.mpr (by decide)
  balanced := h.balanced.enclosed

theorem commaSeparated {texts : List (List Char)} (each : ∀ cs ∈ texts, FormulaText cs) :
    FormulaText (commaSeparated texts) := by
  induction texts with
  | nil => exact nil
  | cons cs rest ih =>
    obtain ⟨first, others⟩ := List.forall_mem_cons.mp each
    cases rest with
    | nil => exact first
    | cons ds rest => exact first.append ((plain rfl (by decide)).cons (ih others))

theorem wordy (h : Token.isNameRest c) : FormulaText [c] := by
  refine plain ?_ ⟨?_, ?_⟩
  · have word : c.isAlphanum ∨ c = '_' := by simpa [Token.isNameRest] using h
    rcases word with letter | rfl
    · simp [isFormulaChar, letter]
    · rfl
  · rintro rfl
    contradiction
  · rintro rfl
    contradiction

theorem name (h : IsName cs) : FormulaText cs := each fun c inside => wordy (h.wordy c inside)

theorem digits (h : ∀ c ∈ cs, c.isDigit) : FormulaText cs := by
  refine each fun c inside => wordy ?_
  simp [Token.isNameRest, Char.isAlphanum, h c inside]

theorem unsigned (h : Decimal.Plain cs) : FormulaText cs := by
  refine each fun c inside => ?_
  rcases h.characters c inside with digit | rfl
  · exact digits (List.forall_mem_singleton.mpr digit)
  · exact plain rfl (by decide)

theorem symbol (op : Operator) : FormulaText [op.symbol] := by
  cases op <;> exact plain rfl (by decide)

theorem applied {texts : List (List Char)} (function : IsName as)
    (each : ∀ cs ∈ texts, FormulaText cs) :
    FormulaText (as ++ Expr.parenthesized (Expr.commaSeparated texts)) :=
  (name function).append (commaSeparated each).parenthesized

end FormulaText

variable {ν : Type} [Number ν]

theorem numeralFormula {v : ν} {text : List Char} (written : numeralText v = .ok text) :
    FormulaText text := by
  obtain ⟨cs, q, plain, -, ⟨rfl, -⟩ | ⟨-, rfl, -⟩⟩ := numeralCases written
  · exact .unsigned plain
  · exact .cons (.plain rfl (by decide)) (.unsigned plain)

omit [Number ν] in
theorem groupedFormula {text : List Char} (h : FormulaText text) (parent : Nat) (onRight : Bool)
    (e : Expr ν) : FormulaText (grouped parent onRight e text) := by
  unfold grouped
  split
  · split
    · exact h.parenthesized
    · exact h
  · exact h

section
variable {rename : String → String}

mutual

theorem printedFormula (keeps : KeepsNames rename) : ∀ {e : Expr ν} {whole : Bool}
    {text : List Char}, Normal e → print rename whole e = .ok text → FormulaText text
  | .const v, whole, _, _, printed => by
    obtain ⟨text, written, same⟩ := bindOk.mp printed
    cases same
    have numeral := numeralFormula written
    split
    · exact numeral
    · exact numeral.parenthesized
  | .var name, _, _, named, printed => by
    cases printed
    exact .name (keeps name named)
  | .neg e, whole, _, normal, printed => by
    obtain ⟨text, inner, same⟩ := bindOk.mp printed
    cases same
    have signed : FormulaText ('-' :: grouped 4 false e text) :=
      .cons (.plain rfl (by decide))
        (groupedFormula (printedFormula keeps normal.2 inner) 4 false e)
    split
    · exact signed
    · exact signed.parenthesized
  | .binary op left right, _, _, normal, printed => by
    obtain ⟨l, first, rest⟩ := bindOk.mp printed
    obtain ⟨r, second, same⟩ := bindOk.mp rest
    cases same
    have before := groupedFormula (printedFormula keeps normal.1 first) op.precedence false left
    have behind := groupedFormula (printedFormula keeps normal.2 second) op.precedence true right
    exact before.append ((FormulaText.symbol op).cons behind)
  | .call function arguments, _, _, normal, printed => by
    obtain ⟨texts, inner, same⟩ := bindOk.mp printed
    cases same
    exact .applied normal.1 (printedAllFormulas keeps normal.2.2 inner)

theorem printedAllFormulas (keeps : KeepsNames rename) : ∀ {es : List (Expr ν)}
    {texts : List (List Char)}, AllNormal es → printAll rename es = .ok texts →
    ∀ cs ∈ texts, FormulaText cs
  | [], _, _, printed => by
    cases printed
    exact nofun
  | e :: es, _, normal, printed => by
    obtain ⟨text, first, rest⟩ := bindOk.mp printed
    obtain ⟨texts, others, same⟩ := bindOk.mp rest
    cases same
    exact List.forall_mem_cons.mpr
      ⟨printedFormula keeps normal.1 first, printedAllFormulas keeps normal.2 others⟩

end

theorem renderedFormula (keeps : KeepsNames rename) {e : Expr ν} {text : String}
    (normal : Normal e) (rendered : renderRenamed rename e = .ok text) :
    FormulaText text.toList := by
  obtain ⟨cs, printed, rfl⟩ := mapOk.mp rendered
  rw [String.toList_ofList]
  exact printedFormula keeps normal printed

end

theorem textFormula {e : Expr ν} {text : String} (normal : Normal e) (written : e.text = .ok text) :
    FormulaText text.toList :=
  renderedFormula keepsNamesId normal (mapErrorOk.mp written)

theorem readNormal (source : String) : Returns Normal (read source : Except _ (Expr ν)) := by
  intro e parsed
  exact (parsedTame (Q := fun _ => True) (fun _ _ => trivial) (mapErrorOk.mp parsed)
    fun _ _ => trivial).normal

theorem finiteDoubleNeg (v : Scalar) (finite : FiniteDouble v) : FiniteDouble (Number.neg v) := by
  obtain ⟨x, d, rfl, decoded⟩ := finite
  exact ⟨-x, _, rfl, by rw [Binary64.decodeNeg, decoded]; rfl⟩

theorem parsedFormula {source : String} {e : Expr Scalar} (parsed : parse source = .ok e)
    (finite : ∀ {tokens text}, Token.tokenize source.toList = .ok tokens →
      .number text ∈ tokens → FiniteDouble (literal text)) :
    ∃ text, render e = .ok text ∧ FormulaText text.toList := by
  have tame : Tame FiniteDouble e := parsedTame finiteDoubleNeg parsed finite
  obtain ⟨text, rendered⟩ : ∃ text, render e = .ok text :=
    renderSucceeds (tame.constants.weaken (fun _ => finiteDoubleWritable) e)
  exact ⟨text, rendered, renderedFormula keepsNamesId tame.normal rendered⟩

end OverlayMotion.Expr

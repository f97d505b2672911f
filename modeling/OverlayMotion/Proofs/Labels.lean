import Mathlib.Data.List.Basic
import OverlayMotion.Graph

/-! What the text of a chain says about its streams: the labels it opens with, which it
reads, and the one it closes with, which it writes. A chain whose labels hold no brackets
and whose first filter does not start with one is read back as it was put together. -/
namespace OverlayMotion.Graph

def leadingLabels : Option (List Char) → List Char → List String
  | none, '[' :: rest => leadingLabels (some []) rest
  | none, _ => []
  | some label, ']' :: rest => String.ofList label.reverse :: leadingLabels none rest
  | some label, c :: rest => leadingLabels (some (c :: label)) rest
  | some _, [] => []

def consumed (filter : String) : List String := leadingLabels none filter.toList

def produced? (filter : String) : Option String :=
  match filter.toList.reverse with
  | ']' :: rest =>
    let label := rest.takeWhile (· ≠ '[')
    if label.length < rest.length then some (String.ofList label.reverse) else none
  | _ => none

def Bare (label : String) : Prop := '[' ∉ label.toList ∧ ']' ∉ label.toList

def Filter.Worded (f : Filter) : Prop := ∃ c rest, f.name.toList = c :: rest ∧ c ≠ '['

def Opens (filters : List Filter) : Prop := filters ≠ [] ∧ ∀ f ∈ filters, f.Worded

theorem leadingOpen (read label rest : List Char) (bare : ']' ∉ label) :
    leadingLabels (some read) (label ++ ']' :: rest) =
      String.ofList (label.reverse ++ read).reverse :: leadingLabels none rest := by
  induction label generalizing read with
  | nil => simp [leadingLabels]
  | cons c cs ih =>
    rw [List.mem_cons, not_or] at bare
    have other : c ≠ ']' := fun same => bare.1 same.symm
    have next : leadingLabels (some read) (c :: (cs ++ ']' :: rest)) =
        leadingLabels (some (c :: read)) (cs ++ ']' :: rest) := by
      rw [leadingLabels]
      exact fun same => other same
    rw [List.cons_append, next, ih (c :: read) bare.2]
    simp

theorem leadingBracketed (label : String) (rest : List Char) (bare : Bare label) :
    leadingLabels none ((bracketed label).toList ++ rest) =
      label :: leadingLabels none rest := by
  have text : (bracketed label).toList ++ rest = '[' :: (label.toList ++ ']' :: rest) := by
    simp [bracketed]
  rw [text, leadingLabels, leadingOpen [] _ _ bare.2]
  simp

theorem leadingAll (labels : List String) (rest : List Char) (bare : ∀ l ∈ labels, Bare l) :
    leadingLabels none ((String.join (labels.map bracketed)).toList ++ rest) =
      labels ++ leadingLabels none rest := by
  induction labels with
  | nil => simp
  | cons l ls ih =>
    have first := bare l (List.mem_cons_self ..)
    have others := ih fun k inside => bare k (List.mem_cons_of_mem _ inside)
    rw [List.map_cons, String.toList_join, List.flatMap_cons, List.append_assoc,
      leadingBracketed l _ first, ← String.toList_join, others, List.cons_append]

theorem leadingNone {c : Char} (rest : List Char) (other : c ≠ '[') :
    leadingLabels none (c :: rest) = [] := by
  rw [leadingLabels]
  intro tail same
  exact other (List.cons.inj same).1

theorem bodyOpens {filters : List Filter} (opens : Opens filters) :
    ∃ c rest, (",".intercalate (filters.map Filter.text)).toList = c :: rest ∧ c ≠ '[' := by
  obtain ⟨nonempty, worded⟩ := opens
  cases filters with
  | nil => exact absurd rfl nonempty
  | cons f fs =>
    obtain ⟨c, name, front, other⟩ := worded f (List.mem_cons_self ..)
    have text : ∃ rest, f.text.toList = c :: rest := by simp [Filter.text, front]
    obtain ⟨rest, starts⟩ := text
    cases fs with
    | nil => exact ⟨c, rest, by simpa using starts, other⟩
    | cons g gs =>
      have text : (",".intercalate ((f :: g :: gs).map Filter.text)).toList =
          c :: (rest ++ ',' :: (",".intercalate ((g :: gs).map Filter.text)).toList) := by
        simp [String.intercalate_cons_cons, starts]
      exact ⟨c, _, text, other⟩

theorem consumedOfText (c : Chain) (opens : Opens c.filters) (bare : ∀ l ∈ c.consumes, Bare l) :
    consumed c.text = c.consumes := by
  obtain ⟨first, rest, body, other⟩ := bodyOpens opens
  rw [consumed, Chain.text, String.toList_append, String.toList_append, List.append_assoc,
    leadingAll _ _ bare, body, List.cons_append, leadingNone _ other, List.append_nil]

theorem producedOfText (c : Chain) (bare : Bare c.produces) :
    produced? c.text = some c.produces := by
  let before := String.join (c.consumes.map bracketed) ++
    ",".intercalate (c.filters.map Filter.text)
  have text : c.text.toList.reverse =
      ']' :: (c.produces.toList.reverse ++ '[' :: before.toList.reverse) := by
    simp [Chain.text, before, bracketed]
  have label : (c.produces.toList.reverse ++ '[' :: before.toList.reverse).takeWhile (· ≠ '[') =
      c.produces.toList.reverse := by
    rw [List.takeWhile_append_of_pos]
    · simp
    · intro k inside
      have other : k ≠ '[' := fun same => bare.1 (by simpa [same] using inside)
      simpa using other
  rw [produced?, text]
  simp only [label]
  simp

inductive Wire
  | picture (input : Nat)
  | sound (input : Nat)
  | prepared (step : Nat)
  | laid (step : Nat)
  | main
  | still
  | video
  | audio
  deriving DecidableEq

namespace Wire

def label : Wire → String
  | picture input => s!"{input}:v"
  | sound input => s!"{input}:a"
  | prepared step => s!"img{step}"
  | laid step => s!"v{step}"
  | main => "main"
  | still => "still"
  | video => "vout"
  | audio => "aout"

def input? : Wire → Option Nat
  | picture input | sound input => some input
  | _ => none

def letters : Wire → String
  | picture _ => ":v"
  | sound _ => ":a"
  | prepared _ => "img"
  | laid _ => "v"
  | main => "main"
  | still => "still"
  | video => "vout"
  | audio => "aout"

def digits : Wire → List Char
  | picture n | sound n | prepared n | laid n => Nat.toDigits 10 n
  | _ => []

theorem digitsFiltered (n : Nat) :
    (Nat.toDigits 10 n).filter Char.isDigit = Nat.toDigits 10 n ∧
      (Nat.toDigits 10 n).filter (!·.isDigit) = [] := by
  have digit : ∀ c ∈ Nat.toDigits 10 n, c.isDigit := fun c inside =>
    Nat.isDigit_of_mem_toDigits (by decide) (by decide) inside
  refine ⟨List.filter_eq_self.mpr digit, List.filter_eq_nil_iff.mpr ?_⟩
  intro c inside
  simp [digit c inside]

theorem labelDigits (w : Wire) : w.label.toList.filter Char.isDigit = w.digits := by
  cases w <;> first
    | rfl
    | simp only [label, digits, toString, String.toList_append, List.filter_append]
      simp [digitsFiltered]

theorem labelLetters (w : Wire) : w.label.toList.filter (!·.isDigit) = w.letters.toList := by
  cases w <;> simp [label, letters, digitsFiltered] <;> rfl

def ofParts? (letters : String) (n : Nat) : Option Wire :=
  match letters with
  | ":v" => some (picture n)
  | ":a" => some (sound n)
  | "img" => some (prepared n)
  | "v" => some (laid n)
  | "main" => some main
  | "still" => some still
  | "vout" => some video
  | "aout" => some audio
  | _ => none

theorem partsReadBack (w : Wire) :
    ofParts? w.letters (Nat.ofDigitChars 10 w.digits 0) = some w := by
  cases w <;> simp [ofParts?, letters, digits]

theorem labelInjective : Function.Injective label := by
  intro a b same
  have digits := congrArg (fun l => l.toList.filter Char.isDigit) same
  have letters := congrArg (fun l => l.toList.filter (!·.isDigit)) same
  simp only [labelDigits, labelLetters, String.toList_inj] at digits letters
  have read := partsReadBack a
  rw [digits, letters, partsReadBack] at read
  exact (Option.some.inj read).symm

theorem labelBare (w : Wire) : Bare w.label := by
  have plain : ∀ c, c.isDigit = false → c ∉ w.letters.toList → c ∉ w.label.toList := by
    intro c letter absent inside
    apply absent
    rw [← labelLetters]
    exact List.mem_filter.mpr ⟨inside, by simp [letter]⟩
  have brackets : '[' ∉ w.letters.toList ∧ ']' ∉ w.letters.toList := by
    cases w <;> simp [letters]
  exact ⟨plain _ (by decide) brackets.1, plain _ (by decide) brackets.2⟩

end Wire

end OverlayMotion.Graph

import Mathlib.Data.List.Basic
import Mathlib.Data.List.TakeWhile
import OverlayMotion.Text.Unicode

/-! Texts without the white space at their ends. What is cut off is white space, and what
stays starts and ends with something else; there is only one such way to cut a text. -/
namespace OverlayMotion.Text

def Blank (cs : List Char) : Prop := ∀ c ∈ cs, isBlank c

def StartsSolid (cs : List Char) : Prop := ∀ c ∈ cs.head?, isBlank c = false

def EndsSolid (cs : List Char) : Prop := ∀ c ∈ cs.getLast?, isBlank c = false

instance : DecidablePred StartsSolid := fun cs =>
  decidable_of_iff (cs.head?.all (!isBlank ·)) (by simp [StartsSolid, Option.all_eq_true])

instance : DecidablePred EndsSolid := fun cs =>
  decidable_of_iff (cs.getLast?.all (!isBlank ·)) (by simp [EndsSolid, Option.all_eq_true])

section
variable {front body back cs : List Char}

theorem Blank.nil : Blank [] := by simp [Blank]

theorem Blank.append (first : Blank front) (last : Blank back) : Blank (front ++ back) := by
  intro c inside
  rcases List.mem_append.mp inside with inside | inside
  · exact first c inside
  · exact last c inside

theorem Blank.filtered (blank : Blank cs) : cs.filter (fun c => !isBlank c) = [] := by
  rw [List.filter_eq_nil_iff]
  intro c inside
  simp [blank c inside]

theorem Blank.reverse (blank : Blank cs) : Blank cs.reverse := fun c inside =>
  blank c (List.mem_reverse.mp inside)

theorem StartsSolid.nil : StartsSolid [] := by simp [StartsSolid]

theorem EndsSolid.nil : EndsSolid [] := by simp [EndsSolid]

theorem StartsSolid.dense (solid : ∀ c ∈ cs, isBlank c = false) : StartsSolid cs :=
  fun c first => solid c (List.mem_of_mem_head? first)

theorem EndsSolid.dense (solid : ∀ c ∈ cs, isBlank c = false) : EndsSolid cs :=
  fun c last => solid c (List.mem_of_mem_getLast? last)

theorem StartsSolid.reverse (solid : EndsSolid cs) : StartsSolid cs.reverse := by
  intro c first
  rw [List.head?_reverse] at first
  exact solid c first

theorem StartsSolid.before (solid : StartsSolid front) (some : front ≠ []) (cs : List Char) :
    StartsSolid (front ++ cs) := by
  cases front with
  | nil => contradiction
  | cons c rest => exact solid

theorem EndsSolid.after (solid : EndsSolid back) (some : back ≠ []) (cs : List Char) :
    EndsSolid (cs ++ back) := by
  intro c last
  rw [List.getLast?_append_of_ne_nil _ some] at last
  exact solid c last

theorem dropBlanksParts (cs : List Char) :
    ∃ front, cs = front ++ dropBlanks cs ∧ Blank front ∧ StartsSolid (dropBlanks cs) := by
  refine ⟨cs.takeWhile isBlank, List.takeWhile_append_dropWhile.symm,
    fun c inside => List.mem_takeWhile_imp inside, fun c first => ?_⟩
  have kept := List.head?_dropWhile_not isBlank cs
  rw [← dropBlanks, Option.mem_def.mp first] at kept
  simpa using kept

theorem dropBlanksAfter (blank : Blank front) (solid : StartsSolid body) :
    dropBlanks (front ++ body) = body := by
  have kept : body.dropWhile isBlank = body := by
    cases body with
    | nil => rfl
    | cons c rest => rw [List.dropWhile_cons_of_neg (by simp [solid c rfl])]
  rw [dropBlanks, List.dropWhile_append_of_pos blank, kept]

theorem dropBlanksRightParts (cs : List Char) :
    ∃ back, cs = dropBlanksRight cs ++ back ∧ Blank back ∧ EndsSolid (dropBlanksRight cs) := by
  obtain ⟨front, parts, blank, solid⟩ := dropBlanksParts cs.reverse
  refine ⟨front.reverse, ?_, blank.reverse, fun c last => ?_⟩
  · rw [dropBlanksRight, ← dropBlanks, ← List.reverse_append, ← parts, List.reverse_reverse]
  · rw [dropBlanksRight, List.getLast?_reverse] at last
    exact solid c last

theorem dropBlanksRightBefore (blank : Blank back) (solid : EndsSolid body) :
    dropBlanksRight (body ++ back) = body := by
  have kept := dropBlanksAfter blank.reverse (StartsSolid.reverse solid)
  rw [dropBlanksRight, List.reverse_append, ← dropBlanks, kept, List.reverse_reverse]

theorem trimParts (cs : List Char) : ∃ front back, cs = front ++ trim cs ++ back ∧
    Blank front ∧ Blank back ∧ StartsSolid (trim cs) ∧ EndsSolid (trim cs) := by
  obtain ⟨front, whole, blankFront, first⟩ := dropBlanksParts cs
  obtain ⟨back, rest, blankBack, last⟩ := dropBlanksRightParts (dropBlanks cs)
  refine ⟨front, back, ?_, blankFront, blankBack, fun c head => ?_, last⟩
  · rw [trim, List.append_assoc, ← rest, ← whole]
  · refine first c ?_
    rw [trim] at head
    rw [rest, List.head?_append, Option.mem_def.mp head]
    rfl

theorem trimBetween (blankFront : Blank front) (blankBack : Blank back)
    (starts : StartsSolid body) (ends : EndsSolid body) : trim (front ++ body ++ back) = body := by
  rcases eq_or_ne body [] with rfl | some
  · have blank := (blankFront.append Blank.nil).append blankBack
    have none : dropBlanks (front ++ [] ++ back) = [] := by
      simpa using dropBlanksAfter blank StartsSolid.nil
    rw [trim, none]
    rfl
  · rw [trim, List.append_assoc, dropBlanksAfter blankFront (starts.before some back),
      dropBlanksRightBefore blankBack ends]

theorem trimEmpty : trim cs = [] ↔ Blank cs := by
  constructor
  · intro empty
    obtain ⟨front, back, parts, blankFront, blankBack, -⟩ := trimParts cs
    rw [empty, List.append_nil] at parts
    exact parts ▸ blankFront.append blankBack
  · intro blank
    simpa using trimBetween blank Blank.nil StartsSolid.nil EndsSolid.nil

theorem trimAround (starts : StartsSolid body) (ends : EndsSolid body) (some : body ≠ [])
    (before after : List Char) :
    trim (before ++ body ++ after) = dropBlanks before ++ body ++ dropBlanksRight after := by
  obtain ⟨front, first, blankFront, firstSolid⟩ := dropBlanksParts before
  obtain ⟨back, last, blankBack, lastSolid⟩ := dropBlanksRightParts after
  have startsSolid : StartsSolid (dropBlanks before ++ body ++ dropBlanksRight after) := by
    cases kept : dropBlanks before with
    | nil => exact starts.before some _
    | cons c rest => exact (kept ▸ firstSolid : StartsSolid (c :: rest))
  have endsSolid : EndsSolid (dropBlanks before ++ body ++ dropBlanksRight after) := by
    rcases eq_or_ne (dropBlanksRight after) [] with none | kept
    · rw [none, List.append_nil]
      exact ends.after some _
    · exact lastSolid.after kept _
  have whole : before ++ body ++ after =
      front ++ (dropBlanks before ++ body ++ dropBlanksRight after) ++ back := by
    calc before ++ body ++ after =
        (front ++ dropBlanks before) ++ body ++ (dropBlanksRight after ++ back) := by
          rw [← first, ← last]
      _ = _ := by simp only [List.append_assoc]
  rw [whole, trimBetween blankFront blankBack startsSolid endsSolid]

end

end OverlayMotion.Text

import Mathlib.Data.List.DropRight
import Mathlib.Data.List.Infix
import OverlayMotion.Proofs.Trimming
import OverlayMotion.Tool

/-! Which lines of a failing tool's output its error shows. Lines with an error word stand for
all the others: the first three distinct ones, stripped, in the order in which they first come.
Only an output without any of them is shown by its end. -/
namespace OverlayMotion

namespace Path
variable {separator : Char}

theorem splitSome (cs : List Char) : splitAt separator cs ≠ [] := by
  cases cs with
  | nil => simp [splitAt]
  | cons c cs =>
    unfold splitAt
    split_ifs
    · simp
    · split <;> simp

theorem splitJoined (cs : List Char) : [separator].intercalate (splitAt separator cs) = cs := by
  induction cs with
  | nil => simp [splitAt]
  | cons c cs ih =>
    cases parts : splitAt separator cs with
    | nil => exact absurd parts (splitSome cs)
    | cons piece pieces =>
      rw [parts] at ih
      rw [splitAt, parts]
      split_ifs with same
      · subst same
        rw [List.intercalate_cons_cons, ih]
        rfl
      · cases pieces with
        | nil => simpa using ih
        | cons second pieces =>
          rw [List.intercalate_cons_cons] at ih ⊢
          simpa using ih

theorem splitApart (cs : List Char) : ∀ piece ∈ splitAt separator cs, separator ∉ piece := by
  induction cs with
  | nil => simp [splitAt]
  | cons c cs ih =>
    unfold splitAt
    split_ifs with same
    · exact List.forall_mem_cons.mpr ⟨by simp, ih⟩
    · split
      · rename_i piece pieces parts
        rw [parts] at ih
        obtain ⟨first, others⟩ := List.forall_mem_cons.mp ih
        refine List.forall_mem_cons.mpr ⟨?_, others⟩
        simpa [eq_comm] using And.intro same first
      · simpa [eq_comm] using same

end Path

namespace Diagnosis
open Text

def Indicates (line : List Char) : Prop := ∃ word ∈ errorWords, word.toList <:+: line

theorem occursIff {pattern line : List Char} : occursIn pattern line ↔ pattern <:+: line := by
  induction line with
  | nil => simp [occursIn]
  | cons c rest ih => rw [List.infix_cons_iff, occursIn, Bool.or_eq_true, ih,
      List.isPrefixOf_iff_prefix]

theorem namesErrorIff {line : List Char} : namesError line ↔ Indicates line := by
  simp only [namesError, List.any_eq_true, occursIff, Indicates]

instance : DecidablePred Indicates := fun _ => decidable_of_iff _ namesErrorIff

theorem wordsSolid : ∀ word ∈ errorWords,
    word.toList ≠ [] ∧ StartsSolid word.toList ∧ EndsSolid word.toList := by decide

theorem Indicates.trimmed {line : List Char} (indicates : Indicates line) :
    Indicates (trim line) := by
  obtain ⟨word, known, before, after, rfl⟩ := indicates
  obtain ⟨some, starts, ends⟩ := wordsSolid word known
  refine ⟨word, known, dropBlanks before, dropBlanksRight after, ?_⟩
  exact (trimAround starts ends some before after).symm

theorem Indicates.some {line : List Char} (indicates : Indicates line) : line ≠ [] := by
  obtain ⟨word, known, inside⟩ := indicates
  rintro rfl
  exact (wordsSolid word known).1 (List.infix_nil.mp inside)

structure FirstOccurrences (xs ys : List (List Char)) : Prop where
  once : ys.Nodup
  members : ∀ x, x ∈ ys ↔ x ∈ xs
  ordered : ys.Pairwise fun x y => xs.idxOf x < xs.idxOf y

theorem distinctNext (xs : List (List Char)) (x : List Char) :
    distinct (xs ++ [x]) = if x ∈ distinct xs then distinct xs else distinct xs ++ [x] := by
  simp [distinct, List.foldl_append]

theorem FirstOccurrences.earlier {xs ys : List (List Char)} (first : FirstOccurrences xs ys)
    (x : List Char) : ys.Pairwise fun y z => (xs ++ [x]).idxOf y < (xs ++ [x]).idxOf z := by
  refine first.ordered.imp_of_mem fun {y z} hy hz before => ?_
  rwa [List.idxOf_append_of_mem ((first.members y).mp hy),
    List.idxOf_append_of_mem ((first.members z).mp hz)]

theorem FirstOccurrences.again {xs ys : List (List Char)} (first : FirstOccurrences xs ys)
    {x : List Char} (seen : x ∈ ys) : FirstOccurrences (xs ++ [x]) ys where
  once := first.once
  members y := by
    have known := (first.members x).mp seen
    rw [List.mem_append, List.mem_singleton, first.members]
    exact ⟨.inl, fun inside => inside.elim id fun same => same ▸ known⟩
  ordered := first.earlier x

theorem FirstOccurrences.next {xs ys : List (List Char)} (first : FirstOccurrences xs ys)
    {x : List Char} (fresh : x ∉ ys) : FirstOccurrences (xs ++ [x]) (ys ++ [x]) where
  once := List.nodup_append.mpr ⟨first.once, by simp,
    fun y old z new same => fresh (List.mem_singleton.mp new ▸ same ▸ old)⟩
  members y := by rw [List.mem_append, List.mem_append, first.members]
  ordered := by
    refine List.pairwise_append.mpr ⟨first.earlier x, List.pairwise_singleton _ x, ?_⟩
    intro y old z last
    rw [List.mem_singleton] at last
    subst last
    have known := (first.members y).mp old
    rw [List.idxOf_append_of_mem known, List.idxOf_append_of_notMem (mt (first.members z).mpr fresh)]
    exact Nat.lt_add_right _ (List.idxOf_lt_length_of_mem known)

theorem distinctFirst (xs : List (List Char)) : FirstOccurrences xs (distinct xs) := by
  induction xs using List.reverseRecOn with
  | nil => exact ⟨List.nodup_nil, by simp [distinct], List.Pairwise.nil⟩
  | append_singleton xs x ih =>
    rw [distinctNext]
    split_ifs with seen
    · exact ih.again seen
    · exact ih.next seen

theorem distinctEmpty {xs : List (List Char)} : distinct xs = [] ↔ xs = [] := by
  simp only [List.eq_nil_iff_forall_not_mem, (distinctFirst xs).members]

def named (output : String) : List (List Char) := ((lines output).filter Indicates).map trim

def ending (output : String) : List (List Char) :=
  (((lines output).rtake 3).map trim).filter fun line => !line.isEmpty

theorem namedIndicates (output : String) : ∀ line ∈ named output, Indicates line := by
  intro line inside
  obtain ⟨given, kept, rfl⟩ := List.mem_map.mp inside
  exact (of_decide_eq_true (List.mem_filter.mp kept).2).trimmed

theorem namedEmpty {output : String} :
    named output = [] ↔ ∀ line ∈ lines output, ¬Indicates line := by
  simp [named]

theorem blankLines {output : String} (blank : Blank output.toList) : lines output = [[]] := by
  rw [lines, trimEmpty.mpr blank, Path.splitAt]

theorem namedSome {output : String} (some : named output ≠ []) : ¬Blank output.toList := by
  intro blank
  refine some (namedEmpty.mpr ?_)
  rw [blankLines blank]
  intro line only indicates
  exact indicates.some (List.mem_singleton.mp only)

theorem endingSome (output : String) : ∀ line ∈ ending output, line ≠ [] := by
  intro line inside
  simpa using (List.mem_filter.mp inside).2

theorem endingShort (output : String) : (ending output).length ≤ 3 := by
  calc (ending output).length ≤ (((lines output).rtake 3).map trim).length :=
        List.length_filter_le _ _
    _ ≤ 3 := by
        rw [List.length_map, List.rtake_eq_reverse_take_reverse, List.length_reverse]
        exact List.length_take_le _ _

theorem relevantLines (output : String) : relevant (lines output) =
    if named output = [] then ending output else distinct (named output) := by
  have same : namesError = fun line => decide (Indicates line) := by
    funext line
    rw [Bool.eq_iff_iff, decide_eq_true_iff, namesErrorIff]
  unfold relevant
  rw [same, ← named]
  split
  · next none =>
    rw [if_pos (distinctEmpty.mp none)]
    rfl
  · next some => rw [if_neg (mt distinctEmpty.mpr some)]

theorem joinedEnds (separator : Char) (before : List (List Char)) (last : List Char) :
    ∃ front, [separator].intercalate (before ++ [last]) = front ++ last ∧
      (front = [] ∨ separator ∈ front.getLast?) := by
  induction before with
  | nil => exact ⟨[], by simp, .inl rfl⟩
  | cons first rest ih =>
    obtain ⟨front, joined, ends⟩ := ih
    refine ⟨first ++ [separator] ++ front, ?_, .inr ?_⟩
    · cases rest with
      | nil => simpa using joined
      | cons second rest =>
        rw [List.cons_append, List.cons_append, List.intercalate_cons_cons, ← List.cons_append,
          joined]
        simp
    · rcases ends with rfl | ends
      · simp
      · rw [List.getLast?_append, Option.mem_def.mp ends]
        rfl

theorem lastLine {output : String} (some : ¬Blank output.toList) :
    ∃ before last, lines output = before ++ [last] ∧ trim last ≠ [] := by
  obtain ⟨before, last, parts⟩ : ∃ before last, lines output = before ++ [last] := by
    rcases List.eq_nil_or_concat (lines output) with none | ⟨before, last, parts⟩
    · exact absurd none (Path.splitSome _)
    · exact ⟨before, last, parts.trans (List.concat_eq_append ..)⟩
  refine ⟨before, last, parts, fun blank => ?_⟩
  rw [trimEmpty] at blank
  obtain ⟨front, joined, ends⟩ := joinedEnds '\n' before last
  have whole : front ++ last = trim output.toList := by
    rw [← joined, ← parts, lines, Path.splitJoined]
  obtain ⟨_, _, _, _, _, _, solid⟩ := trimParts output.toList
  have given : trim output.toList ≠ [] := mt trimEmpty.mp some
  rw [← whole] at solid given
  rcases eq_or_ne last [] with rfl | filled
  · rw [List.append_nil] at solid given
    rcases ends with rfl | ends
    · contradiction
    · cases solid _ ends
  · have final := List.getLast?_eq_getLast_of_ne_nil filled
    have dense := solid (last.getLast filled) (by
      rw [List.getLast?_append_of_ne_nil _ filled, final]
      rfl)
    rw [blank _ (List.getLast_mem filled)] at dense
    cases dense

theorem endingEmpty {output : String} : ending output = [] ↔ Blank output.toList := by
  constructor
  · intro none
    by_contra some
    obtain ⟨before, last, parts, filled⟩ := lastLine some
    have inside : trim last ∈ ending output := by
      refine List.mem_filter.mpr ⟨List.mem_map_of_mem ?_, by simpa using filled⟩
      rw [parts, List.rtake_concat_succ]
      exact List.mem_append_right _ (List.mem_singleton_self last)
    simp [none] at inside
  · intro blank
    rw [ending, blankLines blank]
    decide

theorem joinedEmpty {separator : String} {texts : List String} (some : ∀ text ∈ texts, text ≠ "") :
    separator.intercalate texts = "" ↔ texts = [] := by
  refine ⟨fun empty => ?_, fun none => none ▸ String.intercalate_nil⟩
  cases texts with
  | nil => rfl
  | cons first rest =>
    have given := some first List.mem_cons_self
    cases rest with
    | nil => exact absurd (by simpa using empty) given
    | cons second rest =>
      rw [String.intercalate_cons_cons] at empty
      simp_all

/-- An output is told by its lines with an error word, the first three that differ, and without
any by its last three lines. It is told by nothing only if there is nothing in it. -/
theorem errorLinesShown (output : String) :
    (['\n'].intercalate (lines output) = trim output.toList ∧
      ∀ line ∈ lines output, '\n' ∉ line) ∧
    ∃ shown, ofOutput output = " | ".intercalate (shown.map String.ofList) ∧
      ((∃ line ∈ lines output, Indicates line) →
        (∃ firsts, FirstOccurrences (named output) firsts ∧ shown = firsts.take 3) ∧
          shown.Nodup ∧ ∀ line ∈ shown, Indicates line) ∧
      ((∀ line ∈ lines output, ¬Indicates line) → shown = ending output) ∧
      (ofOutput output = "" ↔ Blank output.toList) := by
  refine ⟨⟨Path.splitJoined _, Path.splitApart _⟩, (relevant (lines output)).take 3, rfl, ?_⟩
  have told {shown : List (List Char)} (same : (relevant (lines output)).take 3 = shown)
      (some : ∀ line ∈ shown, line ≠ []) : ofOutput output = "" ↔ shown = [] := by
    rw [ofOutput, same, joinedEmpty, List.map_eq_nil_iff]
    simpa using some
  rcases eq_or_ne (named output) [] with none | some
  · have same : (relevant (lines output)).take 3 = ending output := by
      rw [relevantLines, if_pos none, List.take_of_length_le (endingShort output)]
    have silent := namedEmpty.mp none
    refine ⟨fun ⟨line, inside, indicates⟩ => absurd indicates (silent line inside),
      fun _ => same, ?_⟩
    rw [told same (endingSome output), endingEmpty]
  · have first := distinctFirst (named output)
    have same : (relevant (lines output)).take 3 = (distinct (named output)).take 3 := by
      rw [relevantLines, if_neg some]
    have indicate : ∀ line ∈ (distinct (named output)).take 3, Indicates line := fun line inside =>
      namedIndicates output line ((first.members line).mp (List.mem_of_mem_take inside))
    rw [same]
    refine ⟨fun _ => ⟨⟨_, first, rfl⟩, first.once.sublist (List.take_sublist _ _), indicate⟩,
      fun silent => absurd (namedEmpty.mpr silent) some, ?_⟩
    rw [told same fun line inside => (indicate line inside).some]
    have filled : (distinct (named output)).take 3 ≠ [] := by
      simpa [List.take_eq_nil_iff, distinctEmpty] using some
    exact iff_of_false filled (namedSome some)

example : ofOutput "x\n Error 1\n\nCannot 2\nError 1 \n" = "Error 1 | Cannot 2" := by decide

end Diagnosis

end OverlayMotion

import OverlayMotion.Text.Spelling

/-! How a shell takes a line apart. A blank ends a word unless it stands between quotes, which
are dropped themselves; a character that a shell gives a meaning to is not read at all. Every
list of words comes back from its line. -/
namespace OverlayMotion.Text

structure Shell where
  words : List (List Char)
  word : Option (List Char)
  quote : Option Char

namespace Shell

def start : Shell := ⟨[], none, none⟩

def push (s : Shell) (cs : List Char) : Shell := { s with word := some (s.word.getD [] ++ cs) }

def ended (s : Shell) : Shell := { s with words := s.words ++ s.word.toList, word := none }

def next (s : Shell) (c : Char) : Option Shell :=
  match s.quote with
  | some q =>
    if c = q then some { s with quote := none }
    else if q = '"' ∧ c ∈ "\\$`".toList then none
    else some (s.push [c])
  | none =>
    if c = ' ' then some s.ended
    else if c = '\'' ∨ c = '"' then some { s.push [] with quote := some c }
    else if isPlainInShell c then some (s.push [c])
    else none

def after (s : Shell) (cs : List Char) : Option Shell := cs.foldlM next s

end Shell

def shellWords? (line : String) : Option (List String) := do
  let s ← Shell.start.after line.toList
  if s.quote.isNone then some (s.ended.words.map String.ofList) else none

namespace Shell

theorem afterAppend (s : Shell) (as bs : List Char) :
    s.after (as ++ bs) = (s.after as).bind (·.after bs) := List.foldlM_append

theorem afterCons (s : Shell) (c : Char) (cs : List Char) :
    s.after (c :: cs) = (s.next c).bind (·.after cs) := List.foldlM_cons

theorem plainMarks {c : Char} (plain : isPlainInShell c) : c ≠ ' ' ∧ ¬ (c = '\'' ∨ c = '"') := by
  constructor
  · intro same
    subst same
    contradiction
  · intro same
    cases same <;> subst c <;> contradiction

theorem plainNext {c : Char} (plain : isPlainInShell c) (words : List (List Char))
    (word : Option (List Char)) :
    next ⟨words, word, none⟩ c = some ⟨words, some (word.getD [] ++ [c]), none⟩ := by
  obtain ⟨blank, mark⟩ := plainMarks plain
  simp only [next, blank, mark, plain, if_true, if_false]
  rfl

theorem plainRead (words : List (List Char)) {cs : List Char} (plain : ∀ c ∈ cs, isPlainInShell c)
    (read : List Char) :
    after ⟨words, some read, none⟩ cs = some ⟨words, some (read ++ cs), none⟩ := by
  induction cs generalizing read with
  | nil => simp [after]
  | cons c cs ih =>
    obtain ⟨first, others⟩ := List.forall_mem_cons.mp plain
    rw [afterCons, plainNext first, Option.bind_some, ih others]
    simp

theorem quotedCharRead (words : List (List Char)) (read : List Char) (c : Char) :
    after ⟨words, some read, some '\''⟩ (shellQuotedChar c) =
      some ⟨words, some (read ++ [c]), some '\''⟩ := by
  by_cases mark : c = '\''
  · subst mark
    simp [shellQuotedChar, after, next, push]
  · simp [shellQuotedChar, mark, after, next, push]

theorem quotedRead (words : List (List Char)) (read cs : List Char) :
    after ⟨words, some read, some '\''⟩ (cs.flatMap shellQuotedChar) =
      some ⟨words, some (read ++ cs), some '\''⟩ := by
  induction cs generalizing read with
  | nil => simp [after]
  | cons c cs ih =>
    rw [List.flatMap_cons, afterAppend, quotedCharRead, Option.bind_some, ih]
    simp

theorem wordRead (words : List (List Char)) (cs : List Char) :
    after ⟨words, none, none⟩ (shellWord cs) = some ⟨words, some cs, none⟩ := by
  unfold shellWord
  split
  · next bare =>
    obtain ⟨given, plain⟩ := Bool.and_eq_true_iff.mp bare
    cases cs with
    | nil => contradiction
    | cons c cs =>
      obtain ⟨first, others⟩ := List.forall_mem_cons.mp (List.all_eq_true.mp plain)
      rw [afterCons, plainNext first, Option.bind_some, plainRead words others]
      rfl
  · have opens : next ⟨words, none, none⟩ '\'' = some ⟨words, some [], some '\''⟩ := rfl
    rw [List.cons_append, afterCons, opens, Option.bind_some, afterAppend, quotedRead,
      Option.bind_some]
    rfl

theorem lineRead (before words : List (List Char)) :
    ∃ s, after ⟨before, none, none⟩ ([' '].intercalate (words.map shellWord)) = some s ∧
      s.quote = none ∧ s.ended.words = before ++ words := by
  induction words generalizing before with
  | nil => exact ⟨_, rfl, rfl, by simp [ended]⟩
  | cons word rest ih =>
    cases rest with
    | nil => exact ⟨_, by simpa using wordRead before word, rfl, rfl⟩
    | cons second rest =>
      obtain ⟨s, read, closed, parted⟩ := ih (before ++ [word])
      have blank : next ⟨before, some word, none⟩ ' ' = some ⟨before ++ [word], none, none⟩ := rfl
      refine ⟨s, ?_, closed, by simpa using parted⟩
      rw [List.map_cons, List.map_cons, List.intercalate_cons_cons, List.append_assoc, afterAppend,
        wordRead, Option.bind_some, List.singleton_append, afterCons, blank, Option.bind_some]
      exact read

end Shell

theorem shellLineRead (words : List String) : shellWords? (shellLine words) = some words := by
  have chars : (shellLine words).toList =
      [' '].intercalate ((words.map String.toList).map shellWord) := by
    simp [shellLine, String.toList_intercalate, Function.comp_def]
  obtain ⟨s, read, closed, parted⟩ := Shell.lineRead [] (words.map String.toList)
  rw [shellWords?, chars, Shell.start, read]
  simp [closed, parted, Function.comp_def]

end OverlayMotion.Text

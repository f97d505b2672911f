import Mathlib.Logic.Function.Basic
import Mathlib.Tactic.SplitIfs
import OverlayMotion.Graph
import OverlayMotion.Job.File

/-! Quoted options as they are read again. A quote opens or closes a quoted part; inside of it
every other character is itself, outside a backslash makes the next one itself, and what was
read loses one level of backslashes. A caption comes back from its option, whose quotes close
where it ends. So does a path, unless it has an apostrophe: that closes the quotes, and the
last quote opens them again for all that stands behind the option. -/
namespace OverlayMotion.Graph

inductive Reader
  | outside
  | inside
  | escaping
  deriving DecidableEq, Repr

structure Mark where
  char : Char
  bare : Bool
  deriving DecidableEq, Repr

namespace Reader

def next : Reader → Char → Reader
  | outside, c => if c = '\'' then inside else if c = '\\' then escaping else outside
  | inside, c => if c = '\'' then outside else inside
  | escaping, _ => outside

def gives : Reader → Char → List Mark
  | outside, c => if c = '\'' ∨ c = '\\' then [] else [⟨c, true⟩]
  | inside, c => if c = '\'' then [] else [⟨c, false⟩]
  | escaping, c => [⟨c, false⟩]

def after (r : Reader) (cs : List Char) : Reader := cs.foldl next r

def marks : Reader → List Char → List Mark
  | _, [] => []
  | r, c :: cs => r.gives c ++ (r.next c).marks cs

theorem afterAppend (r : Reader) (as bs : List Char) :
    r.after (as ++ bs) = (r.after as).after bs := List.foldl_append

theorem marksAppend (r : Reader) (as bs : List Char) :
    r.marks (as ++ bs) = r.marks as ++ (r.after as).marks bs := by
  induction as generalizing r with
  | nil => rfl
  | cons c as ih =>
    rw [List.cons_append, marks, ih, marks, List.append_assoc]
    rfl

end Reader

def unescaped? : List Char → Option (List Char)
  | [] => some []
  | '\\' :: c :: cs => (unescaped? cs).map (c :: ·)
  | ['\\'] => none
  | c :: cs => (unescaped? cs).map (c :: ·)

structure Holds (option meaning : String) : Prop where
  closed : Reader.outside.after option.toList = .outside
  covered : ∀ m ∈ Reader.outside.marks option.toList, m.bare = false
  means : unescaped? ((Reader.outside.marks option.toList).map Mark.char) = some meaning.toList

theorem Holds.once {option first second : String} (one : Holds option first)
    (other : Holds option second) : first = second :=
  String.toList_inj.mp (Option.some.inj (one.means.symm.trans other.means))

structure Covered (written meaning : List Char) : Prop where
  inside : Reader.inside.after written = .inside
  covered : ∀ m ∈ Reader.inside.marks written, m.bare = false
  means : ∀ rest, unescaped? ((Reader.inside.marks written).map Mark.char ++ rest) =
    (unescaped? rest).map (meaning ++ ·)

namespace Covered

theorem nil : Covered [] [] := ⟨rfl, nofun, by simp [Reader.marks]⟩

theorem append {as bs cs ds : List Char} (first : Covered as cs) (second : Covered bs ds) :
    Covered (as ++ bs) (cs ++ ds) where
  inside := by rw [Reader.afterAppend, first.inside, second.inside]
  covered := by
    rw [Reader.marksAppend, first.inside]
    exact List.forall_mem_append.mpr ⟨first.covered, second.covered⟩
  means rest := by
    rw [Reader.marksAppend, first.inside, List.map_append, List.append_assoc, first.means,
      second.means, Option.map_map]
    congr 1
    funext cs'
    simp

theorem each {escape : Char → List Char} {cs : List Char}
    (each : ∀ c ∈ cs, Covered (escape c) [c]) : Covered (cs.flatMap escape) cs := by
  induction cs with
  | nil => exact nil
  | cons c cs ih =>
    obtain ⟨first, others⟩ := List.forall_mem_cons.mp each
    exact first.append (ih others)

end Covered

theorem quotedChars (text : String) :
    (Value.quoted text).text.toList = '\'' :: (text.toList ++ ['\'']) := by
  simp [Value.text]

theorem Covered.quoted {text meaning : String} (covered : Covered text.toList meaning.toList) :
    Holds (Value.quoted text).text meaning := by
  have read : Reader.outside.marks (Value.quoted text).text.toList =
      Reader.inside.marks text.toList := by
    rw [quotedChars]
    change Reader.inside.marks _ = _
    rw [Reader.marksAppend, covered.inside]
    exact List.append_nil _
  refine ⟨?_, read ▸ covered.covered, ?_⟩
  · rw [quotedChars]
    change Reader.inside.after _ = _
    rw [Reader.afterAppend, covered.inside]
    rfl
  · have means := covered.means []
    rw [List.append_nil] at means
    rw [read, means]
    simp [unescaped?]

theorem unescapedPlain {c : Char} (other : c ≠ '\\') (cs : List Char) :
    unescaped? (c :: cs) = (unescaped? cs).map (c :: ·) := by
  cases cs with
  | nil => simp [unescaped?, other]
  | cons d cs => simp [unescaped?, other]

theorem coveredPlain {c : Char} (unquoted : c ≠ '\'') (other : c ≠ '\\') : Covered [c] [c] := by
  have read : Reader.inside.marks [c] = [⟨c, false⟩] := by
    simp [Reader.marks, Reader.gives, unquoted]
  refine ⟨by simp [Reader.after, Reader.next, unquoted], by simp [read], fun rest => ?_⟩
  rw [read]
  exact unescapedPlain other rest

theorem coveredEscaped {c : Char} (unquoted : c ≠ '\'') : Covered ['\\', c] [c] := by
  have read : Reader.inside.marks ['\\', c] = [⟨'\\', false⟩, ⟨c, false⟩] := by
    simp [Reader.marks, Reader.gives, Reader.next, unquoted]
  refine ⟨by simp [Reader.after, Reader.next, unquoted], by simp [read], fun rest => ?_⟩
  rw [read]
  rfl

theorem coveredQuote : Covered ['\'', '\\', '\'', '\''] ['\''] where
  inside := rfl
  covered := by decide
  means rest := unescapedPlain (by decide) rest

theorem escapeTextCovered (c : Char) : Covered (escapeTextChar c) [c] := by
  unfold escapeTextChar
  split_ifs with backslash quote colon percent
  · rw [backslash]
    exact coveredEscaped (by decide)
  · rw [quote]
    exact coveredQuote
  · rw [colon]
    exact coveredEscaped (by decide)
  · rw [percent]
    exact coveredEscaped (by decide)
  · exact coveredPlain quote backslash

theorem escapePathCovered {c : Char} (unquoted : c ≠ '\'') : Covered (escapePathChar c) [c] := by
  unfold escapePathChar
  split_ifs with backslash colon
  · rw [backslash]
    exact coveredEscaped (by decide)
  · rw [colon]
    exact coveredEscaped (by decide)
  · exact coveredPlain unquoted backslash

def replacedInTurn (rules : List (Char × List Char)) (cs : List Char) : List Char :=
  rules.foldl (fun cs (c, value) => Text.replaceAll [c] value cs) cs

theorem replaceAllChar (c : Char) (value cs : List Char) :
    Text.replaceAll [c] value cs = cs.flatMap fun d => if d = c then value else [d] := by
  unfold Text.replaceAll
  induction cs with
  | nil => rfl
  | cons d cs ih =>
    rw [Text.replaceFrom, List.flatMap_cons, ← ih]
    by_cases same : d = c
    · simp [same]
    · simp [same, Ne.symm same]

theorem escapeTextInTurn (s : String) : (escapeText s).toList = replacedInTurn
    [('\\', ['\\', '\\']), ('\'', ['\'', '\\', '\'', '\'']), (':', ['\\', ':']),
      ('%', ['\\', '%'])] s.toList := by
  simp only [escapeText, String.toList_ofList, replacedInTurn, List.foldl_cons, List.foldl_nil,
    replaceAllChar, List.flatMap_assoc]
  congr 1
  funext c
  unfold escapeTextChar
  split_ifs with backslash quote colon percent <;> simp_all

theorem escapePathInTurn (p : Path) : (escapePath p).toList = replacedInTurn
    [('\\', ['\\', '\\']), (':', ['\\', ':']), ('\'', ['\\', '\''])] p.toString.toList := by
  simp only [escapePath, String.toList_ofList, replacedInTurn, List.foldl_cons, List.foldl_nil,
    replaceAllChar, List.flatMap_assoc]
  congr 1
  funext c
  unfold escapePathChar
  split_ifs with backslash colon quote <;> simp_all

/-- Every caption is held by its option, so no two captions are escaped alike. -/
theorem captionHeld : (∀ s : String, Holds (Value.quoted (escapeText s)).text s) ∧
    Function.Injective escapeText := by
  have held (s : String) : Holds (Value.quoted (escapeText s)).text s := by
    refine Covered.quoted ?_
    rw [escapeText, String.toList_ofList]
    exact .each fun c _ => escapeTextCovered c
  refine ⟨held, fun first second same => ?_⟩
  have other := held second
  rw [← same] at other
  exact (held first).once other

example : (Value.quoted (escapeText "It's 10:30")).text = "'It'\\''s 10\\:30'" := by decide

theorem escapePathPassed (c : Char) : Reader.outside.after (escapePathChar c) = .outside := by
  unfold escapePathChar
  split_ifs with backslash colon quote
  · rfl
  · rfl
  · rfl
  · simp [Reader.after, Reader.next, backslash, quote]

theorem outsidePassed {escape : Char → List Char}
    (each : ∀ c, Reader.outside.after (escape c) = .outside) (cs : List Char) :
    Reader.outside.after (cs.flatMap escape) = .outside := by
  induction cs with
  | nil => rfl
  | cons c cs ih => rw [List.flatMap_cons, Reader.afterAppend, each, ih]

theorem apostropheCloses {cs : List Char} (inside : '\'' ∈ cs) :
    Reader.inside.after (cs.flatMap escapePathChar) = .outside := by
  obtain ⟨before, behind, rfl, absent⟩ := List.eq_append_cons_of_mem inside
  have first : Covered (before.flatMap escapePathChar) before :=
    .each fun c here => escapePathCovered fun same => absent (same ▸ here)
  rw [List.flatMap_append, List.flatMap_cons, Reader.afterAppend, Reader.afterAppend, first.inside]
  exact outsidePassed escapePathPassed behind

/-- A path is held by its option exactly if it has no apostrophe. With one, whatever stands
behind the option is read as if it stood inside of the quotes. -/
theorem pathHeldIff (p : Path) :
    let option := (Value.quoted (escapePath p)).text
    let behind : Reader := if '\'' ∈ p.toString.toList then .inside else .outside
    (Holds option p.toString ↔ '\'' ∉ p.toString.toList) ∧
      ∀ rest, Reader.outside.after (option.toList ++ rest) = behind.after rest ∧
        Reader.outside.marks (option.toList ++ rest) =
          Reader.outside.marks option.toList ++ behind.marks rest := by
  intro option behind
  have opened (apostrophe : '\'' ∈ p.toString.toList) : behind = .inside := if_pos apostrophe
  have held (absent : '\'' ∉ p.toString.toList) : Holds option p.toString := by
    refine Covered.quoted ?_
    rw [escapePath, String.toList_ofList]
    exact .each fun c here => escapePathCovered fun same => absent (same ▸ here)
  have ends : Reader.outside.after option.toList = behind := by
    by_cases apostrophe : '\'' ∈ p.toString.toList
    · rw [opened apostrophe, quotedChars, escapePath, String.toList_ofList]
      change Reader.inside.after _ = _
      rw [Reader.afterAppend, apostropheCloses apostrophe]
      rfl
    · exact (held apostrophe).closed.trans (if_neg apostrophe).symm
  refine ⟨⟨fun holds apostrophe => ?_, held⟩, fun rest => ?_⟩
  · have closed := ends.symm.trans holds.closed
    rw [opened apostrophe] at closed
    cases closed
  · rw [Reader.afterAppend, Reader.marksAppend, ends]
    exact ⟨rfl, rfl⟩

example :
    Reader.outside.after (Value.quoted (escapePath ⟨0, ["it's.ttf"]⟩)).text.toList = .inside := by
  decide

end OverlayMotion.Graph

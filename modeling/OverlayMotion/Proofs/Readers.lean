import Mathlib.Data.List.Infix
import Mathlib.Data.List.TakeWhile
import OverlayMotion.Datum.Toml
import OverlayMotion.Proofs.Outcome

/-! What readers of documents leave. Each gives back an end of the text that it was given, and
complains of a long integer only where there is one. -/
namespace OverlayMotion

def Overlong (cs : List Char) : Prop :=
  ∃ run, run <:+: cs ∧ (∀ c ∈ run, c.isDigit ∨ c = '_') ∧ digitLimit < run.countP Char.isDigit

theorem Overlong.mono {as bs : List Char} (inside : as <:+: bs) (long : Overlong as) :
    Overlong bs := by
  obtain ⟨run, among, digits, many⟩ := long
  exact ⟨run, among.trans inside, digits, many⟩

def Reads {α : Type} (left : α → List Char) (cs : List Char) : Except Unreadable α → Prop
  | .ok a => left a <:+ cs
  | .error .integerTooLong => Overlong cs
  | .error .malformed => True

namespace Reads
variable {α β : Type} {left : α → List Char} {after : β → List Char} {as bs cs : List Char}

theorem mono {x : Except Unreadable α} (part : as <:+ bs) (read : Reads left as x) :
    Reads left bs x := by
  cases x with
  | ok a => exact List.IsSuffix.trans read part
  | error e =>
    cases e with
    | malformed => trivial
    | integerTooLong => exact Overlong.mono part.isInfix read

theorem ahead {c : Char} {x : Except Unreadable α} (read : Reads left cs x) :
    Reads left (c :: cs) x := read.mono (List.suffix_cons c cs)

theorem bind {x : Except Unreadable α} {f : α → Except Unreadable β} (first : Reads left cs x)
    (next : ∀ a, Reads after (left a) (f a)) : Reads after cs (x >>= f) := by
  cases x with
  | ok a => exact (next a).mono first
  | error e => cases e <;> exact first

theorem step {x : Except Unreadable α} {f : α → Except Unreadable β}
    (quiet : FailsAs (· = .malformed) x) (next : ∀ a, Reads after cs (f a)) :
    Reads after cs (x >>= f) := by
  cases x with
  | ok a => exact next a
  | error e =>
    rw [quiet e rfl]
    trivial

end Reads

def Finds {α : Type} (left : α → List Char) (cs : List Char) (found : Option α) : Prop :=
  ∀ a ∈ found, left a <:+ cs

namespace Finds
variable {α β : Type} {left : α → List Char} {after : β → List Char} {as bs cs : List Char}

theorem nothing : Finds left cs none := nofun

theorem found {a : α} (part : left a <:+ cs) : Finds left cs (some a) := by
  intro _ same
  cases same
  exact part

theorem mono {o : Option α} (part : as <:+ bs) (finds : Finds left as o) : Finds left bs o :=
  fun a among => (finds a among).trans part

theorem bind {o : Option α} {f : α → Option β} (first : Finds left cs o)
    (next : ∀ a, Finds after (left a) (f a)) : Finds after cs (o >>= f) := by
  cases o with
  | none => exact nothing
  | some a => exact (next a).mono (first a rfl)

theorem step {o : Option α} {f : α → Option β} (next : ∀ a, Finds after cs (f a)) :
    Finds after cs (o >>= f) := by
  cases o with
  | none => exact nothing
  | some a => exact next a

end Finds

theorem behind {p : Char → Bool} {c : Char} {cs rest : List Char}
    (found : cs.dropWhile p = c :: rest) : rest <:+ cs :=
  (List.suffix_cons c rest).trans (found ▸ List.dropWhile_suffix p)

theorem spanLeaves {p : Char → Bool} {cs run rest : List Char} (found : cs.span p = (run, rest)) :
    rest <:+ cs := by
  rw [List.span_eq_takeWhile_dropWhile] at found
  cases found
  exact List.dropWhile_suffix p

namespace Json

theorem stringUnitsFinds (cs : List Char) : Finds Prod.snd cs (stringUnits cs) := by
  fun_induction stringUnits cs with
  | case1 rest => exact .found (List.suffix_cons _ _)
  | case2 a b c d rest ih =>
    refine .step fun unit => Finds.bind (Finds.mono ?_ ih) fun (units, after) => ?_
    · exact ⟨['\\', 'u', a, b, c, d], rfl⟩
    · exact .found List.suffix_rfl
  | case3 c rest _ ih =>
    refine .step fun plain => Finds.bind (Finds.mono ?_ ih) fun (units, after) => ?_
    · exact ⟨['\\', c], rfl⟩
    · exact .found List.suffix_rfl
  | case4 => exact .nothing
  | case5 c rest _ _ _ _ ih =>
    exact Finds.bind (ih.mono (List.suffix_cons _ _)) fun (units, after) => .found List.suffix_rfl
  | case6 => exact .nothing

theorem readStringFinds (cs : List Char) : Finds Prod.snd cs (readString cs) :=
  (stringUnitsFinds cs).bind fun (_, _) => .found List.suffix_rfl

theorem fractionLeaves (cs : List Char) : (fractionPart cs).2 <:+ cs := by
  unfold fractionPart
  split
  · split
    · exact List.suffix_rfl
    · next run => exact (spanLeaves run).trans (List.suffix_cons _ _)
  · exact List.suffix_rfl

theorem exponentLeaves (cs : List Char) : (exponentPart cs).2 <:+ cs := by
  unfold exponentPart
  split
  · split
    · dsimp only
      split
      · exact List.suffix_rfl
      · next run =>
        refine ((spanLeaves run).trans ?_).trans (List.suffix_cons _ _)
        split
        · exact List.suffix_cons _ _
        · exact List.suffix_cons _ _
        · exact List.suffix_rfl
    · exact List.suffix_rfl
  · exact List.suffix_rfl

theorem runOverlong {cs : List Char} (many : digitLimit < (cs.takeWhile Char.isDigit).length) :
    Overlong cs := by
  refine ⟨cs.takeWhile Char.isDigit, (List.takeWhile_prefix _).isInfix, ?_, ?_⟩
  · exact fun c among => .inl (List.mem_takeWhile_imp among)
  · rwa [List.countP_eq_length.mpr fun c among => List.mem_takeWhile_imp among]

theorem readNumberReads (negative : Bool) (cs : List Char) :
    Reads Prod.snd cs (readNumber negative cs) := by
  unfold readNumber
  split
  next whole rest parted =>
    have known : rest <:+ cs ∧ (digitLimit < whole.length → Overlong cs) := by
      split at parted
      · cases parted
        exact ⟨List.suffix_cons _ _, fun many => absurd many (by decide)⟩
      · refine ⟨spanLeaves parted, fun many => runOverlong ?_⟩
        rw [digitRun, List.span_eq_takeWhile_dropWhile] at parted
        cases parted
        exact many
    have left := (exponentLeaves _).trans ((fractionLeaves rest).trans known.1)
    dsimp only
    split
    · trivial
    · split
      · split
        · next many => exact known.2 many
        · exact left
      · exact left

theorem afterFinds (word : String) (cs : List Char) : Finds id cs (after? word cs) := by
  unfold after?
  split
  · exact .found (List.drop_suffix _ _)
  · exact .nothing

theorem namedFinds (names : List (String × Datum)) (cs : List Char) :
    Finds Prod.snd cs (names.findSome? fun (name, d) =>
      (after? name cs).map fun rest => (d, rest)) := by
  intro found among
  obtain ⟨_, ⟨name, d⟩, _, _, made, _⟩ := List.findSome?_eq_some_iff.mp among
  obtain ⟨rest, left, same⟩ := Option.map_eq_some_iff.mp made
  cases same
  exact afterFinds name cs rest left

theorem skipLeaves (cs : List Char) : skip cs <:+ cs := List.dropWhile_suffix _

section
variable {n : Nat} (values : ∀ cs, Reads Prod.snd cs (readValue n cs))
  (items : ∀ cs, Reads Prod.snd cs (readItems n cs))
  (entries : ∀ before cs, Reads Prod.snd cs (readEntries n before cs))

include items entries in
theorem valueReads (cs : List Char) : Reads Prod.snd cs (readValue (n + 1) cs) := by
  unfold readValue
  split
  · next found named => exact namedFinds namedValues cs found named
  · split
    · next rest _ =>
      split
      · next found read =>
        exact (readStringFinds rest found read).trans (List.suffix_cons _ _)
      · trivial
    · next rest _ =>
      split
      · next closed => exact (behind closed).trans (List.suffix_cons _ _)
      · exact .ahead (.mono (skipLeaves rest) ((items _).bind fun (_, _) => List.suffix_rfl))
    · next rest _ =>
      split
      · next closed => exact (behind closed).trans (List.suffix_cons _ _)
      · exact .ahead (.mono (skipLeaves rest) ((entries _ _).bind fun (_, _) => List.suffix_rfl))
    · next rest _ => exact .ahead (readNumberReads true rest)
    · exact readNumberReads false cs

include values items in
theorem itemsReads (cs : List Char) : Reads Prod.snd cs (readItems (n + 1) cs) := by
  unfold readItems
  refine (values cs).bind fun (item, rest) => ?_
  dsimp only
  split
  · next more =>
    refine .mono ((skipLeaves _).trans (behind more)) ?_
    exact (items _).bind fun (_, _) => List.suffix_rfl
  · next closed => exact behind closed
  · trivial

include values entries in
theorem entriesReads (before : Table) (cs : List Char) :
    Reads Prod.snd cs (readEntries (n + 1) before cs) := by
  unfold readEntries
  split
  · contradiction
  · next cs same =>
    cases same
    split
    · trivial
    · next key rest named =>
      have left := (readStringFinds cs _ named).trans (List.suffix_cons '"' cs)
      split
      · next given =>
        refine .mono ((skipLeaves _).trans ((behind given).trans left)) ?_
        refine (values _).bind fun (value, rest) => ?_
        dsimp only
        split
        · next more => exact .mono ((skipLeaves _).trans (behind more)) (entries _ _)
        · next closed => exact behind closed
        · trivial
      · trivial
  · trivial

end

theorem valuesRead (n : Nat) :
    (∀ cs, Reads Prod.snd cs (readValue n cs)) ∧ (∀ cs, Reads Prod.snd cs (readItems n cs)) ∧
      ∀ before cs, Reads Prod.snd cs (readEntries n before cs) := by
  induction n with
  | zero => exact ⟨fun _ => trivial, fun _ => trivial, fun _ _ => trivial⟩
  | succ n ih =>
    obtain ⟨values, items, entries⟩ := ih
    exact ⟨valueReads items entries, itemsReads values items, entriesReads values entries⟩

theorem readOverlong {source : List Char} (refused : read source = .error .integerTooLong) :
    Overlong source := by
  have reads : Reads (fun _ => []) source (read source) := by
    refine .mono (skipLeaves source) (((valuesRead _).1 _).bind fun (value, rest) => ?_)
    dsimp only
    split
    · exact List.nil_suffix
    · trivial
  rwa [refused] at reads

end Json

end OverlayMotion

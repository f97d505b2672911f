import Mathlib.Data.List.Induction
import Mathlib.Data.List.Nodup
import OverlayMotion.Job.File

/-! What filling a template does. A template is taken to pieces, once and for all names:
characters, and slots for the names in braces. Each name by itself goes into all of its
slots and nowhere else. One after another the names fill the slots of the template as if all
were filled at once, exactly as long as no value, with what stands around it, makes up a slot
for a name that is still to come. -/
namespace OverlayMotion.Text

inductive Piece
  | char (c : Char)
  | slot (name : String)
  deriving DecidableEq

def closed? : List Piece → Option (List Char × List Piece)
  | .char c :: ps =>
    if c = '\x7d' then some ([], ps)
    else if c = '\x7b' then none
    else (closed? ps).map fun (word, rest) => (c :: word, rest)
  | _ => none

def opened (ps : List Piece) : List Piece :=
  match closed? ps with
  | some (word, rest) => .slot (String.ofList word) :: rest
  | none => .char '\x7b' :: ps

def pieces : List Char → List Piece
  | [] => []
  | c :: cs => if c = '\x7b' then opened (pieces cs) else .char c :: pieces cs

def Braceless (word : List Char) : Prop := ∀ c ∈ word, c ≠ '\x7b' ∧ c ≠ '\x7d'

def Piece.text (values : List (String × String)) : Piece → List Char
  | .char c => [c]
  | .slot name => match values.lookup name with
    | some value => value.toList
    | none => placeholder name

def filled (values : List (String × String)) (ps : List Piece) : List Char :=
  ps.flatMap (Piece.text values)

def simultaneous (values : List (String × String)) (template : String) : String :=
  String.ofList (filled values (pieces template.toList))

section
variable {values before : List (String × String)} {name : String} {value word cs : List Char}
  {ps qs : List Piece}

@[simp] theorem filledChar (c : Char) (ps : List Piece) :
    filled values (.char c :: ps) = c :: filled values ps := rfl

theorem filledAppend (ps qs : List Piece) :
    filled values (ps ++ qs) = filled values ps ++ filled values qs := List.flatMap_append

@[simp] theorem filledWord (word : List Char) : filled values (word.map .char) = word := by
  induction word with
  | nil => rfl
  | cons c cs ih => rw [List.map_cons, filledChar, ih]

theorem filledSlot (ps : List Piece) (absent : values.lookup name = none) :
    filled values (.slot name :: ps) = placeholder name ++ filled values ps := by
  rw [filled, List.flatMap_cons, Piece.text, absent]
  rfl

theorem filledValue {value : String} (ps : List Piece) (given : values.lookup name = some value) :
    filled values (.slot name :: ps) = value.toList ++ filled values ps := by
  rw [filled, List.flatMap_cons, Piece.text, given]
  rfl

theorem piecesChar {c : Char} (other : c ≠ '\x7b') (cs : List Char) :
    pieces (c :: cs) = .char c :: pieces cs := by
  rw [pieces, if_neg other]

theorem piecesBrace (cs : List Char) : pieces ('\x7b' :: cs) = opened (pieces cs) := by
  rw [pieces, if_pos rfl]

theorem piecesWord (plain : ∀ c ∈ word, c ≠ '\x7b') (cs : List Char) :
    pieces (word ++ cs) = word.map .char ++ pieces cs := by
  induction word with
  | nil => rfl
  | cons c word ih =>
    obtain ⟨first, others⟩ := List.forall_mem_cons.mp plain
    rw [List.cons_append, piecesChar first, ih others]
    rfl

theorem closedWord (braceless : Braceless word) (ps : List Piece) :
    closed? (word.map .char ++ .char '\x7d' :: ps) = some (word, ps) := by
  induction word with
  | nil => rfl
  | cons c word ih =>
    obtain ⟨first, others⟩ := List.forall_mem_cons.mp braceless
    rw [List.map_cons, List.cons_append, closed?, if_neg first.2, if_neg first.1, ih others]
    rfl

theorem closedGiven {rest : List Piece} (closed : closed? ps = some (word, rest)) :
    ps = word.map .char ++ .char '\x7d' :: rest ∧ Braceless word := by
  induction ps generalizing word with
  | nil => cases closed
  | cons p ps ih =>
    cases p with
    | slot name => cases closed
    | char c =>
      rw [closed?] at closed
      split_ifs at closed with closing opening
      · cases closed
        exact ⟨by rw [closing]; rfl, nofun⟩
      · obtain ⟨⟨word', rest'⟩, closed', same⟩ := Option.map_eq_some_iff.mp closed
        cases same
        obtain ⟨rfl, braceless⟩ := ih closed'
        exact ⟨rfl, List.forall_mem_cons.mpr ⟨⟨opening, closing⟩, braceless⟩⟩

theorem closedAppend (ps qs : List Piece) (name : String) :
    closed? (ps ++ .slot name :: qs) =
      (closed? ps).map fun (word, rest) => (word, rest ++ .slot name :: qs) := by
  induction ps with
  | nil => rfl
  | cons p ps ih =>
    cases p with
    | slot name => rfl
    | char c =>
      simp only [List.cons_append, closed?, ih]
      split_ifs
      · rfl
      · rfl
      · cases closed? ps <;> rfl

theorem openedAppend (ps qs : List Piece) (name : String) :
    opened (ps ++ .slot name :: qs) = opened ps ++ .slot name :: qs := by
  unfold opened
  rw [closedAppend]
  cases closed? ps <;> rfl

theorem piecesSlot (braceless : Braceless name.toList) (cs : List Char) :
    pieces (placeholder name ++ cs) = .slot name :: pieces cs := by
  have spelled : placeholder name ++ cs = '\x7b' :: (name.toList ++ '\x7d' :: cs) := by
    simp [placeholder]
  have plain : ∀ c ∈ name.toList, c ≠ '\x7b' := fun c inside => (braceless c inside).1
  rw [spelled, piecesBrace, piecesWord plain, piecesChar (by decide), opened,
    closedWord braceless]
  simp only [String.ofList_toList]

theorem piecesSplit (braceless : Braceless name.toList) (us ws : List Char) :
    pieces (us ++ placeholder name ++ ws) = pieces us ++ .slot name :: pieces ws := by
  induction us with
  | nil => exact piecesSlot braceless ws
  | cons c us ih =>
    rw [List.cons_append, List.cons_append]
    by_cases brace : c = '\x7b'
    · rw [brace, piecesBrace, piecesBrace, ih, openedAppend]
    · rw [piecesChar brace, piecesChar brace, ih, List.cons_append]

theorem filledOpened
    (absent : ∀ name rest, opened ps = .slot name :: rest → values.lookup name = none) :
    filled values (opened ps) = '\x7b' :: filled values ps := by
  cases closed : closed? ps with
  | none =>
    rw [opened, closed]
    rfl
  | some found =>
    obtain ⟨word, rest⟩ := found
    have slot : opened ps = .slot (String.ofList word) :: rest := by rw [opened, closed]
    rw [slot, filledSlot rest (absent _ _ slot), (closedGiven closed).1, filledAppend, filledWord]
    simp [placeholder]

theorem piecesRead (cs : List Char) : filled [] (pieces cs) = cs := by
  induction cs with
  | nil => rfl
  | cons c cs ih =>
    by_cases brace : c = '\x7b'
    · rw [brace, piecesBrace, filledOpened fun _ _ _ => rfl, ih]
    · rw [piecesChar brace, filledChar, ih]

theorem replaceFromPassed (pattern value passed cs : List Char) :
    replaceFrom pattern value passed.length (passed ++ cs) = replaceFrom pattern value 0 cs := by
  induction passed with
  | nil => rfl
  | cons c passed ih => exact ih

theorem replaceAllFound (value cs : List Char) : replaceAll (placeholder name) value
    (placeholder name ++ cs) = value ++ replaceAll (placeholder name) value cs := by
  have found : (placeholder name).isPrefixOf (placeholder name ++ cs) = true :=
    List.isPrefixOf_iff_prefix.mpr (List.prefix_append _ _)
  have spelled : placeholder name ++ cs = '\x7b' :: (name.toList ++ ['\x7d'] ++ cs) := rfl
  have length : (placeholder name).length - 1 = (name.toList ++ ['\x7d']).length := rfl
  rw [spelled] at found ⊢
  rw [replaceAll, replaceFrom, if_pos found, length, replaceFromPassed]
  rfl

theorem replaceAllPassed {c : Char} (other : (placeholder name).isPrefixOf (c :: cs) = false) :
    replaceAll (placeholder name) value (c :: cs) =
      c :: replaceAll (placeholder name) value cs := by
  rw [replaceAll, replaceFrom, if_neg (Bool.eq_false_iff.mp other)]
  rfl

theorem lookupOther {other : String} (value : String) (differs : other ≠ name) :
    [(name, value)].lookup other = none := by
  refine List.lookup_eq_none_iff.mpr fun p inside => ?_
  rw [List.mem_singleton.mp inside, bne_iff_ne]
  exact differs

theorem replaceAllFills (braceless : Braceless name.toList) (value : String) (cs : List Char) :
    replaceAll (placeholder name) value.toList cs = filled [(name, value)] (pieces cs) := by
  -- A placeholder is passed over as a whole, so the induction is on the length.
  induction length : cs.length using Nat.strongRecOn generalizing cs with
  | ind n ih =>
    subst length
    cases stands : (placeholder name).isPrefixOf cs with
    | true =>
      obtain ⟨rest, rfl⟩ := List.isPrefixOf_iff_prefix.mp stands
      have shorter : rest.length < (placeholder name ++ rest).length := by
        simp only [placeholder, List.length_append, List.length_cons]
        omega
      rw [replaceAllFound, ih _ shorter rest rfl, piecesSlot braceless,
        filledValue _ (List.lookup_cons_self)]
    | false =>
      cases cs with
      | nil => rfl
      | cons c rest =>
        rw [replaceAllPassed stands, ih _ (Nat.lt_succ_self _) rest rfl]
        by_cases brace : c = '\x7b'
        · subst brace
          rw [piecesBrace, filledOpened]
          intro other behind opens
          have spelled : '\x7b' :: rest = placeholder other ++ filled [] behind := by
            rw [← filledSlot behind rfl, ← opens, filledOpened fun _ _ _ => rfl, piecesRead]
          refine lookupOther value ?_
          rintro rfl
          rw [spelled] at stands
          exact absurd (List.isPrefixOf_iff_prefix.mpr (List.prefix_append _ _))
            (Bool.eq_false_iff.mp stands)
        · rw [piecesChar brace, filledChar]

end

theorem slotInduction {P : List Piece → Prop} (name : String)
    (none : ∀ ps, .slot name ∉ ps → P ps)
    (more : ∀ qs rs, .slot name ∉ qs → P rs → P (qs ++ .slot name :: rs)) (ps : List Piece) :
    P ps := by
  induction length : ps.length using Nat.strongRecOn generalizing ps with
  | ind n ih =>
    subst length
    by_cases inside : .slot name ∈ ps
    · obtain ⟨qs, rs, rfl, absent⟩ := List.eq_append_cons_of_mem inside
      have shorter : rs.length < (qs ++ .slot name :: rs).length := by
        simp only [List.length_append, List.length_cons]
        omega
      exact more qs rs absent (ih _ shorter rs rfl)
    · exact none ps inside

def slots (name : String) (cs : List Char) : Nat := (pieces cs).count (.slot name)

section
variable {before : List (String × String)} {name : String} {value : String} {ps : List Piece}

theorem unlistedYet (name : String) : ([] : List (String × String)).lookup name = none := rfl

theorem textOther {p : Piece} (differs : p ≠ .slot name) :
    p.text (before ++ [(name, value)]) = p.text before := by
  cases p with
  | char c => rfl
  | slot other =>
    have last := lookupOther value fun same => differs (congrArg Piece.slot same)
    rw [Piece.text, Piece.text, List.lookup_append, last, Option.or_none]

theorem textNext (unlisted : before.lookup name = none) :
    (Piece.slot name).text (before ++ [(name, value)]) = value.toList := by
  rw [Piece.text, List.lookup_append, unlisted, Option.none_or, List.lookup_cons_self]

theorem filledAbsent (before : List (String × String)) (absent : .slot name ∉ ps) :
    filled (before ++ [(name, value)]) ps = filled before ps := by
  refine List.flatMap_congr fun p inside => textOther ?_
  rintro rfl
  exact absent inside

theorem filledOwn (own : value.toList = placeholder name) (unlisted : before.lookup name = none)
    (ps : List Piece) : filled (before ++ [(name, value)]) ps = filled before ps := by
  refine List.flatMap_congr fun p _ => ?_
  by_cases same : p = .slot name
  · rw [same, textNext unlisted, own, Piece.text, unlisted]
  · exact textOther same

theorem filledNext (unlisted : before.lookup name = none) (ps : List Piece) :
    filled (before ++ [(name, value)]) (.slot name :: ps) =
      value.toList ++ filled (before ++ [(name, value)]) ps := by
  rw [filled, List.flatMap_cons, textNext unlisted]
  rfl

theorem filledSplit (unlisted : before.lookup name = none) (qs rs : List Piece) :
    filled before (qs ++ .slot name :: rs) =
      filled before qs ++ placeholder name ++ filled before rs := by
  rw [filledAppend, filledSlot rs unlisted, List.append_assoc]

theorem slotsSplit (unlisted : before.lookup name = none) (braceless : Braceless name.toList)
    (qs rs : List Piece) : slots name (filled before (qs ++ .slot name :: rs)) =
      slots name (filled before qs) + (slots name (filled before rs) + 1) := by
  rw [slots, filledSplit unlisted, piecesSplit braceless, List.count_append, List.count_cons_self]
  rfl

theorem fewestSlots (unlisted : before.lookup name = none) (braceless : Braceless name.toList)
    (ps : List Piece) : ps.count (.slot name) ≤ slots name (filled before ps) := by
  induction ps using slotInduction name with
  | none ps absent =>
    rw [List.count_eq_zero_of_not_mem absent]
    exact Nat.zero_le _
  | more qs rs absent ih =>
    rw [slotsSplit unlisted braceless, List.count_append, List.count_eq_zero_of_not_mem absent,
      List.count_cons_self]
    omega

theorem filledOnce (absent : slots name cs = 0) :
    filled [(name, value)] (pieces cs) = cs := by
  have none : .slot name ∉ pieces cs := List.count_eq_zero.mp absent
  exact (filledAbsent [] none).trans (piecesRead cs)

theorem stepFilled (unlisted : before.lookup name = none) (braceless : Braceless name.toList)
    (same : slots name (filled before ps) = ps.count (.slot name)) :
    filled [(name, value)] (pieces (filled before ps)) = filled (before ++ [(name, value)]) ps := by
  induction ps using slotInduction name with
  | none ps absent =>
    rw [List.count_eq_zero_of_not_mem absent] at same
    rw [filledOnce same, filledAbsent before absent]
  | more qs rs absent ih =>
    have least := fewestSlots unlisted braceless rs
    rw [slotsSplit unlisted braceless, List.count_append, List.count_eq_zero_of_not_mem absent,
      List.count_cons_self] at same
    rw [filledSplit unlisted, piecesSplit braceless, filledAppend, filledAppend,
      filledNext unlisted, filledAbsent before absent, filledOnce (by omega),
      ← ih (by omega)]
    exact congrArg _ (filledNext (unlistedYet name) _)

theorem filledLength (value : String) (unlisted : before.lookup name = none) (ps : List Piece) :
    (filled (before ++ [(name, value)]) ps).length +
        ps.count (.slot name) * (placeholder name).length =
      (filled before ps).length + ps.count (.slot name) * value.toList.length := by
  induction ps using slotInduction name with
  | none ps absent =>
    rw [filledAbsent before absent, List.count_eq_zero_of_not_mem absent, Nat.zero_mul, Nat.zero_mul]
  | more qs rs absent ih =>
    simp only [filledAppend, filledNext unlisted, filledAbsent before absent, filledSlot rs unlisted,
      List.length_append, List.count_append, List.count_eq_zero_of_not_mem absent,
      List.count_cons_self, Nat.zero_add, Nat.add_mul, Nat.one_mul]
    omega

section
variable (long : value.toList.length = (placeholder name).length)
include long

theorem keptLength (unlisted : before.lookup name = none) (ps : List Piece) :
    (filled (before ++ [(name, value)]) ps).length = (filled before ps).length := by
  have lengths := filledLength value unlisted ps
  rw [long] at lengths
  omega

theorem onceKeptLength (cs : List Char) :
    (filled [(name, value)] (pieces cs)).length = cs.length := by
  have kept := keptLength long (unlistedYet name) (pieces cs)
  rwa [piecesRead] at kept

theorem onceKept {cs : List Char} (same : filled [(name, value)] (pieces cs) = cs) :
    value.toList = placeholder name ∨ slots name cs = 0 := by
  by_cases inside : .slot name ∈ pieces cs
  · -- A value as long as the placeholder moves nothing, so it shows where the placeholder stood.
    obtain ⟨us, ws, split⟩ := List.append_of_mem inside
    have read := piecesRead cs
    rw [split, filledSplit rfl] at read
    rw [split, filledAppend] at same
    have shown := same.trans read.symm
    rw [List.append_assoc] at shown
    have behind := (List.append_inj shown (keptLength long (unlistedYet name) us)).2
    rw [filledValue ws List.lookup_cons_self] at behind
    exact .inl (List.append_inj behind long).1
  · exact .inr (List.count_eq_zero_of_not_mem inside)

theorem stepKept (unlisted : before.lookup name = none) (braceless : Braceless name.toList)
    (same : filled [(name, value)] (pieces (filled before ps)) =
      filled (before ++ [(name, value)]) ps) :
    value.toList = placeholder name ∨ slots name (filled before ps) = ps.count (.slot name) := by
  induction ps using slotInduction name with
  | none ps absent =>
    rw [filledAbsent before absent] at same
    rw [List.count_eq_zero_of_not_mem absent]
    exact onceKept long same
  | more qs rs absent ih =>
    rw [filledSplit unlisted, piecesSplit braceless, filledAppend, filledAppend,
      filledAbsent before absent] at same
    obtain ⟨first, behind⟩ := List.append_inj same (onceKeptLength long _)
    rw [filledNext unlisted, filledValue _ List.lookup_cons_self] at behind
    have rest := List.append_cancel_left behind
    rw [slotsSplit unlisted braceless, List.count_append, List.count_eq_zero_of_not_mem absent,
      List.count_cons_self, Nat.zero_add]
    rcases onceKept long first with own | none
    · exact .inl own
    rcases ih rest with own | counted
    · exact .inl own
    · exact .inr (by rw [none, counted, Nat.zero_add])

end

theorem stepExact (unlisted : before.lookup name = none) (braceless : Braceless name.toList)
    (ps : List Piece) : replaceAll (placeholder name) value.toList (filled before ps) =
        filled (before ++ [(name, value)]) ps ↔
      value.toList = placeholder name ∨
        slots name (filled before ps) = ps.count (.slot name) := by
  rw [replaceAllFills braceless]
  constructor
  · intro same
    by_cases long : value.toList.length = (placeholder name).length
    · exact stepKept long unlisted braceless same
    · -- Every placeholder that is filled changes the length by the same amount.
      refine .inr ?_
      have lengths := filledLength value unlisted ps
      have onceLengths := filledLength value (unlistedYet name)
        (pieces (filled before ps))
      obtain ⟨more, counted⟩ := Nat.exists_eq_add_of_le (fewestSlots unlisted braceless ps)
      rw [piecesRead, List.nil_append, same, ← slots, counted, Nat.add_mul, Nat.add_mul]
        at onceLengths
      have none : more = 0 := by
        by_contra some
        refine long (Nat.eq_of_mul_eq_mul_left (Nat.pos_of_ne_zero some) ?_)
        omega
      rw [counted, none, Nat.add_zero]
  · rintro (own | counted)
    · rw [filledOwn own unlisted]
      exact (filledOwn own (unlistedYet name) _).trans (piecesRead _)
    · exact stepFilled unlisted braceless counted

end

/-- Whenever a name's turn comes, it stands in braces only where the template has it so; or
else its value is its own placeholder. -/
def Settled (listing : List (String × String)) (template : List Char) : Prop :=
  ∀ before name value after, listing = before ++ (name, value) :: after →
    value.toList = placeholder name ∨
      slots name (filled before (pieces template)) = slots name template

def Distinct (values : List (String × String)) : Prop := (values.map Prod.fst).Nodup

theorem namesSet (name value : String) (values : Entries String) :
    (Entries.set name value values).map Prod.fst =
      if name ∈ values.map Prod.fst then values.map Prod.fst
      else values.map Prod.fst ++ [name] := by
  induction values with
  | nil => rfl
  | cons entry rest ih =>
    obtain ⟨key, old⟩ := entry
    by_cases here : key = name
    · simp [Entries.set, here]
    · have other : ¬ name = key := fun same => here same.symm
      simp only [Entries.set, if_neg here, List.map_cons, ih, List.mem_cons, other, false_or]
      split_ifs <;> rfl

theorem updateDistinct {values : Entries String} (distinct : Distinct values)
    (given : Entries String) : Distinct (values.update given) := by
  induction given generalizing values with
  | nil => exact distinct
  | cons entry rest ih =>
    refine ih (?_ : Distinct (Entries.set entry.1 entry.2 values))
    rw [Distinct, namesSet]
    split_ifs with known
    · exact distinct
    · refine List.nodup_append.mpr ⟨distinct, List.nodup_singleton _, fun a inside b last => ?_⟩
      rw [List.mem_singleton.mp last]
      rintro rfl
      exact known inside

section
variable {values listing before after : List (String × String)} {name value : String}

theorem fillCharsNext (before : List (String × String)) (name value : String) (cs : List Char) :
    fillChars (before ++ [(name, value)]) cs =
      replaceAll (placeholder name) value.toList (fillChars before cs) := by
  rw [fillChars, List.foldl_append]
  rfl

theorem unlistedBefore (distinct : Distinct (before ++ (name, value) :: after)) :
    before.lookup name = none := by
  rw [Distinct, List.map_append, List.map_cons] at distinct
  refine List.lookup_eq_none_iff.mpr fun p inside => ?_
  rw [bne_iff_ne]
  rintro rfl
  exact (List.disjoint_of_nodup_append distinct) (List.mem_map_of_mem inside) List.mem_cons_self

theorem settledExact (distinct : Distinct listing)
    (braceless : ∀ name ∈ listing.map Prod.fst, Braceless name.toList) (template : List Char) :
    Settled listing template ↔
      ∀ part, part <+: listing → fillChars part template = filled part (pieces template) := by
  have step {before after : List (String × String)} {name value : String}
      (split : listing = before ++ (name, value) :: after)
      (same : fillChars before template = filled before (pieces template)) :
      fillChars (before ++ [(name, value)]) template =
          filled (before ++ [(name, value)]) (pieces template) ↔
        value.toList = placeholder name ∨
          slots name (filled before (pieces template)) = slots name template := by
    subst split
    rw [fillCharsNext, same]
    exact stepExact (unlistedBefore distinct) (braceless name (by simp)) (pieces template)
  constructor
  · intro settled part
    induction part using List.reverseRecOn with
    | nil => exact fun _ => (piecesRead template).symm
    | append_singleton before entry ih =>
      rintro ⟨after, split⟩
      rw [List.append_assoc] at split
      exact (step split.symm (ih ⟨_, split⟩)).mpr (settled before _ _ after split.symm)
  · intro parts before name value after split
    have first := parts before ⟨_, split.symm⟩
    have next := parts (before ++ [(name, value)]) ⟨after, by rw [split, List.append_assoc]; rfl⟩
    exact (step split first).mp next

theorem lookupPerm (perm : listing.Perm values) (distinct : Distinct listing) (name : String) :
    listing.lookup name = values.lookup name := by
  induction perm with
  | nil => rfl
  | cons entry _ ih =>
    rw [List.lookup_cons, List.lookup_cons, ih (List.nodup_cons.mp distinct).2]
  | swap first second rest =>
    have differs : second.1 ≠ first.1 := by
      intro same
      exact (List.nodup_cons.mp distinct).1 (by simp [same])
    rw [List.lookup_cons, List.lookup_cons, List.lookup_cons, List.lookup_cons]
    by_cases here : name = second.1
    · have there : (name == first.1) = false := by
        rw [here]
        exact beq_false_of_ne differs
      rw [there]
    · rw [beq_false_of_ne here]
  | trans one _ ih ih' =>
    exact (ih distinct).trans (ih' ((one.map Prod.fst).nodup_iff.mp distinct))

theorem filledPerm (perm : listing.Perm values) (distinct : Distinct listing) (ps : List Piece) :
    filled listing ps = filled values ps := by
  refine List.flatMap_congr fun p _ => ?_
  cases p with
  | char c => rfl
  | slot name => rw [Piece.text, Piece.text, lookupPerm perm distinct]

theorem settledFills (perm : listing.Perm values) (distinct : Distinct listing)
    (braceless : ∀ name ∈ listing.map Prod.fst, Braceless name.toList) {template : String}
    (settled : Settled listing template.toList) :
    fill listing template = simultaneous values template := by
  have filledAll := (settledExact distinct braceless _).mp settled listing List.prefix_rfl
  rw [fill, filledAll, filledPerm perm distinct, simultaneous]

/-- In whatever order the values are listed, a template is filled as if all at once where no
step meets a placeholder that is no slot of the template, and only there is every step's text
the one that its names give at once. -/
theorem fillsAtOnce (distinct : Distinct values)
    (braceless : ∀ name ∈ values.map Prod.fst, Braceless name.toList) (template : String)
    (perm : listing.Perm values) :
    (Settled listing template.toList → fill listing template = simultaneous values template) ∧
      (Settled listing template.toList ↔
        ∀ part, part <+: listing → fill part template = simultaneous part template) := by
  have names := perm.map Prod.fst
  have listed : Distinct listing := names.nodup_iff.mpr distinct
  have spelled : ∀ name ∈ listing.map Prod.fst, Braceless name.toList := fun name inside =>
    braceless name (names.mem_iff.mp inside)
  refine ⟨settledFills perm listed spelled, ?_⟩
  refine (settledExact listed spelled template.toList).trans (forall₂_congr fun part _ => ?_)
  exact ⟨congrArg String.ofList, fun same => String.ofList_injective same⟩

end

theorem laterNameKept :
    let values := [("b", "\x7ba\x7d"), ("a", "1")]
    let template := "\x7ba\x7d & \x7bb\x7d"
    fill values.reverse template = simultaneous values template ∧
      ¬ Settled values template.toList := by
  intro values template
  have distinct : Distinct values := by
    unfold Distinct
    decide
  have braceless : ∀ name ∈ values.map Prod.fst, Braceless name.toList := by
    simp [values, Braceless]
  have settled : Settled values.reverse template.toList := by
    rintro (_ | ⟨_, _ | ⟨_, _⟩⟩) name value after split
    · cases split
      exact .inr (by decide)
    · cases split
      exact .inr (by decide)
    · simp [values] at split
  refine ⟨(fillsAtOnce distinct braceless template (List.reverse_perm values)).1 settled, ?_⟩
  intro settled
  have same := (fillsAtOnce distinct braceless template (List.Perm.refl values)).1 settled
  exact absurd same (by decide)

example : fill [("a", "\x7bb\x7d"), ("b", "x")] "\x7ba\x7d" = "x" := by decide

section
variable {values listing before : List (String × String)} {name : String}

theorem slotBraceless {cs : List Char} (inside : .slot name ∈ pieces cs) :
    Braceless name.toList := by
  induction cs with
  | nil => cases inside
  | cons c cs ih =>
    by_cases brace : c = '\x7b'
    · rw [brace, piecesBrace, opened] at inside
      cases closed : closed? (pieces cs) with
      | none =>
        rw [closed] at inside
        rcases List.mem_cons.mp inside with same | behind
        · cases same
        · exact ih behind
      | some found =>
        obtain ⟨split, braceless⟩ := closedGiven closed
        rw [closed] at inside
        rcases List.mem_cons.mp inside with same | behind
        · cases same
          rwa [String.toList_ofList]
        · refine ih ?_
          rw [split]
          exact List.mem_append_right _ (List.mem_cons_of_mem _ behind)
    · rw [piecesChar brace] at inside
      rcases List.mem_cons.mp inside with same | behind
      · cases same
      · exact ih behind

theorem plainSlots (unlisted : before.lookup name = none)
    (values : ∀ value ∈ before.map Prod.snd, ∀ c ∈ value.toList, c ≠ '\x7b') {ps : List Piece}
    (plain : .char '\x7b' ∉ ps) (names : ∀ name, .slot name ∈ ps → Braceless name.toList) :
    slots name (filled before ps) = ps.count (.slot name) := by
  induction ps with
  | nil => rfl
  | cons p ps ih =>
    obtain ⟨first, others⟩ := not_or.mp (mt List.mem_cons.mpr plain)
    have rest := ih others fun name inside => names name (List.mem_cons_of_mem _ inside)
    rw [slots] at rest
    cases p with
    | char c =>
      have other : c ≠ '\x7b' := fun same => first (by rw [same])
      rw [slots, filledChar, piecesChar other, List.count_cons, List.count_cons, rest]
    | slot n =>
      cases given : before.lookup n with
      | none =>
        rw [slots, filledSlot ps given, piecesSlot (names n List.mem_cons_self), List.count_cons,
          List.count_cons, rest]
      | some value =>
        obtain ⟨us, ws, split, _⟩ := List.lookup_eq_some_iff.mp given
        have plainValue : ∀ c ∈ value.toList, c ≠ '\x7b' := values value (by rw [split]; simp)
        have differs : Piece.slot n ≠ .slot name := by
          rintro ⟨⟩
          rw [unlisted] at given
          cases given
        have chars : Piece.slot name ∉ value.toList.map .char := by simp
        rw [slots, filledValue ps given, piecesWord plainValue, List.count_append,
          List.count_eq_zero_of_not_mem chars, Nat.zero_add, List.count_cons_of_ne differs, rest]

theorem plainSettled (distinct : Distinct listing)
    (values : ∀ value ∈ listing.map Prod.snd, ∀ c ∈ value.toList, c ≠ '\x7b') {template : List Char}
    (plain : .char '\x7b' ∉ pieces template) : Settled listing template := by
  rintro before name value after rfl
  refine .inr (plainSlots (unlistedBefore distinct) (fun v inside => values v ?_) plain
    fun _ => slotBraceless)
  rw [List.map_append]
  exact List.mem_append_left _ inside

theorem plainFills (perm : listing.Perm values) (distinct : Distinct listing)
    (braceless : ∀ name ∈ listing.map Prod.fst, Braceless name.toList)
    (unopened : ∀ value ∈ listing.map Prod.snd, ∀ c ∈ value.toList, c ≠ '\x7b')
    {template : String} (plain : .char '\x7b' ∉ pieces template.toList) :
    fill listing template = simultaneous values template := by
  exact settledFills perm distinct braceless (plainSettled distinct unopened plain)

end
end OverlayMotion.Text

import OverlayMotion.Proofs.Readers

/-! What the readers of TOML leave, statement by statement. -/
namespace OverlayMotion.Toml

theorem skipLeaves (cs : List Char) : skip cs <:+ cs := List.dropWhile_suffix _

theorem skipCommentReads (cs : List Char) : Reads id cs (skipComment cs) := by
  unfold skipComment
  split
  · dsimp only
    split
    · trivial
    · exact (spanLeaves rfl).trans (List.suffix_cons _ _)
  · exact List.suffix_rfl

theorem skipLinesReads (n : Nat) (cs : List Char) : Reads id cs (skipLines n cs) := by
  induction n generalizing cs with
  | zero => exact List.suffix_rfl
  | succ n ih =>
    refine .mono (List.dropWhile_suffix _) ((skipCommentReads _).bind fun rest => ?_)
    split
    · exact List.suffix_rfl
    · exact ih rest

theorem skipBetweenReads (cs : List Char) : Reads id cs (skipBetween cs) := skipLinesReads _ cs

theorem readCodePointReads (count : Nat) (cs : List Char) :
    Reads Prod.snd cs (readCodePoint count cs) := by
  unfold readCodePoint
  dsimp only
  split
  · split
    · exact List.drop_suffix _ _
    · trivial
  · trivial

theorem afterHiddenBreakReads (cs : List Char) : Reads id cs (afterHiddenBreak cs) := by
  unfold afterHiddenBreak
  split
  · exact List.nil_suffix
  · next broken => exact (List.dropWhile_suffix _).trans (behind broken)
  · trivial

theorem readEscapeReads (multiline : Bool) (cs : List Char) :
    Reads Prod.snd cs (readEscape multiline cs) := by
  unfold readEscape
  split
  · next c rest =>
    split
    · exact (afterHiddenBreakReads _).bind fun _ => List.suffix_rfl
    · split
      · exact .ahead ((readCodePointReads _ rest).bind fun (_, _) => List.suffix_rfl)
      · split
        · exact List.suffix_cons _ _
        · trivial
  · trivial

theorem readBasicReads (multiline : Bool) (n : Nat) (cs : List Char) :
    Reads Prod.snd cs (readBasic multiline n cs) := by
  fun_induction readBasic multiline n cs with
  | case1 | case2 | case7 => trivial
  | case3 => exact List.suffix_cons _ _
  | case4 _ _ after => exact ⟨['"', '"', '"'], rfl⟩
  | case5 _ rest _ _ ih => exact .ahead (ih.bind fun (_, _) => List.suffix_rfl)
  | case6 _ rest ih =>
    refine .ahead ((readEscapeReads multiline rest).bind fun (part, rest) => ?_)
    exact (ih rest).bind fun (_, _) => List.suffix_rfl
  | case8 _ c rest _ _ _ ih => exact .ahead (ih.bind fun (_, _) => List.suffix_rfl)

theorem readLiteralReads (cs : List Char) : Reads Prod.snd cs (readLiteral cs) := by
  unfold readLiteral
  dsimp only
  split
  · trivial
  · next closed =>
    split
    · trivial
    · exact (List.suffix_cons _ _).trans (closed ▸ spanLeaves rfl)

theorem readLongLiteralReads (cs : List Char) : Reads Prod.snd cs (readLongLiteral cs) := by
  fun_induction readLongLiteral cs with
  | case1 after => exact ⟨['\'', '\'', '\''], rfl⟩
  | case2 | case4 => trivial
  | case3 c rest _ _ ih => exact .ahead (ih.bind fun (_, _) => List.suffix_rfl)

theorem extraQuotesLeave (mark : Char) (body rest : List Char) :
    (takeExtraQuotes mark body rest).2 <:+ rest := List.drop_suffix _ _

theorem dropFirstBreakLeaves (cs : List Char) : dropFirstBreak cs <:+ cs := by
  unfold dropFirstBreak
  split
  · exact List.suffix_cons _ _
  · exact List.suffix_rfl

theorem readStringReads {cs : List Char} : ∀ x ∈ readString? cs, Reads Prod.snd cs x := by
  unfold readString?
  intro x among
  split at among
  · next rest =>
    cases among
    refine .mono ⟨['"', '"', '"'], rfl⟩ (.mono (dropFirstBreakLeaves rest) ?_)
    exact (readBasicReads true _ _).bind fun (body, after) => extraQuotesLeave '"' body after
  · next rest _ =>
    cases among
    exact .ahead (readBasicReads false _ rest)
  · next rest =>
    cases among
    refine .mono ⟨['\'', '\'', '\''], rfl⟩ (.mono (dropFirstBreakLeaves rest) ?_)
    exact (readLongLiteralReads _).bind fun (body, after) => extraQuotesLeave '\'' body after
  · next rest _ =>
    cases among
    exact .ahead (readLiteralReads rest)
  · contradiction

theorem readKeyPartReads (cs : List Char) : Reads Prod.snd cs (readKeyPart cs) := by
  unfold readKeyPart
  split
  · exact .ahead ((readLiteralReads _).bind fun (_, _) => List.suffix_rfl)
  · exact .ahead ((readBasicReads false _ _).bind fun (_, _) => List.suffix_rfl)
  · split
    · trivial
    · next part => exact spanLeaves part

theorem readKeyRestReads (n : Nat) (cs : List Char) : Reads Prod.snd cs (readKeyRest n cs) := by
  induction n generalizing cs with
  | zero => trivial
  | succ n ih =>
    unfold readKeyRest
    split
    · next more =>
      refine .mono ((skipLeaves _).trans (behind more)) ?_
      refine (readKeyPartReads _).bind fun (part, rest) => ?_
      exact (ih rest).bind fun (_, _) => List.suffix_rfl
    · exact skipLeaves cs

theorem readKeyReads (cs : List Char) : Reads Prod.snd cs (readKey cs) := by
  refine (readKeyPartReads cs).bind fun (part, rest) => ?_
  exact (readKeyRestReads _ rest).bind fun (_, _) => List.suffix_rfl

theorem takeDigitsFinds (count low high : Nat) (cs : List Char) :
    Finds Prod.snd cs (takeDigits count low high cs) := by
  unfold takeDigits
  dsimp only
  split
  · exact .found (List.drop_suffix _ _)
  · exact .nothing

theorem takeCharFinds (c : Char) (cs : List Char) : Finds id cs (takeChar c cs) := by
  unfold takeChar
  split
  · split
    · exact .found (List.suffix_cons _ _)
    · exact .nothing
  · exact .nothing

theorem takeFractionLeaves (cs : List Char) : (takeFraction cs).2 <:+ cs := by
  unfold takeFraction
  split
  · split
    · exact List.suffix_rfl
    · next run => exact (spanLeaves run).trans (List.suffix_cons _ _)
  · exact List.suffix_rfl

theorem takeClockFinds (cs : List Char) : Finds Prod.snd cs (takeClock cs) := by
  refine (takeDigitsFinds 2 0 23 cs).bind fun (hour, cs) => ?_
  refine (takeCharFinds ':' cs).bind fun cs => ?_
  refine (takeDigitsFinds 2 0 59 cs).bind fun (minute, cs) => ?_
  refine (takeCharFinds ':' cs).bind fun cs => ?_
  exact (takeDigitsFinds 2 0 59 cs).bind fun (second, cs) => .found (takeFractionLeaves cs)

theorem takeOffsetFinds (cs : List Char) : Finds Prod.snd cs (takeOffset cs) := by
  unfold takeOffset
  split
  · exact .found (List.suffix_cons _ _)
  · exact .found (List.suffix_cons _ _)
  · next sign rest _ _ =>
    have signed (ahead : Int) : Finds Prod.snd (sign :: rest)
        (takeDigits 2 0 23 rest >>= fun hours => takeChar ':' hours.2 >>= fun rest =>
          takeDigits 2 0 59 rest >>= fun minutes =>
            some (ahead * ((hours.1 * 60 + minutes.1 : Nat) : Int), minutes.2)) := by
      refine .mono (List.suffix_cons sign rest) ((takeDigitsFinds 2 0 23 rest).bind fun hours => ?_)
      refine (takeCharFinds ':' hours.2).bind fun cs => ?_
      exact (takeDigitsFinds 2 0 59 cs).bind fun _ => .found List.suffix_rfl
    dsimp only
    split
    · exact signed 1
    · split
      · exact signed (-1)
      · exact .nothing
  · exact .nothing

theorem takeDateFinds (cs : List Char) : Finds Prod.snd cs (takeDate cs) := by
  refine (takeDigitsFinds 4 0 9999 cs).bind fun (year, cs) => ?_
  refine (takeCharFinds '-' cs).bind fun cs => ?_
  refine (takeDigitsFinds 2 1 12 cs).bind fun (month, cs) => ?_
  refine (takeCharFinds '-' cs).bind fun cs => ?_
  exact (takeDigitsFinds 2 1 31 cs).bind fun (day, cs) => .found List.suffix_rfl

theorem takeTimeOfDayFinds (cs : List Char) : Finds (·.2.2) cs (takeTimeOfDay cs) := by
  unfold takeTimeOfDay
  split
  · next c rest =>
    split
    · refine .mono (List.suffix_cons c rest) ((takeClockFinds rest).bind fun (clock, rest) => ?_)
      dsimp only
      split
      · next offset => exact .found (takeOffsetFinds rest _ offset)
      · exact .found List.suffix_rfl
    · exact .nothing
  · exact .nothing

theorem readMomentReads {cs : List Char} : ∀ x ∈ readMoment? cs, Reads Prod.snd cs x := by
  unfold readMoment?
  intro x among
  split at among
  · next date rest dated =>
    have left := takeDateFinds cs _ dated
    cases timed : takeTimeOfDay rest with
    | none =>
      simp only [timed] at among
      cases among
      split
      · exact left
      · trivial
    | some time =>
      simp only [timed] at among
      cases among
      split
      · exact (takeTimeOfDayFinds rest _ timed).trans left
      · trivial
  · obtain ⟨⟨clock, rest⟩, timed, same⟩ := Option.map_eq_some_iff.mp among
    cases same
    exact takeClockFinds cs _ timed

theorem digitsPartRun (digit : Char → Bool) (cs : List Char) :
    ∃ run, cs = run ++ (digitsPart digit cs).2 ∧ (∀ c ∈ run, digit c ∨ c = '_') ∧
      (digitsPart digit cs).1.length ≤ run.countP digit := by
  fun_induction digitsPart digit cs with
  | case1 c rest known ds after read ih =>
    obtain ⟨run, parted, digits, counted⟩ := ih
    rw [read] at parted counted
    refine ⟨'_' :: c :: run, by simp [← parted], ?_, ?_⟩
    · exact List.forall_mem_cons.mpr ⟨.inr rfl, List.forall_mem_cons.mpr ⟨.inl known, digits⟩⟩
    · calc ds.length + 1
        _ ≤ run.countP digit + 1 := Nat.succ_le_succ counted
        _ = (c :: run).countP digit := (List.countP_cons_of_pos known).symm
        _ ≤ ('_' :: c :: run).countP digit := (List.sublist_cons_self _ _).countP_le
  | case3 c rest _ known ds after read ih =>
    obtain ⟨run, parted, digits, counted⟩ := ih
    rw [read] at parted counted
    refine ⟨c :: run, by simp [← parted], List.forall_mem_cons.mpr ⟨.inl known, digits⟩, ?_⟩
    rw [List.countP_cons_of_pos known]
    exact Nat.succ_le_succ counted
  | case2 | case4 | case5 => exact ⟨[], rfl, nofun, Nat.le_refl 0⟩

theorem digitsFromRun (digit : Char → Bool) (cs : List Char) :
    ∃ run, cs = run ++ (digitsFrom digit cs).2 ∧ (∀ c ∈ run, digit c ∨ c = '_') ∧
      (digitsFrom digit cs).1.length ≤ run.countP digit := by
  unfold digitsFrom
  split
  · exact ⟨[], rfl, nofun, Nat.le_refl 0⟩
  · exact digitsPartRun digit cs

theorem digitsLeave {digit : Char → Bool} {cs ds rest : List Char}
    (read : digitsFrom digit cs = (ds, rest)) : rest <:+ cs := by
  obtain ⟨run, parted, -⟩ := digitsFromRun digit cs
  rw [read] at parted
  exact ⟨run, parted.symm⟩

theorem digitsOverlong {cs ds rest : List Char} (read : digitsFrom Char.isDigit cs = (ds, rest))
    (many : digitLimit < ds.length) : Overlong cs := by
  obtain ⟨run, parted, digits, counted⟩ := digitsFromRun Char.isDigit cs
  rw [read] at parted counted
  exact ⟨run, parted ▸ (List.prefix_append run rest).isInfix, digits, many.trans_le counted⟩

theorem readBasedFinds (base : Nat) (digit : Char → Bool) (cs : List Char) :
    Finds Prod.snd cs (readBased? base digit cs) := by
  unfold readBased?
  split
  · exact .nothing
  · next read => exact .found (digitsLeave read)

theorem readPrefixedFinds (cs : List Char) : Finds Prod.snd cs (readPrefixed? cs) := by
  unfold readPrefixed?
  split
  · exact .mono ⟨['0', 'x'], rfl⟩ (readBasedFinds 16 _ _)
  · exact .mono ⟨['0', 'o'], rfl⟩ (readBasedFinds 8 _ _)
  · exact .mono ⟨['0', 'b'], rfl⟩ (readBasedFinds 2 _ _)
  · exact .nothing

theorem fractionLeaves (cs : List Char) : (fractionPart cs).2 <:+ cs := by
  unfold fractionPart
  split
  · split
    · exact List.suffix_rfl
    · next read => exact (digitsLeave read).trans (List.suffix_cons _ _)
  · exact List.suffix_rfl

theorem exponentLeaves (cs : List Char) : (exponentPart cs).2 <:+ cs := by
  unfold exponentPart
  split
  · split
    · dsimp only
      split
      · exact List.suffix_rfl
      · next read =>
        refine ((digitsLeave read).trans ?_).trans (List.suffix_cons _ _)
        split
        · exact List.suffix_cons _ _
        · exact List.suffix_cons _ _
        · exact List.suffix_rfl
    · exact List.suffix_rfl
  · exact List.suffix_rfl

theorem readDecimalReads {cs : List Char} : ∀ x ∈ readDecimal? cs, Reads Prod.snd cs x := by
  unfold readDecimal?
  split
  next negative unsigned signed =>
    have front : unsigned <:+ cs := by
      split at signed
      · cases signed
        exact List.suffix_cons _ _
      · cases signed
        exact List.suffix_cons _ _
      · cases signed
        exact List.suffix_rfl
    split
    next whole rest parted =>
      have known : rest <:+ unsigned ∧ (digitLimit < whole.length → Overlong unsigned) := by
        split at parted
        · cases parted
          exact ⟨List.suffix_cons _ _, fun many => absurd many (by decide)⟩
        · exact ⟨digitsLeave parted, digitsOverlong parted⟩
      have left := (exponentLeaves _).trans ((fractionLeaves rest).trans (known.1.trans front))
      dsimp only
      intro x among
      split at among
      · contradiction
      · split at among
        · cases among
          split
          · next many => exact (known.2 many).mono front.isInfix
          · exact left
        · cases among
          exact left

theorem readPlainReads (cs : List Char) : Reads Prod.snd cs (readPlain cs) := by
  unfold readPlain
  split
  · next text quoted =>
    exact (readStringReads text quoted).bind fun (_, _) => List.suffix_rfl
  · split
    · next found named => exact Json.namedFinds _ cs found named
    · split
      · next moment dated => exact readMomentReads moment dated
      · split
        · next found based => exact readPrefixedFinds cs found based
        · split
          · next number written => exact readDecimalReads number written
          · split
            · next found named => exact Json.namedFinds _ cs found named
            · trivial

theorem refusedMalformed {α : Type} :
    FailsAs (· = .malformed) (.error .malformed : Outcome α) := by
  intro e failed
  cases failed
  rfl

theorem changeMalformed {f : Table → Outcome Table} (safe : ∀ t, FailsAs (· = .malformed) (f t))
    (inLists : Bool) (key : Key) (t : Table) :
    FailsAs (· = .malformed) (change inLists f key t) := by
  induction key generalizing t with
  | nil => exact safe t
  | cons k ks ih =>
    unfold change
    split
    · exact (ih _).bind fun _ => .ok
    · split
      · split
        · exact (ih _).bind fun _ => .ok
        · exact refusedMalformed
      · exact refusedMalformed
    · exact refusedMalformed

theorem defineMalformed (key : String) (value : Datum) (t : Table) :
    FailsAs (· = .malformed) (define key value t) := by
  unfold define
  split
  · exact refusedMalformed
  · exact .ok

theorem appendMalformed (key : String) (t : Table) :
    FailsAs (· = .malformed) (appendTable key t) := by
  unfold appendTable
  split
  · exact .ok
  · exact .ok
  · exact refusedMalformed

section
variable {n : Nat} (values : ∀ cs, Reads Prod.snd cs (readValue n cs))
  (items : ∀ cs, Reads Prod.snd cs (readItems n cs))
  (entries : ∀ frozen before cs, Reads Prod.snd cs (readEntries n frozen before cs))
  (pairs : ∀ cs, Reads (·.2.2) cs (readPair n cs))

include items entries in
theorem valueReads (cs : List Char) : Reads Prod.snd cs (readValue (n + 1) cs) := by
  unfold readValue
  split
  · contradiction
  · next rest same =>
    cases same
    refine .ahead ((skipBetweenReads rest).bind fun rest => ?_)
    split
    · exact List.suffix_cons _ _
    · exact (items _).bind fun (_, _) => List.suffix_rfl
  · next rest same =>
    cases same
    split
    · next closed => exact (behind closed).trans (List.suffix_cons _ _)
    · exact .ahead (.mono (skipLeaves rest) ((entries _ _ _).bind fun (_, _) => List.suffix_rfl))
  · exact readPlainReads _

include values items in
theorem itemsReads (cs : List Char) : Reads Prod.snd cs (readItems (n + 1) cs) := by
  unfold readItems
  refine (values cs).bind fun (item, rest) => (skipBetweenReads rest).bind fun rest => ?_
  split
  · exact List.suffix_cons _ _
  · refine .ahead ((skipBetweenReads _).bind fun rest => ?_)
    split
    · exact List.suffix_cons _ _
    · exact (items _).bind fun (_, _) => List.suffix_rfl
  · trivial

include entries pairs in
theorem entriesReads (frozen : List Key) (before : Table) (cs : List Char) :
    Reads Prod.snd cs (readEntries (n + 1) frozen before cs) := by
  unfold readEntries
  refine (pairs cs).bind fun (key, value, rest) => ?_
  dsimp only
  split
  · trivial
  · refine .step (changeMalformed (defineMalformed _ value) _ _ _) fun made => ?_
    split
    · next closed => exact behind closed
    · next more => exact .mono ((skipLeaves _).trans (behind more)) (entries _ _ _)
    · trivial

include values in
theorem pairReads (cs : List Char) : Reads (·.2.2) cs (readPair (n + 1) cs) := by
  unfold readPair
  refine (readKeyReads cs).bind fun (key, rest) => ?_
  dsimp only
  split
  · next rest =>
    exact .ahead (.mono (skipLeaves rest) ((values _).bind fun (_, _) => List.suffix_rfl))
  · trivial

end

theorem valuesRead (n : Nat) :
    (∀ cs, Reads Prod.snd cs (readValue n cs)) ∧ (∀ cs, Reads Prod.snd cs (readItems n cs)) ∧
      (∀ frozen before cs, Reads Prod.snd cs (readEntries n frozen before cs)) ∧
      ∀ cs, Reads (·.2.2) cs (readPair n cs) := by
  induction n with
  | zero => exact ⟨fun _ => trivial, fun _ => trivial, fun _ _ _ => trivial, fun _ => trivial⟩
  | succ n ih =>
    obtain ⟨values, items, entries, pairs⟩ := ih
    exact ⟨valueReads items entries, itemsReads values items, entriesReads entries pairs,
      pairReads values⟩

theorem setMalformed (s : State) (key : Key) (value : Datum) :
    FailsAs (· = .malformed) (s.set key value) := by
  unfold State.set
  dsimp only
  split
  · exact refusedMalformed
  · split
    · exact refusedMalformed
    · exact (changeMalformed (defineMalformed _ value) _ _ _).bind fun _ => .ok

theorem openTableMalformed (s : State) (key : Key) :
    FailsAs (· = .malformed) (s.openTable key) := by
  unfold State.openTable
  split
  · exact refusedMalformed
  · exact (changeMalformed (fun _ => .ok) _ _ _).bind fun _ => .ok

theorem openItemMalformed (s : State) (key : Key) :
    FailsAs (· = .malformed) (s.openItem key) := by
  unfold State.openItem
  split
  · exact refusedMalformed
  · exact (changeMalformed (appendMalformed _) _ _ _).bind fun _ => .ok

theorem statementReads (s : State) (cs : List Char) : Reads Prod.snd cs (statement s cs) := by
  unfold statement
  split
  · next rest =>
    refine .mono ((skipLeaves rest).trans ⟨['[', '['], rfl⟩) ?_
    refine (readKeyReads _).bind fun (key, rest) => ?_
    refine .step (openItemMalformed _ key) fun opened => ?_
    split
    · exact ⟨[']', ']'], rfl⟩
    · trivial
  · next rest _ =>
    refine .ahead (.mono (skipLeaves rest) ?_)
    refine (readKeyReads _).bind fun (key, rest) => ?_
    refine .step (openTableMalformed _ key) fun opened => ?_
    split
    · exact List.suffix_cons _ _
    · trivial
  · split
    · exact List.suffix_rfl
    · refine ((valuesRead _).2.2.2 _).bind fun (key, value, rest) => ?_
      exact .step (setMalformed s key value) fun _ => List.suffix_rfl
  · exact List.suffix_rfl

theorem statementsRead (n : Nat) (s : State) (cs : List Char) :
    Reads (fun _ => []) cs (statements n s cs) := by
  induction n generalizing s cs with
  | zero => trivial
  | succ n ih =>
    unfold statements
    split
    · exact List.nil_suffix
    · next broken => exact (ih _ _).mono (behind broken)
    · refine .mono (skipLeaves cs) ((statementReads s _).bind fun (s, rest) => ?_)
      refine .mono (skipLeaves rest) ((skipCommentReads _).bind fun rest => ?_)
      split
      · exact List.nil_suffix
      · exact .ahead (ih _ _)
      · trivial

theorem unifiedPrefix {run cs : List Char} (unbroken : '\n' ∉ run)
    (front : run <+: unifyBreaks cs) : run <+: cs := by
  fun_induction unifyBreaks cs generalizing run with
  | case1 rest ih =>
    obtain none | ⟨tail, same, -⟩ := List.prefix_cons_iff.mp front
    · exact none ▸ List.nil_prefix
    · exact absurd (same ▸ List.mem_cons_self) unbroken
  | case2 c rest _ ih =>
    obtain none | ⟨tail, same, later⟩ := List.prefix_cons_iff.mp front
    · exact none ▸ List.nil_prefix
    · subst same
      exact List.prefix_cons_iff.mpr
        (.inr ⟨tail, rfl, ih (fun broken => unbroken (List.mem_cons_of_mem c broken)) later⟩)
  | case3 => exact front

theorem unifiedInfix {run cs : List Char} (unbroken : '\n' ∉ run)
    (inside : run <:+: unifyBreaks cs) : run <:+: cs := by
  fun_induction unifyBreaks cs with
  | case1 rest ih =>
    obtain front | later := List.infix_cons_iff.mp inside
    · have whole : unifyBreaks ('\r' :: '\n' :: rest) = '\n' :: unifyBreaks rest := rfl
      exact (unifiedPrefix unbroken (whole ▸ front)).isInfix
    · exact (ih later).trans ⟨['\r', '\n'], [], by simp⟩
  | case2 c rest other ih =>
    obtain front | later := List.infix_cons_iff.mp inside
    · have whole : unifyBreaks (c :: rest) = c :: unifyBreaks rest := by
        rw [unifyBreaks]
        exact other
      exact (unifiedPrefix unbroken (whole ▸ front)).isInfix
    · exact (ih later).trans (List.suffix_cons c rest).isInfix
  | case3 => exact inside

theorem readOverlong {source : List Char} (refused : read source = .error .integerTooLong) :
    Overlong source := by
  have reads : Reads (fun _ => []) (unifyBreaks source) (read source) :=
    (statementsRead _ _ _).bind fun _ => List.nil_suffix
  rw [refused] at reads
  obtain ⟨run, among, digits, many⟩ := reads
  have unbroken : '\n' ∉ run := by
    intro broken
    obtain digit | line := digits _ broken
    · contradiction
    · contradiction
  exact ⟨run, unifiedInfix unbroken among, digits, many⟩

end OverlayMotion.Toml

import OverlayMotion.Proofs.Scanning
import OverlayMotion.Proofs.Trimming

/-! Texts and their tokens. The tokens of a text are all of it but white space, and each of them
is one token wherever white space is around it. So a text that has tokens at all has the same
however they are set apart, and one that has none breaks off at a character that starts none. -/
namespace OverlayMotion.Token
open Text

theorem spanShortened {p : Char → Bool} {cs ds rest more : List Char}
    (h : cs.span p = (ds, rest ++ more)) : (ds ++ rest).span p = (ds, rest) := by
  rw [List.span_eq_takeWhile_dropWhile, Prod.mk.injEq] at h
  obtain ⟨rfl, left⟩ := h
  have all : ∀ c ∈ cs.takeWhile p, p c := fun c inside => List.mem_takeWhile_imp inside
  have stopped := List.head?_dropWhile_not p cs
  rw [List.span_eq_takeWhile_dropWhile, List.takeWhile_append_of_pos all,
    List.dropWhile_append_of_pos all]
  cases rest with
  | nil => simp
  | cons c rest => simp_all

theorem runShortened {cs ds rest more : List Char} (h : digitRun cs = (ds, rest ++ more)) :
    digitRun (ds ++ rest) = (ds, rest) := spanShortened h

theorem runDigits {cs ds tail : List Char} (h : digitRun cs = (ds, tail)) :
    ∀ c ∈ ds, isDigit c := by
  rw [digitRun, List.span_eq_takeWhile_dropWhile, Prod.mk.injEq] at h
  rw [← h.1]
  exact fun c inside => List.mem_takeWhile_imp inside

theorem noRun {c : Char} (digit : isDigit c = false) (rest : List Char) :
    digitRun (c :: rest) = ([], c :: rest) := by
  simp [digitRun, List.span_eq_takeWhile_dropWhile, digit]

theorem mantissaShortened {cs ds rest more : List Char}
    (h : mantissaPart cs = some (ds, rest ++ more)) :
    mantissaPart (ds ++ rest) = some (ds, rest) := by
  unfold mantissaPart at h
  split at h
  · split at h
    · contradiction
    · rename_i fraction after some run
      cases h
      have point : digitRun ('.' :: (fraction ++ rest)) = ([], '.' :: (fraction ++ rest)) :=
        noRun rfl _
      simp [mantissaPart, point, runShortened run]
  · contradiction
  · rename_i whole middle some run
    obtain ⟨fraction, after, hf⟩ : ∃ fraction after, digitRun middle = (fraction, after) :=
      ⟨_, _, rfl⟩
    simp only [hf, Option.some.injEq, Prod.mk.injEq] at h
    obtain ⟨rfl, rfl⟩ := h
    have front : digitRun (whole ++ '.' :: (fraction ++ rest)) =
        (whole, '.' :: (fraction ++ rest)) := by
      have parts := runParts hf
      have longer : digitRun cs = (whole, '.' :: (fraction ++ rest) ++ more) := by
        simpa [← parts] using run
      exact runShortened longer
    simp [mantissaPart, front, runShortened hf]
  · rename_i whole after some noPoint run
    cases h
    have front := runShortened run
    have stillNoPoint : ∀ tail, rest ≠ '.' :: tail := by
      rintro tail rfl
      exact noPoint _ (List.cons_append ..)
    unfold mantissaPart
    rw [front]
    split <;> simp_all

def signPart : List Char → List Char × List Char
  | [] => ([], [])
  | c :: cs => if c = '+' ∨ c = '-' then ([c], cs) else ([], c :: cs)

theorem signParts (cs : List Char) : (signPart cs).1 ++ (signPart cs).2 = cs := by
  cases cs with
  | nil => rfl
  | cons c cs => by_cases sign : c = '+' ∨ c = '-' <;> simp [signPart, sign]

theorem signLonger {cs : List Char} (some : cs ≠ []) (more : List Char) :
    signPart (cs ++ more) = ((signPart cs).1, (signPart cs).2 ++ more) := by
  cases cs with
  | nil => contradiction
  | cons c cs => by_cases sign : c = '+' ∨ c = '-' <;> simp [signPart, sign]

theorem exponentMarked {e : Char} (mark : e = 'e' ∨ e = 'E') (cs : List Char) :
    exponentPart (e :: cs) =
      if (digitRun (signPart cs).2).1 = [] then ([], e :: cs)
      else (e :: ((signPart cs).1 ++ (digitRun (signPart cs).2).1), (digitRun (signPart cs).2).2) := by
  cases cs with
  | nil => simp [exponentPart, mark, signPart, digitRun, List.span_eq_takeWhile_dropWhile]
  | cons c cs =>
    by_cases sign : c = '+' ∨ c = '-'
    · rcases hr : digitRun cs with ⟨_ | ⟨d, run⟩, after⟩ <;>
        simp [exponentPart, mark, signPart, sign, hr]
    · rcases hr : digitRun (c :: cs) with ⟨_ | ⟨d, run⟩, after⟩ <;>
        simp [exponentPart, mark, signPart, sign, hr]

theorem exponentUnmarked {e : Char} (mark : ¬(e = 'e' ∨ e = 'E')) (cs : List Char) :
    exponentPart (e :: cs) = ([], e :: cs) := by
  simp [exponentPart, mark]

theorem exponentShortened {cs ds rest more : List Char}
    (h : exponentPart cs = (ds, rest ++ more)) : exponentPart (ds ++ rest) = (ds, rest) := by
  have parts := exponentParts h
  cases hr : ds ++ rest with
  | nil =>
    obtain ⟨rfl, rfl⟩ := List.append_eq_nil_iff.mp hr
    rfl
  | cons e short =>
    have whole : cs = e :: (short ++ more) := by
      rw [← parts, ← List.append_assoc, hr, List.cons_append]
    subst whole
    by_cases mark : e = 'e' ∨ e = 'E'
    case neg =>
      rw [exponentUnmarked mark, Prod.mk.injEq] at h
      obtain ⟨rfl, -⟩ := h
      rw [exponentUnmarked mark, ← hr]
      rfl
    obtain ⟨run, after, found⟩ : ∃ run after, digitRun (signPart (short ++ more)).2 = (run, after) :=
      ⟨_, _, rfl⟩
    rw [exponentMarked mark, found] at h
    rcases eq_or_ne run [] with rfl | some
    · obtain ⟨rfl, -⟩ := Prod.mk.inj h
      have none : (digitRun (signPart short).2).1 = [] := by
        cases short with
        | nil => rfl
        | cons c short =>
          rw [signLonger (by simp)] at found
          have same := runParts found
          rw [List.nil_append] at same
          rw [same] at found
          rw [← List.nil_append (signPart _).2, runShortened found]
      rw [exponentMarked mark, if_pos none, ← hr, List.nil_append]
    · rw [if_neg some] at h
      obtain ⟨rfl, rfl⟩ := Prod.mk.inj h
      have behind : (signPart (short ++ more)).1 ++ (run ++ rest) = short := by simpa using hr
      have filled : short ≠ [] := by
        rintro rfl
        simp [some] at behind
      rw [signLonger filled] at found behind
      have digits : (signPart short).2 = run ++ rest :=
        List.append_cancel_left ((signParts short).trans behind.symm)
      have again := runShortened found
      rw [exponentMarked mark, digits, again, if_neg some, signLonger filled]

theorem numberShortened {cs ds rest more : List Char}
    (h : numberPart cs = some (ds, rest ++ more)) : numberPart (ds ++ rest) = some (ds, rest) := by
  simp only [numberPart, Option.map_eq_some_iff] at h
  obtain ⟨⟨mantissa, tail⟩, hm, whole⟩ := h
  obtain ⟨exponent, after, he⟩ : ∃ exponent after, exponentPart tail = (exponent, after) :=
    ⟨_, _, rfl⟩
  simp only [he, Prod.mk.injEq] at whole
  obtain ⟨rfl, rfl⟩ := whole
  rw [← exponentParts he, ← List.append_assoc] at hm
  rw [numberPart, List.append_assoc, mantissaShortened hm]
  simp [exponentShortened he]

theorem scanShortened {cs rest more : List Char} {token : Token}
    (h : scan? cs = some (token, rest ++ more)) :
    scan? (token.text ++ rest) = some (token, rest) := by
  unfold scan? at h
  split at h
  · rename_i text after number
    cases h
    simp [scan?, Token.text, numberShortened number]
  · split at h
    · contradiction
    · rename_i c tail _
      split at h
      · rename_i start
        obtain ⟨word, after, hw⟩ : ∃ word after, tail.span isNameRest = (word, after) := ⟨_, _, rfl⟩
        simp only [hw, Option.some.injEq, Prod.mk.injEq] at h
        obtain ⟨rfl, rfl⟩ := h
        simp only [Token.text, List.cons_append, scan?, noNumberBeforeName start, start,
          spanShortened hw, if_true]
      · split at h
        · rename_i symbol
          cases h
          exact symbolFront symbol rest
        · contradiction

theorem scanLexeme {cs rest : List Char} {token : Token} (h : scan? cs = some (token, rest)) :
    Lexeme token := by
  have alone := scanShortened (show scan? cs = some (token, [] ++ rest) from h)
  rwa [List.append_nil] at alone

theorem digitDenseAll {ds : List Char} (digits : ∀ c ∈ ds, isDigit c) :
    ∀ c ∈ ds, isBlank c = false := by
  intro c inside
  refine Bool.eq_false_iff.mpr fun blank => ?_
  simpa [digits c inside] using blankNotDigit blank

theorem mantissaDense {cs ds tail : List Char} (h : mantissaPart cs = some (ds, tail)) :
    ∀ c ∈ ds, isBlank c = false := by
  have point {ds es : List Char} (left : ∀ c ∈ ds, isDigit c) (right : ∀ c ∈ es, isDigit c) :
      ∀ c ∈ ds ++ '.' :: es, isBlank c = false := by
    intro c inside
    rcases List.mem_append.mp inside with inside | inside
    · exact digitDenseAll left c inside
    · rcases List.mem_cons.mp inside with rfl | inside
      · rfl
      · exact digitDenseAll right c inside
  unfold mantissaPart at h
  split at h
  · split at h
    · contradiction
    · rename_i run
      cases h
      exact point (List.forall_mem_nil _) (runDigits run)
  · contradiction
  · rename_i run
    cases h
    exact point (runDigits run) (runDigits rfl)
  · rename_i run
    cases h
    exact digitDenseAll (runDigits run)

theorem exponentDense {cs ds tail : List Char} (h : exponentPart cs = (ds, tail)) :
    ∀ c ∈ ds, isBlank c = false := by
  cases cs with
  | nil =>
    cases h
    simp
  | cons e cs =>
    by_cases mark : e = 'e' ∨ e = 'E'
    · rw [exponentMarked mark] at h
      split_ifs at h
      · cases h
        simp
      · cases h
        have signDense : ∀ c ∈ (signPart cs).1, isBlank c = false := by
          cases cs with
          | nil => simp [signPart]
          | cons c cs =>
            by_cases sign : c = '+' ∨ c = '-'
            · rcases sign with rfl | rfl <;> simp [signPart, isBlank]
            · simp [signPart, sign]
        intro c inside
        rcases List.mem_cons.mp inside with rfl | inside
        · rcases mark with rfl | rfl <;> rfl
        rcases List.mem_append.mp inside with inside | inside
        · exact signDense c inside
        · exact digitDenseAll (runDigits rfl) c inside
    · rw [exponentUnmarked mark] at h
      cases h
      simp

theorem numberDense {cs ds tail : List Char} (h : numberPart cs = some (ds, tail)) :
    ∀ c ∈ ds, isBlank c = false := by
  simp only [numberPart, Option.map_eq_some_iff] at h
  obtain ⟨⟨mantissa, middle⟩, hm, whole⟩ := h
  obtain ⟨rfl, rfl⟩ := Prod.mk.inj whole
  intro c inside
  rcases List.mem_append.mp inside with inside | inside
  · exact mantissaDense hm c inside
  · exact exponentDense rfl c inside

theorem scanDense {cs rest : List Char} {token : Token} (h : scan? cs = some (token, rest)) :
    ∀ c ∈ token.text, isBlank c = false := by
  cases token with
  | name text => exact (nameScanned h).dense
  | number text =>
    unfold scan? at h
    split at h
    · rename_i number
      cases h
      exact numberDense number
    · split at h
      · contradiction
      · split_ifs at h <;> cases h
  | symbol c =>
    unfold scan? at h
    split at h
    · cases h
    · split at h
      · contradiction
      · split_ifs at h with start known
        · cases h
        · cases h
          simpa [Token.text] using (symbolClasses known).2.2.2.1

theorem Lexes.lossless {cs : List Char} {tokens : List Token} (h : Lexes cs tokens) :
    cs.filter (fun c => !isBlank c) = tokens.flatMap Token.text := by
  induction h with
  | nil => rfl
  | @cons cs token rest tokens first others ih =>
    obtain ⟨front, parts, blank, -⟩ := dropBlanksParts cs
    have kept : token.text.filter (fun c => !isBlank c) = token.text :=
      List.filter_eq_self.mpr fun c inside => by simp [scanDense first c inside]
    rw [parts, ← (scanParts first).1, List.filter_append, List.filter_append, blank.filtered, kept,
      ih, List.nil_append, List.flatMap_cons]

theorem Lexes.each {cs : List Char} {tokens : List Token} (h : Lexes cs tokens) :
    ∀ token ∈ tokens, Lexeme token ∧ ∀ c ∈ token.text, isBlank c = false := by
  induction h with
  | nil => simp
  | cons first others ih =>
    exact List.forall_mem_cons.mpr ⟨⟨scanLexeme first, scanDense first⟩, ih⟩

theorem Lexes.ends {cs : List Char} {tokens : List Token} (h : Lexes cs tokens) :
    EndsSolid cs := by
  induction h with
  | nil => simp [EndsSolid]
  | @cons cs token rest tokens first others ih =>
    obtain ⟨front, parts, -, -⟩ := dropBlanksParts cs
    obtain ⟨whole, filled⟩ := scanParts first
    rw [parts, ← whole]
    rcases eq_or_ne rest [] with rfl | some
    · rw [List.append_nil]
      exact (EndsSolid.dense (scanDense first)).after filled front
    · exact (ih.after some _).after (by simp [filled]) front

inductive Spread : List Token → List Char → Prop
  | nil : Spread [] []
  | cons {token tokens gap text} (blank : Blank gap) (apart : tokens ≠ [] → gap ≠ [])
      (others : Spread tokens text) : Spread (token :: tokens) (token.text ++ (gap ++ text))

theorem Lexes.some {cs : List Char} {tokens : List Token} (h : Lexes cs tokens)
    (some : tokens ≠ []) : cs ≠ [] := by
  rintro rfl
  cases h with
  | nil => contradiction
  | cons first others => cases first

theorem Lexes.indented {front cs : List Char} {tokens : List Token} (blank : Blank front)
    (h : Lexes cs tokens) (some : tokens ≠ []) : Lexes (front ++ cs) tokens := by
  cases h with
  | nil => contradiction
  | cons first others =>
    refine .cons ?_ others
    rwa [dropBlanks, List.dropWhile_append_of_pos blank]

theorem spreadLexes {tokens : List Token} {text : List Char} (spread : Spread tokens text)
    (words : ∀ token ∈ tokens, Lexeme token ∧ ∀ c ∈ token.text, isBlank c = false) :
    ∃ body back, text = body ++ back ∧ Blank back ∧ EndsSolid body ∧ Lexes body tokens := by
  induction spread with
  | nil => exact ⟨[], [], rfl, Blank.nil, by simp [EndsSolid], .nil⟩
  | @cons token tokens gap text blank apart others ih =>
    obtain ⟨⟨lexeme, dense⟩, rest⟩ := List.forall_mem_cons.mp words
    obtain ⟨_, given⟩ := scanParts lexeme
    have starts (more : List Char) : dropBlanks (token.text ++ more) = token.text ++ more :=
      dropBlanksAfter Blank.nil ((StartsSolid.dense dense).before given more)
    rcases eq_or_ne tokens [] with rfl | some
    · cases others
      refine ⟨token.text, gap, by simp, blank, .dense dense, .cons ?_ .nil⟩
      have alone := starts []
      rw [List.append_nil] at alone
      rw [alone]
      exact lexeme
    · obtain ⟨body, back, rfl, blankBack, ends, lexes⟩ := ih rest
      have filled := lexes.some some
      refine ⟨token.text ++ (gap ++ body), back, by simp, blankBack,
        (ends.after filled _).after (by simp [filled]) _, .cons ?_ (lexes.indented blank some)⟩
      have stops : Stops (gap ++ body) := by
        cases gap with
        | nil => exact absurd rfl (apart some)
        | cons c gap =>
          rintro _ ⟨⟩
          exact .inl (blank c List.mem_cons_self)
      rw [starts, scanFront lexeme stops]

theorem tokenizeLexes {body back : List Char} {tokens : List Token} (lexes : Lexes body tokens)
    (some : tokens ≠ []) (ends : EndsSolid body) (blank : Blank back) :
    tokenize (body ++ back) = .ok tokens := by
  simp only [tokenize, dropBlanksRightBefore blank ends, scanAllLexes lexes 0 le_rfl, okBind]
  cases tokens with
  | nil => contradiction
  | cons token tokens => rfl

theorem tokenizeSome {cs : List Char} {tokens : List Token} (h : tokenize cs = .ok tokens) :
    tokens ≠ [] := by
  obtain ⟨scanned, _, last⟩ := bindOk.mp h
  split at last
  · contradiction
  · rename_i filled
    cases last
    exact filled

def Begins (c : Char) (rest : List Char) : Prop :=
  isDigit c ∨ c.isAlpha ∨ c = '_' ∨ c ∈ "-+*/^(),".toList ∨ c = '.' ∧ ∃ d ∈ rest.head?, isDigit d

theorem runNone {cs tail : List Char} (h : digitRun cs = ([], tail)) :
    ∀ c ∈ cs.head?, isDigit c = false := by
  rintro c first
  cases cs with
  | nil => cases first
  | cons d cs =>
    cases first
    by_contra digit
    simp [digitRun, List.span_eq_takeWhile_dropWhile, digit] at h

theorem mantissaNone {c : Char} {rest : List Char} (h : mantissaPart (c :: rest) = none) :
    isDigit c = false ∧ (c = '.' → ∀ d ∈ rest.head?, isDigit d = false) := by
  unfold mantissaPart at h
  split at h
  · rename_i middle run
    split at h
    · rename_i fractionRun
      cases runParts run
      exact ⟨rfl, fun _ => runNone fractionRun⟩
    · contradiction
  · rename_i noPoint run
    refine ⟨runNone run c rfl, ?_⟩
    rintro rfl
    exact absurd (runParts run) (noPoint rest)
  · contradiction
  · contradiction

theorem scanNone {c : Char} {rest : List Char} (h : scan? (c :: rest) = none) :
    ¬Begins c rest := by
  unfold scan? at h
  split at h
  · contradiction
  · rename_i number
    have mantissa : mantissaPart (c :: rest) = none := by simpa [numberPart] using number
    obtain ⟨digit, point⟩ := mantissaNone mantissa
    split at h
    · contradiction
    · rename_i same
      cases same
      split_ifs at h with start known
      rintro (isDigit | letter | rfl | symbol | ⟨rfl, d, first, isDigit⟩)
      · simp [digit] at isDigit
      · simp [isNameStart, letter] at start
      · contradiction
      · exact known (by simpa [isSymbol] using symbol)
      · simp [point rfl d first] at isDigit

theorem scanAllFails {steps : Nat} : ∀ {position : Nat} {cs : List Char} {fault : Malformed},
    cs.length ≤ steps → scanAll steps position cs = .error fault →
    ∃ before tokens rest, cs = before ++ rest ∧ rest ≠ [] ∧ Lexes before tokens ∧
      fault = .character (position + before.length) ∧ scan? (dropBlanks rest) = none := by
  induction steps with
  | zero =>
    intro position cs fault enough failed
    cases List.length_eq_zero_iff.mp (Nat.le_zero.mp enough)
    contradiction
  | succ steps ih =>
    intro position cs fault enough failed
    cases cs with
    | nil => contradiction
    | cons c cs =>
      simp only [scanAll] at failed
      split at failed
      · rename_i none
        cases failed
        exact ⟨[], [], c :: cs, rfl, by simp, .nil, rfl, none⟩
      · rename_i token rest first
        obtain ⟨whole, filled⟩ := scanParts first
        obtain ⟨front, parts, blank, -⟩ := dropBlanksParts (c :: cs)
        rw [← whole] at parts
        have length := congrArg List.length parts
        have positive := List.length_pos_iff.mpr filled
        simp only [List.length_append] at length
        have shorter : rest.length ≤ steps := by omega
        have later : scanAll steps (position + ((c :: cs).length - rest.length)) rest =
            .error fault := by
          rcases bindFails.mp failed with failed | ⟨_, _, done⟩
          · exact failed
          · cases done
        obtain ⟨before, tokens, left, rfl, some, lexes, place, none⟩ := ih shorter later
        refine ⟨front ++ (token.text ++ before), token :: tokens, left, by simpa using parts, some,
          .cons ?_ lexes, ?_, none⟩
        · -- The first token is also the first of the text that ends where reading stops.
          have short := scanShortened first
          rwa [dropBlanksAfter blank ((StartsSolid.dense (scanDense first)).before filled before)]
        · rw [place, length]
          simp only [List.length_append]
          congr 1
          omega

theorem beginsBefore {c : Char} {rest back : List Char} (blank : Blank back)
    (h : Begins c (rest ++ back)) : Begins c rest := by
  rcases h with digit | letter | line | symbol | ⟨point, d, first, digit⟩
  · exact .inl digit
  · exact .inr (.inl letter)
  · exact .inr (.inr (.inl line))
  · exact .inr (.inr (.inr (.inl symbol)))
  · refine .inr (.inr (.inr (.inr ⟨point, d, ?_, digit⟩)))
    cases rest with
    | nil =>
      have none := blankNotDigit (blank d (List.mem_of_mem_head? first))
      simp [digit] at none
    | cons e rest => exact first

theorem leftCharacter {rest : List Char} (some : rest ≠ []) (ends : EndsSolid rest) :
    ∃ blanks c tail, rest = blanks ++ c :: tail ∧ dropBlanks rest = c :: tail ∧ Blank blanks ∧
      isBlank c = false := by
  obtain ⟨blanks, parts, blank, starts⟩ := dropBlanksParts rest
  cases kept : dropBlanks rest with
  | nil =>
    rw [kept, List.append_nil] at parts
    have solid := ends (rest.getLast some) (List.getLast_mem_getLast? some)
    rw [blank _ (parts ▸ List.getLast_mem some)] at solid
    cases solid
  | cons c tail =>
    rw [kept] at parts starts
    exact ⟨blanks, c, tail, parts, rfl, blank, starts c rfl⟩

theorem tokenizeBlank {cs : List Char} (blank : Blank cs) : tokenize cs = .error .empty := by
  have none : dropBlanksRight cs = [] := by
    simpa using dropBlanksRightBefore blank EndsSolid.nil
  rw [tokenize, none]
  rfl

structure BreaksOff (cs before : List Char) : Prop where
  accepted : before = [] ∨ ∃ tokens, tokenize before = .ok tokens
  stuck : ∃ blanks c rest, cs = before ++ (blanks ++ c :: rest) ∧ Blank blanks ∧
    isBlank c = false ∧ ¬Begins c rest

theorem tokenizeFails {cs : List Char} {fault : Malformed} (failed : tokenize cs = .error fault) :
    fault = .empty ∧ Blank cs ∨
      ∃ before, fault = .character before.length ∧ BreaksOff cs before := by
  obtain ⟨back, parts, blank, ends⟩ := dropBlanksRightParts cs
  rcases bindFails.mp failed with failed | ⟨tokens, scanned, none⟩
  · obtain ⟨before, tokens, rest, halves, some, lexes, place, stuck⟩ := scanAllFails le_rfl failed
    have solid : EndsSolid rest := by
      intro c last
      refine ends c ?_
      rw [halves, List.getLast?_append_of_ne_nil _ some]
      exact last
    obtain ⟨blanks, c, tail, left, kept, white, other⟩ := leftCharacter some solid
    rw [kept] at stuck
    refine .inr ⟨before, by simpa using place, ?_, blanks, c, tail ++ back, ?_, white, other,
      mt (beginsBefore blank) (scanNone stuck)⟩
    · rcases eq_or_ne tokens [] with rfl | given
      · cases lexes
        exact .inl rfl
      · have alone := tokenizeLexes lexes given lexes.ends Blank.nil
        exact .inr ⟨tokens, by rwa [List.append_nil] at alone⟩
    · rw [parts, halves, left]
      simp
  · have lexes := lexesScanAll scanned
    split at none
    · cases none
      cases hb : dropBlanksRight cs with
      | nil =>
        rw [hb] at parts
        exact .inl ⟨rfl, parts ▸ blank⟩
      | cons c cs =>
        rw [hb] at lexes
        cases lexes
    · contradiction

/-- The tokens of a text are the text without its white space, none of them is empty, and they
are read again however they are set apart; a text without tokens is blank or breaks off. -/
theorem tokenizeLossless (cs : List Char) :
    (∀ tokens, tokenize cs = .ok tokens →
      cs.filter (fun c => !isBlank c) = tokens.flatMap Token.text ∧
      (∀ token ∈ tokens, token.text ≠ []) ∧
      ∀ front text, Blank front → Spread tokens text → tokenize (front ++ text) = .ok tokens) ∧
    (tokenize cs = .error .empty ↔ Blank cs) ∧
    ∀ fault, tokenize cs = .error fault →
      Blank cs ∨ ∃ before, fault = .character before.length ∧ BreaksOff cs before := by
  refine ⟨fun tokens accepted => ?_, ⟨fun failed => ?_, tokenizeBlank⟩, fun fault failed => ?_⟩
  · have lexes := lexesTokenize accepted
    obtain ⟨back, parts, blank, -⟩ := dropBlanksRightParts cs
    refine ⟨?_, fun token inside => (scanParts (lexes.each token inside).1).2,
      fun front text white spread => ?_⟩
    · rw [parts, List.filter_append, blank.filtered, List.append_nil, lexes.lossless]
    · have some := tokenizeSome accepted
      obtain ⟨body, back, rfl, blankBack, ends, again⟩ := spreadLexes spread lexes.each
      rw [← List.append_assoc]
      exact tokenizeLexes (again.indented white some) some (ends.after (again.some some) front)
        blankBack
  · rcases tokenizeFails failed with ⟨-, blank⟩ | ⟨before, place, -⟩
    · exact blank
    · cases place
  · exact (tokenizeFails failed).imp And.right id

example : tokenize "1e+ 1.5.2".toList =
    .ok [.number ['1'], .name ['e'], .symbol '+', .number "1.5".toList, .number ".2".toList] := by
  decide

end OverlayMotion.Token

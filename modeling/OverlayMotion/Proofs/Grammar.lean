import OverlayMotion.Expr.Operand
import OverlayMotion.Proofs.Outcome

/-! The grammar of formula text, as relations between tokens and the tree they write:

    expression := term (('+' | '-') term)*
    term       := unary (('*' | '/') unary)*
    unary      := '-' unary | '+' unary | power
    power      := primary ['^' unary]
    primary    := NUMBER | NAME | NAME '(' expression (',' expression)* ')' | '(' expression ')'

The readers accept exactly what it derives. Soundness goes by the fuel of the readers,
completeness by the derivation, which bounds the fuel it needs by seven steps a token. -/
namespace OverlayMotion.Expr
open Token (symbol)

variable {ν : Type} [Number ν]

def literal (text : List Char) : ν :=
  Number.ofDecimal (Decimal.numeral text).1 (Decimal.numeral text).2

mutual

inductive WritesSum : List Token → Expr ν → Prop
  | product {ts e} (only : WritesProduct ts e) : WritesSum ts e
  | add {ls rs l r} (left : WritesSum ls l) (right : WritesProduct rs r) :
      WritesSum (ls ++ symbol '+' :: rs) (.binary .add l r)
  | sub {ls rs l r} (left : WritesSum ls l) (right : WritesProduct rs r) :
      WritesSum (ls ++ symbol '-' :: rs) (.binary .sub l r)

inductive WritesProduct : List Token → Expr ν → Prop
  | signed {ts e} (only : WritesSigned ts e) : WritesProduct ts e
  | mul {ls rs l r} (left : WritesProduct ls l) (right : WritesSigned rs r) :
      WritesProduct (ls ++ symbol '*' :: rs) (.binary .mul l r)
  | div {ls rs l r} (left : WritesProduct ls l) (right : WritesSigned rs r) :
      WritesProduct (ls ++ symbol '/' :: rs) (.binary .div l r)

inductive WritesSigned : List Token → Expr ν → Prop
  | power {ts e} (only : WritesPower ts e) : WritesSigned ts e
  | minus {ts e} (operand : WritesSigned ts e) : WritesSigned (symbol '-' :: ts) (negate e)
  | plus {ts e} (operand : WritesSigned ts e) : WritesSigned (symbol '+' :: ts) e

inductive WritesPower : List Token → Expr ν → Prop
  | primary {ts e} (only : WritesPrimary ts e) : WritesPower ts e
  | pow {bs es b e} (base : WritesPrimary bs b) (exponent : WritesSigned es e) :
      WritesPower (bs ++ symbol '^' :: es) (.binary .pow b e)

inductive WritesPrimary : List Token → Expr ν → Prop
  | number {text} : WritesPrimary [.number text] (.const (literal text))
  | name {text} : WritesPrimary [.name text] (.var (String.ofList text))
  | call {text ts es} (arguments : WritesArguments ts es) :
      WritesPrimary (.name text :: symbol '(' :: (ts ++ [symbol ')'])) (.call (String.ofList text) es)
  | group {ts e} (inner : WritesSum ts e) : WritesPrimary (symbol '(' :: (ts ++ [symbol ')'])) e

inductive WritesArguments : List Token → List (Expr ν) → Prop
  | last {ts e} (argument : WritesSum ts e) : WritesArguments ts [e]
  | more {ts us e es} (argument : WritesSum ts e) (others : WritesArguments us es) :
      WritesArguments (ts ++ symbol ',' :: us) (e :: es)

end

def Writes (source : String) (e : Expr ν) : Prop :=
  ∃ tokens, Token.tokenize source.toList = .ok tokens ∧ WritesSum tokens e

def Took (ts rest : List Token) (P : List Token → Prop) : Prop := ∃ used, ts = used ++ rest ∧ P used

def WritesOthers (used : List Token) (es : List (Expr ν)) : Prop :=
  (used = [] ∧ es = []) ∨ ∃ us, used = symbol ',' :: us ∧ WritesArguments us es

structure Sound (ν : Type) [Number ν] (n : Nat) : Prop where
  sum : ∀ {ts rest} {e : Expr ν}, readSum n ts = .ok (e, rest) → Took ts rest (WritesSum · e)
  sumRest : ∀ {ls ts rest} {l e : Expr ν}, WritesSum ls l → readSumRest n l ts = .ok (e, rest) →
    Took ts rest fun used => WritesSum (ls ++ used) e
  product : ∀ {ts rest} {e : Expr ν}, readProduct n ts = .ok (e, rest) →
    Took ts rest (WritesProduct · e)
  productRest : ∀ {ls ts rest} {l e : Expr ν}, WritesProduct ls l →
    readProductRest n l ts = .ok (e, rest) → Took ts rest fun used => WritesProduct (ls ++ used) e
  signed : ∀ {ts rest} {e : Expr ν}, readSigned n ts = .ok (e, rest) →
    Took ts rest (WritesSigned · e)
  power : ∀ {ts rest} {e : Expr ν}, readPower n ts = .ok (e, rest) → Took ts rest (WritesPower · e)
  primary : ∀ {ts rest} {e : Expr ν}, readPrimary n ts = .ok (e, rest) →
    Took ts rest (WritesPrimary · e)
  arguments : ∀ {ts rest} {es : List (Expr ν)}, readArguments n ts = .ok (es, rest) →
    Took ts rest (WritesOthers · es)

theorem closingTakes {ts rest : List Token} (h : closing ts = .ok rest) :
    ts = symbol ')' :: rest := by
  unfold closing at h
  split at h
  · cases h; rfl
  · contradiction

namespace Sound

variable {n : Nat}

theorem ofSum (ih : Sound ν n) {ts rest} {e : Expr ν} (h : readSum (n + 1) ts = .ok (e, rest)) :
    Took ts rest (WritesSum · e) := by
  simp only [readSum, bindOk] at h
  obtain ⟨⟨first, middle⟩, hf, hr⟩ := h
  obtain ⟨fs, rfl, wf⟩ := ih.product hf
  obtain ⟨us, rfl, wu⟩ := ih.sumRest (.product wf) hr
  exact ⟨fs ++ us, by simp, wu⟩

theorem ofSumRest (ih : Sound ν n) {ls ts rest} {l e : Expr ν} (left : WritesSum ls l)
    (h : readSumRest (n + 1) l ts = .ok (e, rest)) :
    Took ts rest fun used => WritesSum (ls ++ used) e := by
  unfold readSumRest at h
  split at h
  · contradiction
  · rename_i same; cases same
    simp only [bindOk] at h
    obtain ⟨⟨right, middle⟩, hp, hr⟩ := h
    obtain ⟨rs, rfl, wr⟩ := ih.product hp
    obtain ⟨us, rfl, wu⟩ := ih.sumRest (.add left wr) hr
    exact ⟨symbol '+' :: (rs ++ us), by simp, by simpa using wu⟩
  · rename_i same; cases same
    simp only [bindOk] at h
    obtain ⟨⟨right, middle⟩, hp, hr⟩ := h
    obtain ⟨rs, rfl, wr⟩ := ih.product hp
    obtain ⟨us, rfl, wu⟩ := ih.sumRest (.sub left wr) hr
    exact ⟨symbol '-' :: (rs ++ us), by simp, by simpa using wu⟩
  · cases h
    exact ⟨[], rfl, by simpa using left⟩

theorem ofProduct (ih : Sound ν n) {ts rest} {e : Expr ν}
    (h : readProduct (n + 1) ts = .ok (e, rest)) : Took ts rest (WritesProduct · e) := by
  simp only [readProduct, bindOk] at h
  obtain ⟨⟨first, middle⟩, hf, hr⟩ := h
  obtain ⟨fs, rfl, wf⟩ := ih.signed hf
  obtain ⟨us, rfl, wu⟩ := ih.productRest (.signed wf) hr
  exact ⟨fs ++ us, by simp, wu⟩

theorem ofProductRest (ih : Sound ν n) {ls ts rest} {l e : Expr ν} (left : WritesProduct ls l)
    (h : readProductRest (n + 1) l ts = .ok (e, rest)) :
    Took ts rest fun used => WritesProduct (ls ++ used) e := by
  unfold readProductRest at h
  split at h
  · contradiction
  · rename_i same; cases same
    simp only [bindOk] at h
    obtain ⟨⟨right, middle⟩, hp, hr⟩ := h
    obtain ⟨rs, rfl, wr⟩ := ih.signed hp
    obtain ⟨us, rfl, wu⟩ := ih.productRest (.mul left wr) hr
    exact ⟨symbol '*' :: (rs ++ us), by simp, by simpa using wu⟩
  · rename_i same; cases same
    simp only [bindOk] at h
    obtain ⟨⟨right, middle⟩, hp, hr⟩ := h
    obtain ⟨rs, rfl, wr⟩ := ih.signed hp
    obtain ⟨us, rfl, wu⟩ := ih.productRest (.div left wr) hr
    exact ⟨symbol '/' :: (rs ++ us), by simp, by simpa using wu⟩
  · cases h
    exact ⟨[], rfl, by simpa using left⟩

theorem ofSigned (ih : Sound ν n) {ts rest} {e : Expr ν}
    (h : readSigned (n + 1) ts = .ok (e, rest)) : Took ts rest (WritesSigned · e) := by
  unfold readSigned at h
  split at h
  · contradiction
  · rename_i same; cases same
    simp only [bindOk] at h
    obtain ⟨⟨operand, middle⟩, ho, last⟩ := h
    cases last
    obtain ⟨us, rfl, wu⟩ := ih.signed ho
    exact ⟨symbol '-' :: us, rfl, .minus wu⟩
  · rename_i same; cases same
    obtain ⟨us, rfl, wu⟩ := ih.signed h
    exact ⟨symbol '+' :: us, rfl, .plus wu⟩
  · rename_i same _ _; cases same
    obtain ⟨us, rfl, wu⟩ := ih.power h
    exact ⟨us, rfl, .power wu⟩

theorem ofPower (ih : Sound ν n) {ts rest} {e : Expr ν}
    (h : readPower (n + 1) ts = .ok (e, rest)) : Took ts rest (WritesPower · e) := by
  simp only [readPower, bindOk] at h
  obtain ⟨⟨base, middle⟩, hb, hr⟩ := h
  obtain ⟨bs, rfl, wb⟩ := ih.primary hb
  split at hr
  · rename_i same; cases same
    simp only [bindOk] at hr
    obtain ⟨⟨exponent, after⟩, he, last⟩ := hr
    cases last
    obtain ⟨es, rfl, we⟩ := ih.signed he
    exact ⟨bs ++ symbol '^' :: es, by simp, .pow wb we⟩
  · cases hr
    exact ⟨bs, rfl, .primary wb⟩

theorem ofPrimary (ih : Sound ν n) {ts rest} {e : Expr ν}
    (h : readPrimary (n + 1) ts = .ok (e, rest)) : Took ts rest (WritesPrimary · e) := by
  unfold readPrimary at h
  split at h
  · contradiction
  · contradiction
  · cases h
    exact ⟨[_], rfl, .number⟩
  · rename_i same; cases same
    simp only [bindOk] at h
    obtain ⟨⟨first, middle⟩, hf, ⟨others, after⟩, ho, closed, hc, last⟩ := h
    cases last
    obtain ⟨fs, rfl, wf⟩ := ih.sum hf
    obtain ⟨us, rfl, wu⟩ := ih.arguments ho
    cases closingTakes hc
    rcases wu with ⟨rfl, rfl⟩ | ⟨us, rfl, wu⟩
    · exact ⟨_, by simp, .call (.last wf)⟩
    · exact ⟨_, by simp, .call (.more wf wu)⟩
  · cases h
    exact ⟨[_], rfl, .name⟩
  · rename_i same; cases same
    simp only [bindOk] at h
    obtain ⟨⟨inner, middle⟩, hi, closed, hc, last⟩ := h
    cases last
    obtain ⟨us, rfl, wu⟩ := ih.sum hi
    cases closingTakes hc
    exact ⟨_, by simp, .group wu⟩
  · contradiction

theorem ofArguments (ih : Sound ν n) {ts rest} {es : List (Expr ν)}
    (h : readArguments (n + 1) ts = .ok (es, rest)) : Took ts rest (WritesOthers · es) := by
  unfold readArguments at h
  split at h
  · contradiction
  · rename_i same; cases same
    simp only [bindOk] at h
    obtain ⟨⟨argument, middle⟩, ha, ⟨others, after⟩, ho, last⟩ := h
    cases last
    obtain ⟨as, rfl, wa⟩ := ih.sum ha
    obtain ⟨us, rfl, wu⟩ := ih.arguments ho
    rcases wu with ⟨rfl, rfl⟩ | ⟨us, rfl, wu⟩
    · exact ⟨symbol ',' :: as, by simp, .inr ⟨as, rfl, .last wa⟩⟩
    · exact ⟨_, by simp, .inr ⟨as ++ symbol ',' :: us, rfl, .more wa wu⟩⟩
  · cases h
    exact ⟨[], rfl, .inl ⟨rfl, rfl⟩⟩

end Sound

theorem readersSound (n : Nat) : Sound ν n := by
  induction n with
  | zero =>
    constructor <;> intros <;> simp_all [readSum, readSumRest, readProduct, readProductRest,
      readSigned, readPower, readPrimary, readArguments]
  | succ n ih =>
    exact ⟨ih.ofSum, ih.ofSumRest, ih.ofProduct, ih.ofProductRest, ih.ofSigned, ih.ofPower,
      ih.ofPrimary, ih.ofArguments⟩

def Ends (stops : List Char) (rest : List Token) : Prop :=
  ∀ c ∈ stops, rest.head? ≠ some (symbol c)

def afterPower : List Char := ['(', '^']
def afterProduct : List Char := ['*', '/'] ++ afterPower
def afterSum : List Char := ['+', '-'] ++ afterProduct

theorem Ends.weaken {stops fewer : List Char} {rest : List Token} (ends : Ends stops rest)
    (sub : fewer ⊆ stops) : Ends fewer rest := fun c inside => ends c (sub inside)

theorem Ends.ne {stops : List Char} {c : Char} {rest tail : List Token} (ends : Ends stops rest)
    (stop : c ∈ stops) : rest ≠ symbol c :: tail := by
  intro same
  exact ends c stop (by rw [same]; rfl)

theorem endsSymbol {stops : List Char} {c : Char} (fresh : c ∉ stops) (rest : List Token) :
    Ends stops (symbol c :: rest) := by
  intro d inside same
  cases Option.some.inj same
  exact fresh inside

theorem endsNil (stops : List Char) : Ends stops [] := by
  intro c _
  simp

theorem sumRestEnds {n : Nat} {e : Expr ν} {rest : List Token} (ends : Ends ['+', '-'] rest)
    (fuel : 0 < n) : readSumRest n e rest = .ok (e, rest) := by
  unfold readSumRest
  split
  · contradiction
  · exact absurd rfl (ends.ne (c := '+') (by simp))
  · exact absurd rfl (ends.ne (c := '-') (by simp))
  · rfl

theorem productRestEnds {n : Nat} {e : Expr ν} {rest : List Token} (ends : Ends ['*', '/'] rest)
    (fuel : 0 < n) : readProductRest n e rest = .ok (e, rest) := by
  unfold readProductRest
  split
  · contradiction
  · exact absurd rfl (ends.ne (c := '*') (by simp))
  · exact absurd rfl (ends.ne (c := '/') (by simp))
  · rfl

theorem argumentsEnd {n : Nat} {rest : List Token} (ends : Ends [','] rest) (fuel : 0 < n) :
    readArguments (ν := ν) n rest = .ok ([], rest) := by
  unfold readArguments
  split
  · contradiction
  · exact absurd rfl (ends.ne (c := ',') (by simp))
  · rfl

theorem unsignedRead (n : Nat) {ts : List Token} (unsigned : Ends ['+', '-'] ts) :
    readSigned (ν := ν) (n + 1) ts = readPower n ts := by
  rw [readSigned]
  · exact fun _ => unsigned.ne (by simp)
  · exact fun _ => unsigned.ne (by simp)

theorem primaryRead (n : Nat) {ts : List Token} {e : Expr ν} {rest : List Token}
    (primary : readPrimary n ts = .ok (e, rest)) (ends : Ends ['^'] rest) :
    readPower (n + 1) ts = .ok (e, rest) := by
  simp only [readPower, primary, okBind]
  split
  · exact absurd rfl (ends.ne (c := '^') (by simp))
  · rfl

structure PrimaryReads (ts : List Token) (e : Expr ν) : Prop where
  pos : 0 < ts.length
  unsigned : ∀ rest, Ends ['+', '-'] (ts ++ rest)
  read : ∀ n rest, Ends ['('] rest → 7 * ts.length ≤ n + 6 →
    readPrimary n (ts ++ rest) = .ok (e, rest)

structure PowerReads (ts : List Token) (e : Expr ν) : Prop where
  pos : 0 < ts.length
  unsigned : ∀ rest, Ends ['+', '-'] (ts ++ rest)
  read : ∀ n rest, Ends afterPower rest → 7 * ts.length ≤ n + 5 →
    readPower n (ts ++ rest) = .ok (e, rest)

structure SignedReads (ts : List Token) (e : Expr ν) : Prop where
  pos : 0 < ts.length
  read : ∀ n rest, Ends afterPower rest → 7 * ts.length ≤ n + 4 →
    readSigned n (ts ++ rest) = .ok (e, rest)

structure ProductReads (ts : List Token) (e : Expr ν) : Prop where
  pos : 0 < ts.length
  goesOn : ∀ n rest, Ends afterPower rest → 7 * ts.length ≤ n + 3 →
    ∃ m, n ≤ m + ts.length ∧ readProduct n (ts ++ rest) = readProductRest m e rest

structure SumReads (ts : List Token) (e : Expr ν) : Prop where
  pos : 0 < ts.length
  goesOn : ∀ n rest, Ends afterProduct rest → 7 * ts.length ≤ n + 1 →
    ∃ m, n ≤ m + ts.length ∧ readSum n (ts ++ rest) = readSumRest m e rest

structure ArgumentsRead (ts : List Token) (es : List (Expr ν)) : Prop where
  read : ∀ n rest, Ends (',' :: afterSum) rest → 7 * ts.length ≤ n + 1 →
    ∃ first others middle, es = first :: others ∧
      readSum n (ts ++ rest) = .ok (first, middle) ∧ readArguments n middle = .ok (others, rest)

theorem ProductReads.read {ts} {e : Expr ν} (h : ProductReads ts e) (n : Nat)
    (rest : List Token) (ends : Ends afterProduct rest) (fuel : 7 * ts.length ≤ n + 3) :
    readProduct n (ts ++ rest) = .ok (e, rest) := by
  obtain ⟨m, bound, hm⟩ := h.goesOn n rest (ends.weaken (by decide)) fuel
  have pos := h.pos
  rw [hm, productRestEnds (ends.weaken (by decide)) (by omega)]

theorem SumReads.read {ts} {e : Expr ν} (h : SumReads ts e) (n : Nat) (rest : List Token)
    (ends : Ends afterSum rest) (fuel : 7 * ts.length ≤ n + 1) :
    readSum n (ts ++ rest) = .ok (e, rest) := by
  obtain ⟨m, bound, hm⟩ := h.goesOn n rest (ends.weaken (by decide)) fuel
  have pos := h.pos
  rw [hm, sumRestEnds (ends.weaken (by decide)) (by omega)]

theorem readsNumber (text : List Char) :
    PrimaryReads [.number text] (.const (literal text) : Expr ν) where
  pos := by simp
  unsigned rest := by intro c _; simp
  read n rest ends fuel := by
    obtain ⟨n, rfl⟩ : ∃ m, n = m + 1 := Nat.exists_eq_add_one.mpr (by simp at fuel; omega)
    rfl

theorem readsName (text : List Char) :
    PrimaryReads [.name text] (.var (String.ofList text) : Expr ν) where
  pos := by simp
  unsigned rest := by intro c _; simp
  read n rest ends fuel := by
    obtain ⟨n, rfl⟩ : ∃ m, n = m + 1 := Nat.exists_eq_add_one.mpr (by simp at fuel; omega)
    rw [List.cons_append, List.nil_append, readPrimary]
    exact fun _ => ends.ne (by simp)

theorem ArgumentsRead.call {ts} {es : List (Expr ν)} (h : ArgumentsRead ts es)
    (text : List Char) : PrimaryReads (.name text :: symbol '(' :: (ts ++ [symbol ')']))
      (.call (String.ofList text) es) where
  pos := by simp
  unsigned rest := by intro c _; simp
  read n rest ends fuel := by
    simp only [List.length_cons, List.length_append, List.length_nil] at fuel
    obtain ⟨n, rfl⟩ : ∃ m, n = m + 1 := Nat.exists_eq_add_one.mpr (by omega)
    obtain ⟨first, others, middle, rfl, hf, ho⟩ := h.read n (symbol ')' :: rest)
      (endsSymbol (by decide) _) (by omega)
    simp [readPrimary, hf, ho, closing]

theorem SumReads.group {ts} {e : Expr ν} (h : SumReads ts e) :
    PrimaryReads (symbol '(' :: (ts ++ [symbol ')'])) e where
  pos := by simp
  unsigned rest := endsSymbol (by simp) _
  read n rest ends fuel := by
    simp only [List.length_cons, List.length_append, List.length_nil] at fuel
    obtain ⟨n, rfl⟩ : ∃ m, n = m + 1 := Nat.exists_eq_add_one.mpr (by omega)
    have inner := h.read n (symbol ')' :: rest) (endsSymbol (by decide) _) (by omega)
    simp [readPrimary, inner, closing]

theorem PrimaryReads.power {ts} {e : Expr ν} (h : PrimaryReads ts e) : PowerReads ts e where
  pos := h.pos
  unsigned := h.unsigned
  read n rest ends fuel := by
    have pos := h.pos
    obtain ⟨n, rfl⟩ : ∃ m, n = m + 1 := Nat.exists_eq_add_one.mpr (by omega)
    exact primaryRead n (h.read n rest (ends.weaken (by decide)) (by omega))
      (ends.weaken (by decide))

theorem PrimaryReads.pow {bs es} {b e : Expr ν} (base : PrimaryReads bs b)
    (exponent : SignedReads es e) :
    PowerReads (bs ++ symbol '^' :: es) (.binary .pow b e) where
  pos := List.length_pos_iff.mpr (by simp)
  unsigned rest := by simpa using base.unsigned _
  read n rest ends fuel := by
    simp only [List.length_append, List.length_cons] at fuel
    have pos := base.pos
    obtain ⟨n, rfl⟩ : ∃ m, n = m + 1 := Nat.exists_eq_add_one.mpr (by omega)
    have below := base.read n (symbol '^' :: (es ++ rest)) (endsSymbol (by decide) _) (by omega)
    have above := exponent.read n rest ends (by omega)
    simp [readPower, below, above]

theorem PowerReads.signed {ts} {e : Expr ν} (h : PowerReads ts e) : SignedReads ts e where
  pos := h.pos
  read n rest ends fuel := by
    have pos := h.pos
    obtain ⟨n, rfl⟩ : ∃ m, n = m + 1 := Nat.exists_eq_add_one.mpr (by omega)
    rw [unsignedRead n (h.unsigned rest)]
    exact h.read n rest ends (by omega)

theorem SignedReads.minus {ts} {e : Expr ν} (h : SignedReads ts e) :
    SignedReads (symbol '-' :: ts) (negate e) where
  pos := by simp
  read n rest ends fuel := by
    simp only [List.length_cons] at fuel
    obtain ⟨n, rfl⟩ : ∃ m, n = m + 1 := Nat.exists_eq_add_one.mpr (by omega)
    have operand := h.read n rest ends (by omega)
    simp [readSigned, operand]

theorem SignedReads.plus {ts} {e : Expr ν} (h : SignedReads ts e) :
    SignedReads (symbol '+' :: ts) e where
  pos := by simp
  read n rest ends fuel := by
    simp only [List.length_cons] at fuel
    obtain ⟨n, rfl⟩ : ∃ m, n = m + 1 := Nat.exists_eq_add_one.mpr (by omega)
    have operand := h.read n rest ends (by omega)
    simp [readSigned, operand]

theorem SignedReads.product {ts} {e : Expr ν} (h : SignedReads ts e) : ProductReads ts e where
  pos := h.pos
  goesOn n rest ends fuel := by
    have pos := h.pos
    obtain ⟨n, rfl⟩ : ∃ m, n = m + 1 := Nat.exists_eq_add_one.mpr (by omega)
    have first := h.read n rest ends (by omega)
    exact ⟨n, by omega, by simp [readProduct, first]⟩

theorem ProductReads.step {ls rs c op} {l r : Expr ν} (left : ProductReads ls l)
    (right : SignedReads rs r) (fresh : c ∉ afterPower)
    (opens : ∀ m ts, readProductRest (m + 1) l (symbol c :: ts) =
      readSigned m ts >>= fun (r, rest) => readProductRest m (.binary op l r) rest) :
    ProductReads (ls ++ symbol c :: rs) (.binary op l r) where
  pos := List.length_pos_iff.mpr (by simp)
  goesOn n rest ends fuel := by
    simp only [List.length_append, List.length_cons] at fuel
    obtain ⟨m, bound, hl⟩ := left.goesOn n (symbol c :: (rs ++ rest)) (endsSymbol fresh _)
      (by omega)
    obtain ⟨m, rfl⟩ : ∃ k, m = k + 1 := Nat.exists_eq_add_one.mpr (by omega)
    have hr := right.read m rest ends (by omega)
    exact ⟨m, by simp; omega, by simp [hl, opens, hr]⟩

theorem ProductReads.sum {ts} {e : Expr ν} (h : ProductReads ts e) : SumReads ts e where
  pos := h.pos
  goesOn n rest ends fuel := by
    have pos := h.pos
    obtain ⟨n, rfl⟩ : ∃ m, n = m + 1 := Nat.exists_eq_add_one.mpr (by omega)
    have first := h.read n rest ends (by omega)
    exact ⟨n, by omega, by simp [readSum, first]⟩

theorem SumReads.step {ls rs c op} {l r : Expr ν} (left : SumReads ls l)
    (right : ProductReads rs r) (fresh : c ∉ afterProduct)
    (opens : ∀ m ts, readSumRest (m + 1) l (symbol c :: ts) =
      readProduct m ts >>= fun (r, rest) => readSumRest m (.binary op l r) rest) :
    SumReads (ls ++ symbol c :: rs) (.binary op l r) where
  pos := List.length_pos_iff.mpr (by simp)
  goesOn n rest ends fuel := by
    simp only [List.length_append, List.length_cons] at fuel
    obtain ⟨m, bound, hl⟩ := left.goesOn n (symbol c :: (rs ++ rest)) (endsSymbol fresh _)
      (by omega)
    obtain ⟨m, rfl⟩ : ∃ k, m = k + 1 := Nat.exists_eq_add_one.mpr (by omega)
    have hr := right.read m rest ends (by omega)
    exact ⟨m, by simp; omega, by simp [hl, opens, hr]⟩

theorem SumReads.last {ts} {e : Expr ν} (h : SumReads ts e) : ArgumentsRead ts [e] where
  read n rest ends fuel := by
    have pos := h.pos
    have whole := h.read n rest (ends.weaken (by decide)) fuel
    exact ⟨e, [], rest, rfl, whole, argumentsEnd (ends.weaken (by simp)) (by omega)⟩

theorem SumReads.more {ts us} {e : Expr ν} {es} (h : SumReads ts e) (others : ArgumentsRead us es) :
    ArgumentsRead (ts ++ symbol ',' :: us) (e :: es) where
  read n rest ends fuel := by
    simp only [List.length_append, List.length_cons] at fuel
    obtain ⟨n, rfl⟩ : ∃ m, n = m + 1 := Nat.exists_eq_add_one.mpr (by omega)
    have whole := h.read (n + 1) (symbol ',' :: (us ++ rest)) (endsSymbol (by decide) _) (by omega)
    obtain ⟨second, tail, middle, rfl, hs, ht⟩ := others.read n rest ends (by omega)
    refine ⟨e, second :: tail, symbol ',' :: (us ++ rest), rfl, by simpa using whole, ?_⟩
    simp [readArguments, hs, ht]

mutual

theorem WritesSum.reads {ts} {e : Expr ν} : WritesSum ts e → SumReads ts e
  | .product only => only.reads.sum
  | .add left right => left.reads.step right.reads (by decide) fun _ _ => rfl
  | .sub left right => left.reads.step right.reads (by decide) fun _ _ => rfl

theorem WritesProduct.reads {ts} {e : Expr ν} : WritesProduct ts e → ProductReads ts e
  | .signed only => only.reads.product
  | .mul left right => left.reads.step right.reads (by decide) fun _ _ => rfl
  | .div left right => left.reads.step right.reads (by decide) fun _ _ => rfl

theorem WritesSigned.reads {ts} {e : Expr ν} : WritesSigned ts e → SignedReads ts e
  | .power only => only.reads.signed
  | .minus operand => operand.reads.minus
  | .plus operand => operand.reads.plus

theorem WritesPower.reads {ts} {e : Expr ν} : WritesPower ts e → PowerReads ts e
  | .primary only => only.reads.power
  | .pow base exponent => base.reads.pow exponent.reads

theorem WritesPrimary.reads {ts} {e : Expr ν} : WritesPrimary ts e → PrimaryReads ts e
  | .number => readsNumber _
  | .name => readsName _
  | .call arguments => arguments.reads.call _
  | .group inner => inner.reads.group

theorem WritesArguments.reads {ts} {es : List (Expr ν)} :
    WritesArguments ts es → ArgumentsRead ts es
  | .last argument => argument.reads.last
  | .more argument others => argument.reads.more others.reads

end

theorem ofTokensSound {tokens : List Token} {e : Expr ν} (h : ofTokens tokens = .ok e) :
    WritesSum tokens e := by
  simp only [ofTokens, bindOk] at h
  obtain ⟨⟨read, rest⟩, hr, last⟩ := h
  split at last
  · rename_i done
    cases done
    cases last
    obtain ⟨used, rfl, written⟩ := (readersSound _).sum hr
    simpa using written
  · contradiction

theorem ofTokensComplete {tokens : List Token} {e : Expr ν} (h : WritesSum tokens e) :
    ofTokens tokens = .ok e := by
  have whole := h.reads.read (7 * tokens.length + 7) [] (endsNil _) (by omega)
  rw [List.append_nil] at whole
  simp [ofTokens, whole]

theorem writtenTreeUnique {tokens : List Token} {e f : Expr ν} (left : WritesSum tokens e)
    (right : WritesSum tokens f) : e = f :=
  Except.ok.inj ((ofTokensComplete left).symm.trans (ofTokensComplete right))

theorem parsedIffWritten (source : String) (e : Expr ν) :
    parse source = .ok e ↔ Writes source e := by
  simp only [parse, bindOk, Writes]
  constructor
  · rintro ⟨tokens, ht, he⟩
    exact ⟨tokens, ht, ofTokensSound he⟩
  · rintro ⟨tokens, ht, he⟩
    exact ⟨tokens, ht, ofTokensComplete he⟩

/-- Reading a text gives the one tree that its tokens write; a text that writes none is
malformed. -/
theorem parseExactlyGrammar (source : String) :
    (∀ e : Expr ν, parse source = .ok e ↔ Writes source e) ∧
    (∀ (tokens : List Token) (e f : Expr ν), WritesSum tokens e → WritesSum tokens f → e = f) ∧
    ((∀ e : Expr ν, ¬ Writes source e) →
      ∃ reason, read (ν := ν) source = .error (.malformed reason source)) := by
  refine ⟨parsedIffWritten source, fun _ _ _ => writtenTreeUnique, fun unwritten => ?_⟩
  cases h : parse (ν := ν) source with
  | ok e => exact absurd ((parsedIffWritten source e).mp h) (unwritten e)
  | error reason => exact ⟨reason, by rw [read, h]; rfl⟩

end OverlayMotion.Expr

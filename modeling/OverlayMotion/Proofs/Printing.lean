import OverlayMotion.Expr.Printer
import OverlayMotion.Proofs.Grammar
import OverlayMotion.Proofs.Numeral

/-! What printed formulas read back as. The text of a tree without a signed constant or
a double sign under a minus is derived by the grammar, and the derived tree is the printed
one, but for two things: each constant has become the number that its nine decimals denote,
and a power of a power has been regrouped, because its text has no parentheses and powers
group to the right. -/
namespace OverlayMotion.Expr
open Token (symbol Scans IsName isSymbol)

variable {ν : Type}

def raisedTo (exponent : Option (Expr ν)) (base : Expr ν) : Expr ν :=
  match exponent with
  | none => base
  | some e => .binary .pow base e

mutual

def regroup : Expr ν → Option (Expr ν) → Expr ν
  | .const v, above => raisedTo above (.const v)
  | .var name, above => raisedTo above (.var name)
  | .neg e, above => raisedTo above (.neg (regroup e none))
  | .binary .pow base exponent, above => regroup base (some (raisedTo above (regroup exponent none)))
  | .binary op left right, above =>
    raisedTo above (.binary op (regroup left none) (regroup right none))
  | .call function arguments, above => raisedTo above (.call function (regroupAll arguments))

def regroupAll : List (Expr ν) → List (Expr ν)
  | [] => []
  | e :: es => regroup e none :: regroupAll es

end

/-- The tree that text without parentheses around powers of powers writes: a power of
`a ^ b` is `a` to a power of `b`. -/
def regrouped (e : Expr ν) : Expr ν := regroup e none

def level : Expr ν → Nat
  | .binary op _ _ => op.precedence
  | _ => 4

mutual

def BasesPlain : Expr ν → Prop
  | .const _ => True
  | .var _ => True
  | .neg e => BasesPlain e
  | .binary op left right =>
    (op = .pow → level left ≠ 3) ∧ BasesPlain left ∧ BasesPlain right
  | .call _ arguments => AllBasesPlain arguments

def AllBasesPlain : List (Expr ν) → Prop
  | [] => True
  | e :: es => BasesPlain e ∧ AllBasesPlain es

end

theorem regroupRaised {e : Expr ν} (other : level e ≠ 3) (above : Option (Expr ν)) :
    regroup e above = raisedTo above (regroup e none) := by
  cases e with
  | binary op left right =>
    cases op with
    | pow => exact absurd rfl other
    | _ => rfl
  | _ => rfl

theorem regroupPower : ∀ e x : Expr ν,
    ∃ base exponent, regroup e (some x) = .binary .pow base exponent
  | .const _, _ => ⟨_, _, rfl⟩
  | .var _, _ => ⟨_, _, rfl⟩
  | .neg _, _ => ⟨_, _, rfl⟩
  | .call _ _, _ => ⟨_, _, rfl⟩
  | .binary .pow base _, _ => regroupPower base _
  | .binary .add _ _, _ => ⟨_, _, rfl⟩
  | .binary .sub _ _, _ => ⟨_, _, rfl⟩
  | .binary .mul _ _, _ => ⟨_, _, rfl⟩
  | .binary .div _ _, _ => ⟨_, _, rfl⟩

mutual

theorem regroupedPlain : ∀ e : Expr ν, BasesPlain e → regrouped e = e
  | .const _, _ => rfl
  | .var _, _ => rfl
  | .neg e, h => congrArg Expr.neg (regroupedPlain e h)
  | .binary op left right, ⟨base, hl, hr⟩ => by
    have l := regroupedPlain left hl
    have r := regroupedPlain right hr
    unfold regrouped at *
    cases op with
    | pow =>
      rw [regroup, regroupRaised (base rfl), l, r]
      rfl
    | _ => simp only [regroup, l, r, raisedTo]
  | .call f es, h => congrArg (Expr.call f) (regroupedAllPlain es h)

theorem regroupedAllPlain : ∀ es : List (Expr ν), AllBasesPlain es → regroupAll es = es
  | [], _ => rfl
  | e :: es, ⟨h, hs⟩ => by
    have first := regroupedPlain e h
    have others := regroupedAllPlain es hs
    unfold regrouped at first
    rw [regroupAll, first, others]

end

mutual

def Every (P : ν → Prop) : Expr ν → Prop
  | .const v => P v
  | .var _ => True
  | .neg e => Every P e
  | .binary _ left right => Every P left ∧ Every P right
  | .call _ arguments => EveryAll P arguments

def EveryAll (P : ν → Prop) : List (Expr ν) → Prop
  | [] => True
  | e :: es => Every P e ∧ EveryAll P es

end

mutual

theorem Every.weaken {P R : ν → Prop} (weaker : ∀ v, P v → R v) :
    ∀ e : Expr ν, Every P e → Every R e
  | .const v, h => weaker v h
  | .var _, _ => trivial
  | .neg e, h => Every.weaken weaker e h
  | .binary _ left right, h => ⟨Every.weaken weaker left h.1, Every.weaken weaker right h.2⟩
  | .call _ arguments, h => EveryAll.weaken weaker arguments h

theorem EveryAll.weaken {P R : ν → Prop} (weaker : ∀ v, P v → R v) :
    ∀ es : List (Expr ν), EveryAll P es → EveryAll R es
  | [], _ => trivial
  | e :: es, h => ⟨Every.weaken weaker e h.1, EveryAll.weaken weaker es h.2⟩

end

mutual

theorem Every.always {P : ν → Prop} (holds : ∀ v, P v) : ∀ e : Expr ν, Every P e
  | .const v => holds v
  | .var _ => trivial
  | .neg e => Every.always holds e
  | .binary _ left right => ⟨Every.always holds left, Every.always holds right⟩
  | .call _ arguments => EveryAll.always holds arguments

theorem EveryAll.always {P : ν → Prop} (holds : ∀ v, P v) : ∀ es : List (Expr ν), EveryAll P es
  | [] => trivial
  | e :: es => ⟨Every.always holds e, EveryAll.always holds es⟩

end

theorem everyRaised {P : ν → Prop} {above : Option (Expr ν)} {e : Expr ν}
    (ha : ∀ x ∈ above, Every P x) (h : Every P e) : Every P (raisedTo above e) := by
  cases above with
  | none => exact h
  | some x => exact ⟨h, ha x rfl⟩

mutual

theorem everyRegroup {P : ν → Prop} : ∀ (e : Expr ν) {above : Option (Expr ν)},
    (∀ x ∈ above, Every P x) → Every P e → Every P (regroup e above)
  | .const _, _, ha, h => everyRaised ha h
  | .var _, _, ha, h => everyRaised ha h
  | .neg e, _, ha, h => everyRaised ha (everyRegroup e (by simp) h)
  | .binary op left right, above, ha, h => by
    have r : Every P (regroup right none) := everyRegroup right (by simp) h.2
    cases op with
    | pow =>
      refine everyRegroup left (fun x same => ?_) h.1
      cases same
      exact everyRaised ha r
    | _ => exact everyRaised ha ⟨everyRegroup left (by simp) h.1, r⟩
  | .call _ arguments, _, ha, h => everyRaised ha (everyRegroupAll arguments h)

theorem everyRegroupAll {P : ν → Prop} : ∀ es : List (Expr ν),
    EveryAll P es → EveryAll P (regroupAll es)
  | [], _ => trivial
  | e :: es, h => ⟨everyRegroup e (by simp) h.1, everyRegroupAll es h.2⟩

end

theorem everyRegrouped {P : ν → Prop} {e : Expr ν} (h : Every P e) : Every P (regrouped e) :=
  everyRegroup e (by simp) h

theorem groupedByLevel {parent : Nat} {onRight : Bool} (low : parent + onRight.toNat ≤ 4)
    (e : Expr ν) (text : List Char) :
    grouped parent onRight e text =
      if level e < parent + onRight.toNat then parenthesized text else text := by
  cases e with
  | binary op left right =>
    refine if_congr ?_ rfl rfl
    cases onRight <;> simp [level]
    omega
  | _ =>
    have tight : ¬ 4 < parent + onRight.toNat := by omega
    simp [grouped, level, tight]

variable [Number ν]

def denoted (v : ν) : ν :=
  match numeralText v with
  | .ok ('-' :: cs) => Number.neg (literal cs)
  | .ok cs => literal cs
  | .error _ => v

mutual

def respelled (rename : String → String) : Expr ν → Expr ν
  | .const v => .const (denoted v)
  | .var name => .var (rename name)
  | .neg e => .neg (respelled rename e)
  | .binary op left right => .binary op (respelled rename left) (respelled rename right)
  | .call function arguments => .call function (respelledAll rename arguments)

def respelledAll (rename : String → String) : List (Expr ν) → List (Expr ν)
  | [] => []
  | e :: es => respelled rename e :: respelledAll rename es

end

mutual

def Normal : Expr ν → Prop
  | .const _ => True
  | .var name => IsName name.toList
  | .neg e => negate e = .neg e ∧ Normal e
  | .binary _ left right => Normal left ∧ Normal right
  | .call function arguments => IsName function.toList ∧ arguments ≠ [] ∧ AllNormal arguments

def AllNormal : List (Expr ν) → Prop
  | [] => True
  | e :: es => Normal e ∧ AllNormal es

end

theorem raisedRespelled (rename : String → String) (above : Option (Expr ν)) (e : Expr ν) :
    respelled rename (raisedTo above e) =
      raisedTo (above.map (respelled rename)) (respelled rename e) := by
  cases above <;> rfl

mutual

theorem regroupRespelled (rename : String → String) : ∀ (e : Expr ν) (above : Option (Expr ν)),
    regroup (respelled rename e) (above.map (respelled rename)) = respelled rename (regroup e above)
  | .const _, above => by
    rw [regroup, raisedRespelled]
    rfl
  | .var _, above => by
    rw [regroup, raisedRespelled]
    rfl
  | .neg e, above => by
    have inner := regroupRespelled rename e none
    rw [regroup, raisedRespelled, respelled, respelled, regroup, ← inner]
    rfl
  | .binary op left right, above => by
    have l := regroupRespelled rename left none
    have r := regroupRespelled rename right none
    cases op with
    | pow =>
      have base := regroupRespelled rename left (some (raisedTo above (regroup right none)))
      rw [Option.map_some, raisedRespelled, ← r] at base
      exact base
    | _ =>
      simp only [regroup, raisedRespelled, respelled, ← l, ← r]
      rfl
  | .call function arguments, above => by
    have all := regroupAllRespelled rename arguments
    simp only [regroup, raisedRespelled, respelled, all]

theorem regroupAllRespelled (rename : String → String) : ∀ es : List (Expr ν),
    regroupAll (respelledAll rename es) = respelledAll rename (regroupAll es)
  | [] => rfl
  | e :: es => by
    have first := regroupRespelled rename e none
    have others := regroupAllRespelled rename es
    rw [respelledAll, regroupAll, regroupAll, respelledAll, ← first, others]
    rfl

end

theorem negateRegrouped {e : Expr ν} (h : negate e = .neg e) (rename : String → String) :
    negate (regrouped (respelled rename e)) = .neg (regrouped (respelled rename e)) := by
  cases e with
  | const v => simp [negate] at h
  | neg e =>
    simp only [negate] at h
    have sizes := congrArg sizeOf h
    simp at sizes
    omega
  | var name => rfl
  | call f es => rfl
  | binary op left right =>
    cases op with
    | pow =>
      obtain ⟨base, exponent, same⟩ := regroupPower (respelled rename left)
        (raisedTo none (regroup (respelled rename right) none))
      simp only [regrouped, respelled, regroup, same, negate]
    | _ => rfl

def WritesAt (n : Nat) (ts : List Token) (e : Expr ν) : Prop :=
  match n with
  | 0 | 1 => WritesSum ts e
  | 2 => WritesProduct ts e
  | 3 => WritesPower ts e
  | _ + 4 => WritesPrimary ts e

theorem WritesAt.sum {n ts} {e : Expr ν} (h : WritesAt n ts e) : WritesSum ts e := by
  match n with
  | 0 | 1 => exact h
  | 2 => exact .product h
  | 3 => exact .product (.signed (.power h))
  | _ + 4 => exact .product (.signed (.power (.primary h)))

theorem WritesAt.product {n ts} {e : Expr ν} (h : WritesAt n ts e) (high : 2 ≤ n) :
    WritesProduct ts e := by
  match n with
  | 2 => exact h
  | 3 => exact .signed (.power h)
  | _ + 4 => exact .signed (.power (.primary h))

theorem WritesAt.signed {n ts} {e : Expr ν} (h : WritesAt n ts e) (high : 3 ≤ n) :
    WritesSigned ts e := by
  match n with
  | 3 => exact .power h
  | _ + 4 => exact .power (.primary h)

theorem WritesAt.primary {n ts} {e : Expr ν} (h : WritesAt n ts e) (high : 4 ≤ n) :
    WritesPrimary ts e := by
  match n with
  | _ + 4 => exact h

structure Spells (text : List Char) (ts : List Token) (e : Expr ν) : Prop where
  scans : Scans text ts
  writes : WritesAt (level e) ts (regrouped e)
  raises : 3 ≤ level e → ∀ {xs x}, WritesSigned xs x →
    WritesPower (ts ++ symbol '^' :: xs) (regroup e (some x))

structure SpellsWhole (text : List Char) (ts : List Token) (e : Expr ν) : Prop where
  scans : Scans text ts
  writes : WritesSum ts (regrouped e)

structure SpellsAll (texts : List (List Char)) (ts : List Token) (es : List (Expr ν)) : Prop where
  scans : Scans (commaSeparated texts) ts
  writes : WritesArguments ts (regroupAll es)

theorem Spells.whole {text ts} {e : Expr ν} (h : Spells text ts e) : SpellsWhole text ts e :=
  ⟨h.scans, h.writes.sum⟩

theorem scansParenthesized {text : List Char} {ts : List Token} (h : Scans text ts) :
    Scans (parenthesized text) (symbol '(' :: (ts ++ [symbol ')'])) :=
  (h.after (by decide)).before (by decide)

theorem spellsOfPrimary {text ts} {e : Expr ν} (scans : Scans text ts) (tight : level e = 4)
    (writes : WritesPrimary ts (regrouped e)) : Spells text ts e where
  scans := scans
  writes := by rw [tight]; exact writes
  raises _ _ _ above := by
    rw [regroupRaised (by omega)]
    exact .pow writes above

theorem SpellsWhole.parenthesized {text ts} {e : Expr ν} (h : SpellsWhole text ts e)
    (tight : level e = 4) :
    Spells (parenthesized text) (symbol '(' :: (ts ++ [symbol ')'])) e :=
  spellsOfPrimary (scansParenthesized h.scans) tight (.group h.writes)

theorem groupedRespelled (parent : Nat) (onRight : Bool) (rename : String → String) (e : Expr ν)
    (text : List Char) :
    grouped parent onRight (respelled rename e) text = grouped parent onRight e text := by
  cases e <;> rfl

theorem Spells.grouped {text ts} {e : Expr ν} (h : Spells text ts e) (parent : Nat) (onRight : Bool)
    (low : parent + onRight.toNat ≤ 4) :
    ∃ us n, parent + onRight.toNat ≤ n ∧ Scans (grouped parent onRight e text) us ∧
      WritesAt n us (regrouped e) := by
  rw [groupedByLevel low]
  split
  · exact ⟨_, 4, low, scansParenthesized h.scans, .group h.writes.sum⟩
  · rename_i bare
    exact ⟨ts, level e, by omega, h.scans, h.writes⟩

theorem Spells.base {text ts} {e : Expr ν} (h : Spells text ts e) :
    ∃ us, Scans (Expr.grouped 3 false e text) us ∧ ∀ {xs x}, WritesSigned xs x →
      WritesPower (us ++ symbol '^' :: xs) (regroup e (some x)) := by
  rw [groupedByLevel (by decide)]
  split
  · rename_i loose
    refine ⟨_, scansParenthesized h.scans, fun above => ?_⟩
    rw [regroupRaised (by simp at loose; omega)]
    exact .pow (.group h.writes.sum) above
  · rename_i tight
    exact ⟨ts, h.scans, h.raises (by simpa using tight)⟩

theorem operatorSymbol (op : Operator) : isSymbol op.symbol := by
  cases op <;> decide

class SignedBelowZero (ν : Type) [Number ν] : Prop where
  nonneg {v : ν} {q : Rat} (finite : Number.finite? v = .ok (some q))
    (above : Number.le Number.zero v) : 0 ≤ q

section

variable {text left right : List Char}

theorem denotedUnsigned {v : ν} {cs : List Char} (h : numeralText v = .ok cs)
    (unsigned : ∀ ds, cs ≠ '-' :: ds) : denoted v = literal cs := by
  rw [denoted, h]
  split
  · rename_i ds same
    exact absurd (Except.ok.inj same) (unsigned ds)
  · rename_i same
    cases same
    rfl
  · contradiction

theorem denotedSigned {v : ν} {cs : List Char} (h : numeralText v = .ok ('-' :: cs)) :
    denoted v = Number.neg (literal cs) := by
  rw [denoted, h]
  rfl

theorem numeralValue {v : ν} (h : numeralText v = .ok text) :
    ∃ q, Number.finite? v = .ok (some q) ∧ text = Decimal.nineDecimals q := by
  unfold numeralText at h
  split at h
  · rename_i q finite
    cases h
    exact ⟨q, finite, rfl⟩
  · contradiction
  · contradiction

theorem numeralCases {v : ν} (h : numeralText v = .ok text) : ∃ cs q, Decimal.Plain cs ∧
    Number.finite? v = .ok (some q) ∧ (text = cs ∧ denoted v = literal cs ∨
      q < 0 ∧ text = '-' :: cs ∧ denoted v = Number.neg (literal cs)) := by
  obtain ⟨q, finite, rfl⟩ := numeralValue h
  obtain ⟨cs, plain, bare | ⟨below, signed⟩⟩ := Decimal.nineDecimalsShape q
  · rw [bare] at h
    exact ⟨cs, q, plain, finite, .inl ⟨bare, denotedUnsigned h fun _ => plain.unsigned⟩⟩
  · rw [signed] at h
    exact ⟨cs, q, plain, finite, .inr ⟨below, signed, denotedSigned h⟩⟩

theorem constantWhole {v : ν} (h : numeralText v = .ok text) :
    ∃ ts, SpellsWhole text ts (.const (denoted v)) := by
  obtain ⟨cs, q, plain, _, ⟨rfl, same⟩ | ⟨_, rfl, same⟩⟩ := numeralCases h
  · rw [same]
    exact ⟨_, plain.scans, .product (.signed (.power (.primary .number)))⟩
  · rw [same]
    exact ⟨_, plain.scans.before (by decide), .product (.signed (.minus (.power (.primary .number))))⟩

theorem constantSpells [SignedBelowZero ν] {v : ν} (h : numeralText v = .ok text) :
    ∃ ts, Spells (if Number.le Number.zero v then text else parenthesized text) ts
      (.const (denoted v)) := by
  split
  · rename_i above
    obtain ⟨cs, q, plain, finite, ⟨rfl, same⟩ | ⟨below, _, _⟩⟩ := numeralCases h
    · rw [same]
      exact ⟨_, spellsOfPrimary plain.scans rfl .number⟩
    · have nonneg := SignedBelowZero.nonneg finite above
      exact absurd below (Rat.not_lt.mpr nonneg)
  · obtain ⟨ts, whole⟩ := constantWhole h
    exact ⟨_, whole.parenthesized rfl⟩

theorem variableSpells {name : String} (h : IsName name.toList) :
    Spells name.toList [.name name.toList] (.var name : Expr ν) := by
  refine spellsOfPrimary h.scans rfl ?_
  have named : WritesPrimary [.name name.toList] (.var (String.ofList name.toList) : Expr ν) := .name
  rwa [String.ofList_toList] at named

theorem negationWhole {ts} {e : Expr ν} (h : Spells text ts e)
    (signs : negate (regrouped e) = .neg (regrouped e)) :
    ∃ us, SpellsWhole ('-' :: grouped 4 false e text) us (.neg e) := by
  obtain ⟨us, n, tight, scans, writes⟩ := h.grouped 4 false (by decide)
  have signed := WritesSigned.minus (writes.signed (Nat.le_trans (by decide) tight))
  rw [signs] at signed
  exact ⟨_, scans.before (by decide), .product (.signed signed)⟩

theorem binarySpells (op : Operator) {ls rs} {l r : Expr ν} (hl : Spells left ls l)
    (hr : Spells right rs r) :
    ∃ ts, Spells (grouped op.precedence false l left ++
      op.symbol :: grouped op.precedence true r right) ts (.binary op l r) := by
  obtain ⟨us, n, high, su, wu⟩ := hl.grouped op.precedence false (by cases op <;> decide)
  obtain ⟨vs, m, higher, sv, wv⟩ := hr.grouped op.precedence true (by cases op <;> decide)
  have scans := su.between (operatorSymbol op) sv
  cases op with
  | add => exact ⟨_, scans, .add wu.sum (wv.product higher), by simp [level, Operator.precedence]⟩
  | sub => exact ⟨_, scans, .sub wu.sum (wv.product higher), by simp [level, Operator.precedence]⟩
  | mul =>
    have written := WritesProduct.mul (wu.product high) (wv.signed higher)
    exact ⟨_, scans, written, by simp [level, Operator.precedence]⟩
  | div =>
    have written := WritesProduct.div (wu.product high) (wv.signed higher)
    exact ⟨_, scans, written, by simp [level, Operator.precedence]⟩
  | pow =>
    obtain ⟨us, su, raised⟩ := hl.base
    have exponent := wv.primary higher
    have signed := wv.signed (by simp [Operator.precedence] at higher; omega)
    refine ⟨_, su.between (by decide) sv, raised signed, fun _ xs x above => ?_⟩
    have inner : WritesSigned (vs ++ symbol '^' :: xs) (.binary .pow (regrouped r) x) :=
      .power (.pow exponent above)
    have whole := raised inner
    rw [regroup, List.append_assoc]
    exact whole

theorem callSpells {function : String} {texts ts} {es : List (Expr ν)}
    (name : IsName function.toList) (h : SpellsAll texts ts es) :
    ∃ us, Spells (function.toList ++ parenthesized (commaSeparated texts)) us
      (.call function es) := by
  have arguments : WritesPrimary (.name function.toList :: symbol '(' :: (ts ++ [symbol ')']))
      (.call (String.ofList function.toList) (regroupAll es)) := .call h.writes
  rw [String.ofList_toList] at arguments
  refine ⟨_, spellsOfPrimary ?_ rfl arguments⟩
  exact name.scans.between (by decide) (h.scans.after (by decide))

theorem SpellsWhole.last {ts} {e : Expr ν} (h : SpellsWhole text ts e) :
    SpellsAll [text] ts [e] := ⟨h.scans, .last h.writes⟩

theorem SpellsWhole.more {texts ts us} {e : Expr ν} {es} (h : SpellsWhole text ts e)
    (others : SpellsAll texts us es) (some : texts ≠ []) :
    SpellsAll (text :: texts) (ts ++ symbol ',' :: us) (e :: es) where
  scans := by
    cases texts with
    | nil => contradiction
    | cons second texts => exact h.scans.between (by decide) others.scans
  writes := .more h.writes others.writes

end

structure Prints (rename : String → String) (e : Expr ν) : Prop where
  operand : ∀ {text}, print rename false e = .ok text → ∃ ts, Spells text ts (respelled rename e)
  whole : ∀ {text}, print rename true e = .ok text → ∃ ts, SpellsWhole text ts (respelled rename e)

def PrintsAll (rename : String → String) (es : List (Expr ν)) : Prop :=
  ∀ {texts}, printAll rename es = .ok texts →
    texts ≠ [] ∧ ∃ ts, SpellsAll texts ts (respelledAll rename es)

section

variable {rename : String → String}

theorem constantPrints [SignedBelowZero ν] (v : ν) : Prints rename (.const v) where
  operand h := by
    simp only [print, bindOk, pureIsOk] at h
    obtain ⟨numeral, hn, last⟩ := h
    cases last
    exact constantSpells hn
  whole h := by
    simp only [print, bindOk, pureIsOk] at h
    obtain ⟨numeral, hn, last⟩ := h
    cases last
    exact constantWhole hn

theorem variablePrints {name : String} (h : IsName (rename name).toList) :
    Prints rename (.var name : Expr ν) where
  operand printed := by
    cases printed
    exact ⟨_, variableSpells h⟩
  whole printed := by
    cases printed
    exact ⟨_, (variableSpells h).whole⟩

theorem negationPrints {e : Expr ν} (h : Prints rename e) (signs : negate e = .neg e) :
    Prints rename (.neg e) where
  operand printed := by
    simp only [print, bindOk] at printed
    obtain ⟨text, hp, last⟩ := printed
    cases last
    obtain ⟨ts, spelled⟩ := h.operand hp
    obtain ⟨us, whole⟩ := negationWhole spelled (negateRegrouped signs rename)
    rw [groupedRespelled] at whole
    exact ⟨_, whole.parenthesized rfl⟩
  whole printed := by
    simp only [print, bindOk] at printed
    obtain ⟨text, hp, last⟩ := printed
    cases last
    obtain ⟨ts, spelled⟩ := h.operand hp
    obtain ⟨us, whole⟩ := negationWhole spelled (negateRegrouped signs rename)
    rw [groupedRespelled] at whole
    exact ⟨us, whole⟩

theorem printsAlike {e : Expr ν} (alike : print rename true e = print rename false e)
    (operand : ∀ {text}, print rename false e = .ok text →
      ∃ ts, Spells text ts (respelled rename e)) : Prints rename e where
  operand := operand
  whole printed := by
    rw [alike] at printed
    obtain ⟨ts, spelled⟩ := operand printed
    exact ⟨ts, spelled.whole⟩

theorem binaryPrints (op : Operator) {l r : Expr ν} (hl : Prints rename l)
    (hr : Prints rename r) : Prints rename (.binary op l r) := by
  refine printsAlike rfl fun printed => ?_
  simp only [print, bindOk] at printed
  obtain ⟨left, pl, right, pr, last⟩ := printed
  cases last
  obtain ⟨ls, sl⟩ := hl.operand pl
  obtain ⟨rs, sr⟩ := hr.operand pr
  have spelled := binarySpells op sl sr
  rw [groupedRespelled, groupedRespelled] at spelled
  exact spelled

theorem callPrints {function : String} {es : List (Expr ν)} (name : IsName function.toList)
    (h : PrintsAll rename es) : Prints rename (.call function es) := by
  refine printsAlike rfl fun printed => ?_
  simp only [print, bindOk] at printed
  obtain ⟨texts, ht, last⟩ := printed
  cases last
  obtain ⟨_, ts, spelled⟩ := h ht
  exact callSpells name spelled

theorem lastPrints {e : Expr ν} (h : Prints rename e) : PrintsAll rename [e] := by
  intro texts printed
  simp only [printAll, bindOk, pureIsOk] at printed
  obtain ⟨text, ht, _, none, last⟩ := printed
  cases none
  cases last
  obtain ⟨ts, whole⟩ := h.whole ht
  exact ⟨by simp, ts, whole.last⟩

theorem morePrints {e : Expr ν} {es : List (Expr ν)} (h : Prints rename e)
    (others : PrintsAll rename es) : PrintsAll rename (e :: es) := by
  intro texts printed
  simp only [printAll, bindOk, pureIsOk] at printed
  obtain ⟨text, ht, rest, hr, last⟩ := printed
  cases last
  obtain ⟨ts, whole⟩ := h.whole ht
  obtain ⟨some, us, spelled⟩ := others hr
  exact ⟨by simp, _, whole.more spelled some⟩

def KeepsNames (rename : String → String) : Prop :=
  ∀ name, IsName name.toList → IsName (rename name).toList

theorem named {name : String} {c : Char} {rest : List Char}
    (spelled : name = String.ofList (c :: rest)) (front : Token.isNameStart c)
    (others : rest.all Token.isNameRest) : IsName name.toList := by
  rw [spelled, String.toList_ofList]
  exact ⟨c, rest, rfl, front, List.all_eq_true.mp others⟩

theorem keepsNamesId : KeepsNames id := fun _ name => name

mutual

theorem normalPrints [SignedBelowZero ν] (keeps : KeepsNames rename) :
    ∀ e : Expr ν, Normal e → Prints rename e
  | .const v, _ => constantPrints v
  | .var name, h => variablePrints (keeps name h)
  | .neg e, h => negationPrints (normalPrints keeps e h.2) h.1
  | .binary op left right, h =>
    binaryPrints op (normalPrints keeps left h.1) (normalPrints keeps right h.2)
  | .call _ arguments, h => callPrints h.1 (normalPrintAll keeps arguments h.2.1 h.2.2)

theorem normalPrintAll [SignedBelowZero ν] (keeps : KeepsNames rename) :
    ∀ es : List (Expr ν), es ≠ [] → AllNormal es → PrintsAll rename es
  | [], nonempty, _ => absurd rfl nonempty
  | [e], _, h => lastPrints (normalPrints keeps e h.1)
  | e :: second :: es, _, h =>
    morePrints (normalPrints keeps e h.1) (normalPrintAll keeps (second :: es) (by simp) h.2)

end

def Writable (v : ν) : Prop := ∃ text, numeralText v = .ok text

mutual

theorem printSucceeds : ∀ (e : Expr ν) (whole : Bool), Every Writable e →
    ∃ text, print rename whole e = .ok text
  | .const v, whole, ⟨text, h⟩ => ⟨_, by rw [print, h]; rfl⟩
  | .var name, _, _ => ⟨_, rfl⟩
  | .neg e, whole, h => by
    obtain ⟨text, printed⟩ := printSucceeds e false h
    exact ⟨_, by rw [print, printed]; rfl⟩
  | .binary op left right, whole, h => by
    obtain ⟨l, pl⟩ := printSucceeds left false h.1
    obtain ⟨r, pr⟩ := printSucceeds right false h.2
    exact ⟨_, by rw [print, pl, pr]; rfl⟩
  | .call function arguments, whole, h => by
    obtain ⟨texts, printed⟩ := printAllSucceeds arguments h
    exact ⟨_, by rw [print, printed]; rfl⟩

theorem printAllSucceeds : ∀ es : List (Expr ν), EveryAll Writable es →
    ∃ texts, printAll rename es = .ok texts
  | [], _ => ⟨[], rfl⟩
  | e :: es, h => by
    obtain ⟨text, printed⟩ := printSucceeds e true h.1
    obtain ⟨texts, others⟩ := printAllSucceeds es h.2
    exact ⟨_, by rw [printAll, printed, others]; rfl⟩

end

theorem renderSucceeds {e : Expr ν} (writable : Every Writable e) :
    ∃ text, renderRenamed rename e = .ok text := by
  obtain ⟨cs, printed⟩ : ∃ cs, print rename true e = .ok cs := printSucceeds e true writable
  exact ⟨String.ofList cs, mapOk.mpr ⟨cs, printed, rfl⟩⟩

theorem renderedReadsBack [SignedBelowZero ν] (keeps : KeepsNames rename) {e : Expr ν}
    (normal : Normal e) {text : String} (rendered : renderRenamed rename e = .ok text) :
    parse text = .ok (regrouped (respelled rename e)) := by
  simp only [renderRenamed, mapOk] at rendered
  obtain ⟨cs, printed, rfl⟩ := rendered
  obtain ⟨ts, spelled⟩ := (normalPrints keeps e normal).whole printed
  have some : ts ≠ [] := List.length_pos_iff.mp spelled.writes.reads.pos
  rw [parsedIffWritten]
  refine ⟨ts, ?_, spelled.writes⟩
  rw [String.toList_ofList]
  exact Token.tokenizeScans spelled.scans some

end

end OverlayMotion.Expr

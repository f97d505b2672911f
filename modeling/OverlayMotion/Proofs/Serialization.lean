import OverlayMotion.Proofs.Printing
import OverlayMotion.Proofs.SignedZero

/-! The text of a parsed formula has the value of the formula, provided its number
literals survive nine decimals and no power has a power as its base. A power of a power
loses its parentheses, so in general the text has the value of the regrouped tree. -/
namespace OverlayMotion.Expr
open Token (symbol IsName)

section

variable {ν : Type} [Number ν] {Q : ν → Prop}

structure Leaves (Q : ν → Prop) (ts : List Token) : Prop where
  literals : ∀ {text}, .number text ∈ ts → Q (literal text)
  names : ∀ {text}, .name text ∈ ts → IsName text

structure Tame (Q : ν → Prop) (e : Expr ν) : Prop where
  normal : Normal e
  constants : Every Q e

structure TameAll (Q : ν → Prop) (es : List (Expr ν)) : Prop where
  some : es ≠ []
  normal : AllNormal es
  constants : EveryAll Q es

theorem Leaves.among {ts us : List Token} (h : Leaves Q ts) (sub : us ⊆ ts) : Leaves Q us where
  literals inside := h.literals (sub inside)
  names inside := h.names (sub inside)

theorem Leaves.left {ls rs : List Token} {t : Token} (h : Leaves Q (ls ++ t :: rs)) : Leaves Q ls :=
  h.among (List.subset_append_left _ _)

theorem Leaves.right {ls rs : List Token} {t : Token} (h : Leaves Q (ls ++ t :: rs)) :
    Leaves Q rs :=
  h.among fun _ inside => List.mem_append_right _ (List.mem_cons_of_mem _ inside)

theorem Leaves.tail {ts : List Token} {t : Token} (h : Leaves Q (t :: ts)) : Leaves Q ts :=
  h.among (List.subset_cons_self _ _)

theorem tameBinary {op : Operator} {l r : Expr ν} (hl : Tame Q l) (hr : Tame Q r) :
    Tame Q (.binary op l r) :=
  ⟨⟨hl.normal, hr.normal⟩, hl.constants, hr.constants⟩

theorem tameNegate (closed : ∀ v, Q v → Q (Number.neg v)) {e : Expr ν} (h : Tame Q e) :
    Tame Q (negate e) := by
  cases e with
  | const v => exact ⟨trivial, closed v h.constants⟩
  | neg e => exact ⟨h.normal.2, h.constants⟩
  | var name => exact ⟨⟨rfl, h.normal⟩, trivial⟩
  | binary op l r => exact ⟨⟨rfl, h.normal⟩, h.constants⟩
  | call f es => exact ⟨⟨rfl, h.normal⟩, h.constants⟩

theorem tameName {text : List Char} (h : Leaves Q [.name text]) :
    Tame Q (.var (String.ofList text) : Expr ν) := by
  refine ⟨?_, trivial⟩
  rw [Normal, String.toList_ofList]
  exact h.names (List.mem_singleton_self _)

theorem tameCall {text : List Char} {ts : List Token} {es : List (Expr ν)}
    (h : Leaves Q (.name text :: ts)) (arguments : TameAll Q es) :
    Tame Q (.call (String.ofList text) es) := by
  refine ⟨⟨?_, arguments.some, arguments.normal⟩, arguments.constants⟩
  rw [String.toList_ofList]
  exact h.names List.mem_cons_self

mutual

theorem WritesSum.tame (closed : ∀ v, Q v → Q (Number.neg v)) {ts} {e : Expr ν} :
    WritesSum ts e → Leaves Q ts → Tame Q e
  | .product only, h => only.tame closed h
  | .add left right, h => tameBinary (left.tame closed h.left) (right.tame closed h.right)
  | .sub left right, h => tameBinary (left.tame closed h.left) (right.tame closed h.right)

theorem WritesProduct.tame (closed : ∀ v, Q v → Q (Number.neg v)) {ts} {e : Expr ν} :
    WritesProduct ts e → Leaves Q ts → Tame Q e
  | .signed only, h => only.tame closed h
  | .mul left right, h => tameBinary (left.tame closed h.left) (right.tame closed h.right)
  | .div left right, h => tameBinary (left.tame closed h.left) (right.tame closed h.right)

theorem WritesSigned.tame (closed : ∀ v, Q v → Q (Number.neg v)) {ts} {e : Expr ν} :
    WritesSigned ts e → Leaves Q ts → Tame Q e
  | .power only, h => only.tame closed h
  | .minus operand, h => tameNegate closed (operand.tame closed h.tail)
  | .plus operand, h => operand.tame closed h.tail

theorem WritesPower.tame (closed : ∀ v, Q v → Q (Number.neg v)) {ts} {e : Expr ν} :
    WritesPower ts e → Leaves Q ts → Tame Q e
  | .primary only, h => only.tame closed h
  | .pow base exponent, h => tameBinary (base.tame closed h.left) (exponent.tame closed h.right)

theorem WritesPrimary.tame (closed : ∀ v, Q v → Q (Number.neg v)) {ts} {e : Expr ν} :
    WritesPrimary ts e → Leaves Q ts → Tame Q e
  | .number, h => ⟨trivial, h.literals (List.mem_singleton_self _)⟩
  | .name, h => tameName h
  | .call arguments, h => tameCall h (arguments.tame closed h.tail.tail.left)
  | .group inner, h => inner.tame closed h.tail.left

theorem WritesArguments.tame (closed : ∀ v, Q v → Q (Number.neg v)) {ts} {es : List (Expr ν)} :
    WritesArguments ts es → Leaves Q ts → TameAll Q es
  | .last argument, h =>
    have first := argument.tame closed h
    ⟨List.cons_ne_nil _ _, ⟨first.normal, trivial⟩, first.constants, trivial⟩
  | .more argument others, h =>
    have first := argument.tame closed h.left
    have rest := others.tame closed h.right
    ⟨List.cons_ne_nil _ _, ⟨first.normal, rest.normal⟩, first.constants, rest.constants⟩

end

theorem parsedTame (closed : ∀ v, Q v → Q (Number.neg v)) {source : String} {e : Expr ν}
    (parsed : parse source = .ok e) (literals : ∀ {tokens text},
      Token.tokenize source.toList = .ok tokens → .number text ∈ tokens → Q (literal text)) :
    Tame Q e := by
  obtain ⟨tokens, ht, written⟩ := (parsedIffWritten source e).mp parsed
  exact written.tame closed ⟨literals ht, Token.lexesNames (Token.lexesTokenize ht)⟩

end

def SpelledAlike (v : Scalar) : Prop := (denoted v).Alike v

def EvalAlike (scope : Scope Scalar) (e' e : Expr Scalar) : Prop :=
  Agree Scalar.Alike (eval scope e') (eval scope e)

theorem evalAllAlike {scope : Scope Scalar} {es' es : List (Expr Scalar)}
    (each : List.Forall₂ (EvalAlike scope) es' es) :
    Agree (List.Forall₂ Scalar.Alike) (evalAll scope es') (evalAll scope es) := by
  induction each with
  | nil => exact .nil
  | cons first _ ih => exact first.bind fun hv => ih.bind fun hvs => .cons hv hvs

theorem conditionalAlike {scope : Scope Scalar} {es' es : List (Expr Scalar)}
    (each : List.Forall₂ (EvalAlike scope) es' es) :
    EvalAlike scope (.call "if" es') (.call "if" es) := by
  unfold EvalAlike
  rcases each with _ | ⟨test, _ | ⟨yes, _ | ⟨no, _ | more⟩⟩⟩
  case cons.cons.cons.nil =>
    simp only [eval, if_true]
    refine test.bind fun {v' v} hv => ?_
    have zero : Number.isZero v' = Number.isZero v := Builtin.eqAlike hv (Scalar.alikeSelf _)
    rw [zero]
    split
    · exact no
    · exact yes
  all_goals trivial

theorem callAlike {scope : Scope Scalar} (name : String) {es' es : List (Expr Scalar)}
    (each : List.Forall₂ (EvalAlike scope) es' es) :
    EvalAlike scope (.call name es') (.call name es) := by
  by_cases conditional : name = "if"
  · rw [conditional]
    exact conditionalAlike each
  · cases known : Builtin.ofName? name with
    | none =>
      have refused (es : List (Expr Scalar)) :
          eval scope (.call name es) = .error (.unknownFunction name) := by
        unfold eval
        simp only [if_neg conditional, known]
      rw [EvalAlike, refused, refused]
      trivial
    | some f =>
      have called (es : List (Expr Scalar)) :
          eval scope (.call name es) = evalAll scope es >>= f.apply := by
        unfold eval
        simp only [if_neg conditional, known]
      rw [EvalAlike, called, called]
      exact (evalAllAlike each).bind fun all => Builtin.applyAlike _ all

mutual

theorem evalRespelled (scope : Scope Scalar) : ∀ e : Expr Scalar, Every SpelledAlike e →
    EvalAlike scope (respelled id e) e
  | .const _, h => h
  | .var _, _ => .refl Scalar.alikeSelf _
  | .neg e, h => (evalRespelled scope e h).map Scalar.negAlike
  | .binary op left right, h =>
    (evalRespelled scope left h.1).bind fun hl =>
      (evalRespelled scope right h.2).bind fun hr => operatorAlike op hl hr
  | .call name arguments, h => callAlike name (eachRespelled scope arguments h)

theorem eachRespelled (scope : Scope Scalar) : ∀ es : List (Expr Scalar), EveryAll SpelledAlike es →
    List.Forall₂ (EvalAlike scope) (respelledAll id es) es
  | [], _ => .nil
  | e :: es, h => .cons (evalRespelled scope e h.1) (eachRespelled scope es h.2)

end

theorem evaluateAlike (bindings : List (String × Scalar)) {e' e : Expr Scalar}
    (h : EvalAlike (Scope.constants.extend bindings) e' e) :
    Agree Binary64.Alike (evaluate bindings e') (evaluate bindings e) :=
  (h.bind fun hv => (Scalar.toFloatAlike hv).mapError _ _).mapError _ _

def Survives {ν : Type} [Number ν] (v : ν) : Prop := Writable v ∧ denoted v = v

def Literal (v : Scalar) : Prop :=
  ∃ x : Float, Survives (.float x : Scalar) ∧ (v = .float x ∨ v = .float (-x))

theorem literalNeg (v : Scalar) (h : Literal v) : Literal (Number.neg v) := by
  obtain ⟨x, survives, rfl | rfl⟩ := h
  · exact ⟨x, survives, .inr rfl⟩
  · refine ⟨x, survives, .inl ?_⟩
    exact congrArg Scalar.float (Binary64.negNeg x)

theorem finiteNeg {x : Float} {q : Rat} (h : Number.finite? (.float x : Scalar) = .ok (some q)) :
    Number.finite? (.float (-x) : Scalar) = .ok (some (-q)) := by
  have value (y : Float) : Number.finite? (.float y : Scalar) =
      .ok ((Binary64.decode y).map Binary64.Decoded.toRat) := rfl
  rw [value] at *
  obtain ⟨d, hd, rfl⟩ := Option.map_eq_some_iff.mp (Except.ok.inj h)
  simp only [Binary64.decodeNeg, hd, Option.map_some, Binary64.toRatNeg]

theorem literalWritable {v : Scalar} (h : Literal v) : Writable v := by
  obtain ⟨x, ⟨writable, _⟩, rfl | rfl⟩ := h
  · exact writable
  · obtain ⟨text, ht⟩ := writable
    obtain ⟨q, finite, _⟩ := numeralValue ht
    exact ⟨_, by rw [numeralText, finiteNeg finite]⟩

theorem literalAlike {v : Scalar} (h : Literal v) : SpelledAlike v := by
  obtain ⟨x, ⟨⟨text, ht⟩, same⟩, rfl | rfl⟩ := h
  · rw [SpelledAlike, same]
    exact Scalar.alikeSelf _
  · obtain ⟨q, finite, rfl⟩ := numeralValue ht
    have opposite : numeralText (.float (-x) : Scalar) = .ok (Decimal.nineDecimals (-q)) := by
      rw [numeralText, finiteNeg finite]
    rcases Decimal.nineDecimalsNeg q with ⟨zero, zero'⟩ | ⟨cs, plain, ⟨hq, hq'⟩ | ⟨hq, hq'⟩⟩
    · -- Both are written as zero, so the literal is a zero and its opposite the other one.
      rw [zero] at ht
      rw [zero'] at opposite
      have literalZero : literal ['0'] = (.float 0 : Scalar) := rfl
      rw [denotedUnsigned ht (by simp), literalZero] at same
      cases same
      rw [SpelledAlike, denotedUnsigned opposite (by simp), literalZero]
      exact .inr ⟨by decide, by decide⟩
    · rw [hq] at ht
      rw [hq'] at opposite
      rw [denotedUnsigned ht fun _ => plain.unsigned] at same
      rw [SpelledAlike, denotedSigned opposite, same]
      exact Scalar.alikeSelf _
    · rw [hq] at ht
      rw [hq'] at opposite
      rw [denotedSigned ht] at same
      rw [SpelledAlike, denotedUnsigned opposite fun _ => plain.unsigned]
      cases same
      refine .inl ?_
      rw [Binary64.negNeg]

theorem survivesAsWritten {text : List Char} {d : Binary64.Decoded}
    (decoded : Binary64.decode (Binary64.ofDecimal false (Decimal.numeral text).1
      (Decimal.numeral text).2) = some d)
    (written : Decimal.nineDecimals d.toRat = text) (unsigned : ∀ ds, text ≠ '-' :: ds) :
    Survives (literal text : Scalar) := by
  have printed : numeralText (literal text : Scalar) = .ok text := by
    have finite : Number.finite? (literal text : Scalar) = .ok (some d.toRat) :=
      congrArg (fun o => Except.ok (Option.map Binary64.Decoded.toRat o)) decoded
    rw [numeralText, finite]
    exact congrArg Except.ok written
  exact ⟨⟨text, printed⟩, denotedUnsigned printed unsigned⟩

instance : SignedBelowZero Scalar where
  nonneg {v q} finite above := by
    cases v with
    | int n =>
      have positive : (compare 0 n).isLE := above
      rw [Std.LawfulOrderOrd.isLE_compare] at positive
      simp only [Number.finite?, Scalar.toFloat] at finite
      split at finite
      · rename_i x hx
        obtain ⟨d, hd, rfl⟩ := Option.map_eq_some_iff.mp (Except.ok.inj finite)
        exact Binary64.toRatNonneg (.inl (Binary64.ofIntSign hx positive hd))
      · contradiction
    | float x =>
      obtain ⟨d, hd, rfl⟩ := Option.map_eq_some_iff.mp (Except.ok.inj finite)
      have compared : (Scalar.compareInt 0 d).isLE := by
        simpa [Number.le, Number.zero, Number.ofInt, Scalar.compare?, hd] using above
      exact Binary64.toRatNonneg (Binary64.compareIntSign compared)

/-- For every text that a formula was read from, if its literals survive nine decimals, the
formula has a text, which reads back and has in every scope the value of the regrouped
formula; that is the formula itself where no power has a power as its base. -/
theorem renderedValueIsRegrouped {source : String} {e : Expr Scalar}
    (parsed : parse source = .ok e)
    (survive : ∀ {tokens text}, Token.tokenize source.toList = .ok tokens →
      .number text ∈ tokens → Survives (literal text : Scalar)) :
    ∃ (text : String) (back : Expr Scalar), render e = .ok text ∧ parse text = .ok back ∧
      (∀ bindings, Agree Binary64.Alike (evaluate bindings back) (evaluate bindings (regrouped e))) ∧
      (BasesPlain e →
        ∀ bindings, Agree Binary64.Alike (evaluate bindings back) (evaluate bindings e)) := by
  have tame : Tame Literal e := parsedTame literalNeg parsed fun ht inside =>
    ⟨_, survive ht inside, .inl rfl⟩
  have writable := tame.constants.weaken (fun _ => literalWritable) e
  obtain ⟨cs, printed⟩ : ∃ cs, print id true e = .ok cs := printSucceeds e true writable
  have rendered : render e = .ok (String.ofList cs) := by
    rw [render, renderRenamed, printed]
    rfl
  have back := renderedReadsBack keepsNamesId tame.normal rendered
  have swapped : regrouped (respelled id e) = respelled id (regrouped e) :=
    regroupRespelled id e none
  rw [swapped] at back
  have alike : ∀ bindings, Agree Binary64.Alike (evaluate bindings (respelled id (regrouped e)))
      (evaluate bindings (regrouped e)) := by
    intro bindings
    have spelled := (everyRegrouped tame.constants).weaken (fun _ => literalAlike) _
    exact evaluateAlike bindings (evalRespelled _ (regrouped e) spelled)
  refine ⟨_, _, rendered, back, alike, fun plain bindings => ?_⟩
  have same := alike bindings
  rw [regroupedPlain e plain] at same ⊢
  exact same

theorem renderedPowerOfPower :
    let e : Expr Scalar := .binary .pow
      (.binary .pow (.var (String.ofList ['w'])) (.const (literal ['2']))) (.var (String.ofList ['t']))
    parse "(w^2)^t" = .ok e ∧
    (∀ {tokens text}, Token.tokenize "(w^2)^t".toList = .ok tokens →
      .number text ∈ tokens → Survives (literal text : Scalar)) ∧
    ∃ (text : String) (back : Expr Scalar), render e = .ok text ∧ parse text = .ok back ∧
      (∀ bindings, Agree Binary64.Alike (evaluate bindings back) (evaluate bindings (regrouped e))) ∧
      (BasesPlain e →
        ∀ bindings, Agree Binary64.Alike (evaluate bindings back) (evaluate bindings e)) := by
  intro e
  have scanned : Token.tokenize "(w^2)^t".toList = .ok [symbol '(', .name ['w'], symbol '^',
      .number ['2'], symbol ')', symbol '^', .name ['t']] := by rfl
  have parsed : parse "(w^2)^t" = .ok e := by
    have base : WritesSum [.name ['w'], symbol '^', .number ['2']]
        (.binary .pow (.var (String.ofList ['w'])) (.const (literal ['2'])) : Expr Scalar) :=
      .product (.signed (.power (.pow .name (.power (.primary .number)))))
    rw [parsedIffWritten]
    exact ⟨_, scanned, .product (.signed (.power (.pow (.group base) (.power (.primary .name)))))⟩
  have survive : ∀ {tokens text}, Token.tokenize "(w^2)^t".toList = .ok tokens →
      .number text ∈ tokens → Survives (literal text : Scalar) := by
    intro tokens text ht inside
    rw [scanned] at ht
    cases ht
    have two : text = ['2'] := by simpa using inside
    have decoded : Binary64.decode (Binary64.ofDecimal false 2 0) = some ⟨false, 2 ^ 52, -51⟩ := by
      decide +kernel
    rw [two]
    exact survivesAsWritten decoded (by decide +kernel) (by simp)
  exact ⟨parsed, survive, renderedValueIsRegrouped parsed survive⟩

example (a b c : Expr Scalar) (h : level a ≠ 3) :
    regrouped (.binary .pow (.binary .pow a b) c) =
      .binary .pow (regrouped a) (.binary .pow (regrouped b) (regrouped c)) := by
  exact regroupRaised h _

end OverlayMotion.Expr

import OverlayMotion.Motion
import OverlayMotion.Proofs.Printing
import OverlayMotion.Proofs.Quantities

/-! What compiled trees inherit. A property of trees that every node has as builders make it,
if its parts have it, is one of all that is compiled, for any animation, as long as the formulas
among the coordinates are read as such trees. Two properties are of this kind: that a tree is
normal; and that its text reads back as that tree, which formula text may lack, since only
there a power can have a power as its base. Positions aside, no builder names anything but the
frame time, so there a property need not hold of other names. Nothing is said of whether
compiling succeeds. -/
namespace OverlayMotion

namespace Expr
open Token (IsName)

variable {ν : Type} [Number ν]

/-- A tree whose text can be read back as that tree. -/
structure Regular (e : Expr ν) : Prop where
  normal : Normal e
  bases : BasesPlain e

structure Carried (P : Expr ν → Prop) : Prop where
  const (v : ν) : P (.const v)
  time : P .time
  negate {e : Expr ν} : P e → P e.negate
  binary {op : Operator} {a b : Expr ν} : op ≠ .pow → P a → P b → P (.binary op a b)
  call {function : String} {es : List (Expr ν)} : IsName function.toList → es ≠ [] →
    (∀ e ∈ es, P e) → P (.call function es)

structure Inherited (P : Expr ν → Prop) : Prop where
  const (v : ν) : P (.const v)
  var {name : String} : IsName name.toList → P (.var name)
  negate {e : Expr ν} : P e → P e.negate
  binary {op : Operator} {a b : Expr ν} : op ≠ .pow → P a → P b → P (.binary op a b)
  call {function : String} {es : List (Expr ν)} : IsName function.toList → es ≠ [] →
    (∀ e ∈ es, P e) → P (.call function es)

theorem normalNegate {e : Expr ν} (h : Normal e) : Normal e.negate := by
  cases e with
  | const v => trivial
  | neg inner => exact h.2
  | var name => exact ⟨rfl, h⟩
  | binary op a b => exact ⟨rfl, h⟩
  | call function es => exact ⟨rfl, h⟩

theorem normalInherited : Inherited (Normal : Expr ν → Prop) where
  const _ := trivial
  var named := named
  negate := normalNegate
  binary _ ha hb := ⟨ha, hb⟩
  call {_ es} named some each := by
    refine ⟨named, some, ?_⟩
    clear some
    induction es with
    | nil => trivial
    | cons e es ih =>
      obtain ⟨first, others⟩ := List.forall_mem_cons.mp each
      exact ⟨first, ih others⟩

theorem basesNegate {e : Expr ν} (h : BasesPlain e) : BasesPlain e.negate := by
  cases e <;> exact h

theorem regularInherited : Inherited (Regular : Expr ν → Prop) where
  const _ := ⟨trivial, trivial⟩
  var named := ⟨named, trivial⟩
  negate h := ⟨normalNegate h.normal, basesNegate h.bases⟩
  binary other ha hb := ⟨⟨ha.normal, hb.normal⟩, fun raised => absurd raised other, ha.bases, hb.bases⟩
  call {_ es} named some each := by
    refine ⟨normalInherited.call named some fun e inside => (each e inside).normal, ?_⟩
    clear some
    induction es with
    | nil => trivial
    | cons e es ih =>
      obtain ⟨first, others⟩ := List.forall_mem_cons.mp each
      exact ⟨first.bases, ih others⟩

theorem Inherited.carried {P : Expr ν → Prop} (inherited : Inherited P) : Carried P where
  const := inherited.const
  time := inherited.var (named rfl rfl rfl)
  negate := inherited.negate
  binary := inherited.binary
  call := inherited.call

namespace Carried
variable {P : Expr ν → Prop} (carried : Carried P) {a b c : Expr ν}
include carried

theorem folded {compute : ν → ν → Except Fault ν} {otherwise : Expr ν} (h : P otherwise) :
    Returns P (folded compute a b otherwise) := by
  unfold Expr.folded
  split
  · exact .map carried.const
  · exact .ok h

theorem add (ha : P a) (hb : P b) : Returns P (a.add b) := by
  refine carried.folded ?_
  split_ifs
  · exact hb
  · exact ha
  · exact carried.binary (by decide) ha hb

theorem sub (ha : P a) (hb : P b) : Returns P (a.sub b) := by
  refine carried.folded ?_
  split_ifs
  · exact ha
  · exact carried.negate hb
  · exact carried.binary (by decide) ha hb

theorem mul (ha : P a) (hb : P b) : Returns P (a.mul b) := by
  refine carried.folded ?_
  split_ifs
  · exact carried.const _
  · exact hb
  · exact ha
  · exact carried.binary (by decide) ha hb

theorem div (ha : P a) (hb : P b) : Returns P (a.div b) := by
  have quotient : P (.binary .div a b) := carried.binary (by decide) ha hb
  unfold Expr.div
  by_cases zero : b.isZero
  · rw [if_pos zero]
    exact .ok quotient
  · rw [if_neg zero]
    refine carried.folded ?_
    split_ifs
    · exact ha
    · exact quotient

theorem pow (ha : P a) (hb : P b) : Returns P (a.pow b) := by
  unfold Expr.pow
  split
  · exact .map carried.const
  · refine .ok ?_
    split_ifs
    · exact ha
    · exact carried.call (named rfl rfl rfl) (by simp) (by simp [ha, hb])

theorem sin (ha : P a) : Returns P a.sin := by
  unfold Expr.sin
  split
  · exact .map carried.const
  · exact .ok (carried.call (named rfl rfl rfl) (by simp) (by simp [ha]))

theorem min (ha : P a) (hb : P b) : P (a.min b) := by
  unfold Expr.min
  split
  · exact carried.const _
  · exact carried.call (named rfl rfl rfl) (by simp) (by simp [ha, hb])

theorem max (ha : P a) (hb : P b) : P (a.max b) := by
  unfold Expr.max
  split
  · exact carried.const _
  · exact carried.call (named rfl rfl rfl) (by simp) (by simp [ha, hb])

theorem clamp (ha : P a) (hb : P b) (hc : P c) : P (a.clamp b c) :=
  carried.min (carried.max ha hb) hc

theorem lt (ha : P a) (hb : P b) : P (a.lt b) :=
  carried.call (named rfl rfl rfl) (by simp) (by simp [ha, hb])

theorem between (ha : P a) (hb : P b) (hc : P c) : P (a.between b c) :=
  carried.call (named rfl rfl rfl) (by simp) (by simp [ha, hb, hc])

theorem cond (ha : P a) (hb : P b) (hc : P c) : P (a.cond b c) := by
  unfold Expr.cond
  split
  · split_ifs
    · exact hc
    · exact hb
  · split_ifs
    · exact hb
    · exact carried.call (named rfl rfl rfl) (by simp) (by simp [ha, hb, hc])

end Carried

end Expr

open OverlayMotion.Expr

variable {ν : Type} [Number ν]

def Symbols.dimensions (s : Symbols) : List String :=
  [s.canvasWidth, s.canvasHeight, s.objectWidth, s.objectHeight]

theorem dimensionNamed {isCaption : Bool} {name : String}
    (inside : name ∈ (symbolsFor isCaption).dimensions) : Token.IsName name.toList := by
  cases isCaption <;>
    · simp only [symbolsFor, Symbols.dimensions, captionSymbols, imageSymbols, List.mem_cons,
        List.not_mem_nil, or_false, if_true] at inside
      rcases inside with rfl | rfl | rfl | rfl <;> exact Expr.named rfl rfl rfl

inductive Symbols.Edge (s : Symbols) : Expr ν → Prop
  | beyond {name : String} (inside : name ∈ s.dimensions) : s.Edge (.var name)
  | before {name : String} (inside : name ∈ s.dimensions) : s.Edge (.neg (.var name))

namespace Axis
variable {s : Symbols} {axis : Axis} {effect : Effect} {e : Expr ν}
omit [Number ν]

theorem entryEdge (given : e ∈ axis.entryOffset? s effect) : s.Edge e := by
  cases axis <;> cases effect <;> cases given <;> constructor <;> simp [Symbols.dimensions]

theorem exitEdge (given : e ∈ axis.exitTarget? s effect) : s.Edge e := by
  cases axis <;> cases effect <;> cases given <;> constructor <;> simp [Symbols.dimensions]

end Axis

structure Motion.Each (P : Expr ν → Prop) (m : Motion ν) : Prop where
  enable : P m.enable
  x : P m.x
  y : P m.y
  alpha : ∀ e ∈ m.alpha, P e

namespace Expr.Carried
variable {P : Expr ν → Prop} (carried : Carried P) {t : Timeline ν}
include carried

theorem curve {p : Expr ν} (h : P p) (e : Easing) : Returns P (e.curve p) := by
  cases e with
  | linear => exact .ok h
  | easeIn => exact carried.pow h (carried.const _)
  | easeOut =>
    refine (carried.sub (carried.const _) h).mapError.bind fun left hl => ?_
    refine (carried.pow hl (carried.const _)).bind fun cubed hc => ?_
    exact (carried.sub (carried.const _) hc).mapError
  | easeInOut =>
    refine (carried.pow h (carried.const _)).bind fun squared hs => ?_
    refine (carried.mul (carried.const _) hs).mapError.bind fun first hf => ?_
    refine (carried.pow h (carried.const _)).bind fun cubed hc => ?_
    refine (carried.mul (carried.const _) hc).mapError.bind fun second hd => ?_
    exact (carried.sub hf hd).mapError

theorem interpolate {first share last : Expr ν} (hf : P first) (hs : P share) (hl : P last) :
    Returns P (interpolate first share last) :=
  (carried.sub hl hf).bind fun _ way =>
    (carried.mul hs way).bind fun _ part => carried.add hf part

theorem progress (start duration : ν) : Returns P (Timeline.progress start duration) := by
  unfold Timeline.progress
  split_ifs
  · exact .ok (carried.const _)
  · refine (carried.sub carried.time (carried.const _)).bind fun elapsed he => ?_
    refine (carried.div he (carried.const _)).bind fun share hs => ?_
    exact .ok (carried.clamp hs (carried.const _) (carried.const _))

theorem inProgress : Returns P t.inProgress := .after fun _ => carried.progress _ _

theorem outProgress : Returns P t.outProgress := .after fun _ => carried.progress _ _

theorem eased {progress : Except Fault (Expr ν)} (h : Returns P progress) (p : Phase ν) :
    Returns P (Timeline.eased progress p) :=
  h.mapError.bind fun _ share => carried.curve share _

theorem moving {progress : Except Fault (Expr ν)} (h : Returns P progress)
    {ends? : Effect → Option (Expr ν × Expr ν)}
    (ends : ∀ effect, ∀ e ∈ ends? effect, P e.1 ∧ P e.2) (phase : Option (Phase ν)) :
    Returns (fun slid => ∀ e ∈ slid, P e) (Timeline.moving phase progress ends?) := by
  cases phase with
  | none => exact .ok (by simp)
  | some p =>
    refine Returns.option (o := ends? p.effect) fun way inside => ?_
    obtain ⟨hf, hl⟩ := ends p.effect way inside
    exact (carried.eased h p).bind fun share hs => (carried.interpolate hf hs hl).mapError

theorem piecewise {entering exiting : Option (Expr ν)} {rest : Expr ν}
    (he : ∀ e ∈ entering, P e) (hr : P rest) (hx : ∀ e ∈ exiting, P e) :
    P (t.piecewise entering rest exiting) := by
  have before (e : Expr ν) (he : P e) (bound : ν) {after : Expr ν} (ha : P after) :
      P ((Expr.time.lt (.const bound)).cond e after) :=
    carried.cond (carried.lt carried.time (carried.const _)) he ha
  cases entering with
  | none =>
    cases exiting with
    | none => exact hr
    | some x => exact before rest hr _ (hx x rfl)
  | some e =>
    cases exiting with
    | none => exact before e (he e rfl) _ hr
    | some x => exact before e (he e rfl) _ (before rest hr _ (hx x rfl))

theorem opacity : Returns (fun alpha => ∀ e ∈ alpha, P e) t.opacity? := by
  simp only [Timeline.opacity?]
  split
  · exact .ok (by simp)
  · refine (Returns.option fun p _ => carried.eased carried.inProgress p).bind fun coming hc =>
      (Returns.option fun p _ => (carried.eased carried.outProgress p).bind fun share hs =>
        (carried.sub (carried.const _) hs).mapError).bind fun going hg => .ok ?_
    rintro _ ⟨⟩
    exact carried.piecewise hc (carried.const _) hg

theorem zoomEntry {p : Phase ν} {base : ν} : Returns P (zoomEntry t p base) := by
  unfold OverlayMotion.zoomEntry
  refine .after fun low => .after fun high => ?_
  cases p.overshoot with
  | none =>
    exact (carried.eased carried.inProgress p).bind fun _ hs =>
      (carried.interpolate (carried.const _) hs (carried.const _)).mapError
  | some factor =>
    refine .after fun peak => .after fun rise => .after fun settle => .after fun summit => ?_
    refine (carried.progress _ _).mapError.bind fun risen hr => ?_
    refine (carried.curve hr _).bind fun share hs => ?_
    refine (carried.interpolate (carried.const _) hs (carried.const _)).mapError.bind
      fun rising hrise => ?_
    refine (carried.progress _ _).mapError.bind fun settled hd => ?_
    refine (carried.interpolate (carried.const _) hd (carried.const _)).mapError.bind
      fun settling hset => ?_
    exact .ok (carried.cond (carried.lt carried.time (carried.const _)) hrise hset)

theorem zoomSize {start : ν} {animation : Option (Animation ν)} {base : ν} :
    Returns (fun size => ∀ e ∈ size, P e) (zoomSize? start animation base) := by
  have absent : Returns (fun size => ∀ e ∈ size, P e)
      (pure none : Except (Expr.Failure ν) (Option (Expr ν))) := .ok (by simp)
  unfold zoomSize?
  cases animation with
  | none => exact absent
  | some a =>
    simp only
    split
    · refine .after fun t => (Returns.map carried.const).bind fun rest hr => ?_
      refine (Returns.option fun p _ => carried.zoomEntry).bind fun entering he => ?_
      refine (Returns.option fun p _ => .after fun target =>
        (carried.eased carried.outProgress p).bind fun share hs =>
          (carried.interpolate hr hs (carried.const _)).mapError).bind fun exiting hx => .ok ?_
      rintro _ ⟨⟩
      exact carried.piecewise he hr hx
    · exact absent

theorem floated {start : ν} {y : Expr ν} {idle : Option (Idle ν)} (hy : P y) :
    Returns P (floated start y idle) := by
  cases idle with
  | none => exact .ok hy
  | some i =>
    unfold OverlayMotion.floated
    simp only
    split_ifs
    · exact .ok hy
    · refine Returns.mapError (.after fun turn => .after fun angular => ?_)
      refine (carried.sub carried.time (carried.const _)).bind fun elapsed he => ?_
      refine (carried.mul (carried.const _) he).bind fun angle ha => ?_
      refine (carried.sin ha).bind fun sine hs => ?_
      exact (carried.mul (carried.const _) hs).bind fun wave hw => carried.add hy hw

end Expr.Carried

namespace Expr.Inherited
variable {P : Expr ν → Prop} (inherited : Inherited P) {t : Timeline ν} {s : Symbols}
include inherited

theorem edge {e : Expr ν} (edge : s.Edge e)
    (named : ∀ name ∈ s.dimensions, Token.IsName name.toList) : P e := by
  cases edge with
  | beyond inside => exact inherited.var (named _ inside)
  | before inside => exact inherited.negate (inherited.var (named _ inside))

theorem position {rest : Expr ν} (axis : Axis) (hr : P rest)
    (named : ∀ name ∈ s.dimensions, Token.IsName name.toList) :
    Returns P (t.position axis s rest) := by
  have coming (effect : Effect) (e) (given : e ∈ axis.entryOffset? (ν := ν) s effect) : P e :=
    inherited.edge (Axis.entryEdge given) named
  have going (effect : Effect) (e) (given : e ∈ axis.exitTarget? (ν := ν) s effect) : P e :=
    inherited.edge (Axis.exitEdge given) named
  have carried := inherited.carried
  refine (carried.moving carried.inProgress (fun effect e inside => ?_) _).bind
    fun entering he => (carried.moving carried.outProgress (fun effect e inside => ?_) _).bind
      fun exiting hx => .ok (carried.piecewise he hr hx)
  · obtain ⟨offset, given, rfl⟩ := Option.map_eq_some_iff.mp inside
    exact ⟨coming effect offset given, hr⟩
  · obtain ⟨target, given, rfl⟩ := Option.map_eq_some_iff.mp inside
    exact ⟨hr, going effect target given⟩

theorem compile {x y : Expr ν} (hx : P x) (hy : P y)
    (named : ∀ name ∈ s.dimensions, Token.IsName name.toList) :
    Returns (Motion.Each P) (Motion.compile t s x y) :=
  have carried := inherited.carried
  (inherited.position .horizontal hx named).bind fun _ across =>
    (inherited.position .vertical hy named).bind fun _ down =>
      carried.opacity.bind fun _ faded =>
        .ok ⟨carried.between carried.time (carried.const _) (carried.const _), across, down, faded⟩

theorem centered (named : ∀ name ∈ s.dimensions, Token.IsName name.toList) :
    Returns P (s.centeredX : Except Fault (Expr ν)) ∧
      Returns P (s.centeredY : Except Fault (Expr ν)) := by
  have side {name : String} (inside : name ∈ s.dimensions) : P (.var name) :=
    inherited.var (named name inside)
  have halved {canvas object : String} (first : canvas ∈ s.dimensions)
      (second : object ∈ s.dimensions) : Returns P (do
        (← (Expr.var canvas : Expr ν).sub (.var object)).div (.ofInt 2)) :=
    (inherited.carried.sub (side first) (side second)).bind fun _ room =>
      inherited.carried.div room (inherited.const _)
  exact ⟨halved (by simp [Symbols.dimensions]) (by simp [Symbols.dimensions]),
    halved (by simp [Symbols.dimensions]) (by simp [Symbols.dimensions])⟩

theorem resting {c : Option (Coordinate ν)} {centered : Except Fault (Expr ν)}
    (reads : ∀ c' ∈ c, ∀ source ∈ c'.formulas, Returns P (Expr.read source))
    (middle : Returns P centered) :
    Returns P (Motion.restingAt (c.map Coordinate.operand) centered) := by
  cases c with
  | none => exact middle.mapError
  | some c =>
    cases c with
    | number v => exact .ok (inherited.const v)
    | formula source => exact reads _ rfl source (List.mem_singleton_self _)

theorem placement {p : Placement ν} (reads : ∀ source ∈ p.formulas, Returns P (Expr.read source))
    (isCaption : Bool) : Returns (Motion.Each P) (Motion.ofPlacement p isCaption).outcome := by
  have each {c : Coordinate ν} (given : c ∈ p.x ∨ c ∈ p.y) (source : String)
      (inside : source ∈ c.formulas) : Returns P (Expr.read source) :=
    reads source (Placement.coordinateFormulas given inside)
  have named : ∀ name ∈ (symbolsFor isCaption).dimensions, Token.IsName name.toList :=
    fun _ => dimensionNamed
  obtain ⟨middleX, middleY⟩ := inherited.centered named
  intro m compiled
  obtain ⟨x, restingX, rest⟩ := Logged.bindOk.mp compiled
  obtain ⟨y, restingY, rest⟩ := Logged.bindOk.mp rest
  obtain ⟨t, -, rest⟩ := Logged.bindOk.mp rest
  exact inherited.compile (inherited.resting (fun c given => each (.inl given)) middleX x restingX)
    (inherited.resting (fun c given => each (.inr given)) middleY y restingY) named m
    (mapErrorOk.mp rest)

end Expr.Inherited

end OverlayMotion

import Mathlib.Data.List.Forall2
import OverlayMotion.Expr.Eval
import OverlayMotion.Proofs.Double

/-! Nothing that a formula computes tells the two zeros apart: with zeros of other signs
every operation fails where it failed, and otherwise gives the same number or a zero in
place of a zero. Quotients by zero, the one place where a sign would show, are refused. -/
namespace OverlayMotion.Binary64
open Float.Model (UnpackedFloat)
open Float.Model.UnpackedFloat (Sign)

theorem nearZeros (s t : Sign) : Near (.zero s) (.zero t) := .inr ⟨s, t, rfl, rfl⟩

theorem Near.trans {u v w : UnpackedFloat} (h : Near u v) (k : Near v w) : Near u w := by
  rcases h with rfl | ⟨s, t, rfl, rfl⟩
  · exact k
  · rcases k with rfl | ⟨_, r, _, rfl⟩ <;> exact nearZeros _ _

theorem nearBinary {f : UnpackedFloat → UnpackedFloat → UnpackedFloat}
    (left : ∀ s s' v, Near (f (.zero s) v) (f (.zero s') v))
    (right : ∀ u t t', Near (f u (.zero t)) (f u (.zero t'))) {u u' v v' : UnpackedFloat}
    (h : Near u u') (k : Near v v') : Near (f u v) (f u' v') := by
  have first : Near (f u v) (f u' v) := by
    rcases h with rfl | ⟨s, s', rfl, rfl⟩
    · exact .inl rfl
    · exact left s s' v
  refine first.trans ?_
  rcases k with rfl | ⟨t, t', rfl, rfl⟩
  · exact .inl rfl
  · exact right u' t t'

section
variable {u u' v v' : UnpackedFloat}

theorem addNear (h : Near u u') (k : Near v v') :
    Near (UnpackedFloat.add .binary64 u v) (UnpackedFloat.add .binary64 u' v') := by
  refine nearBinary (fun s s' v => ?_) (fun u t t' => ?_) h k
  · cases v with
    | zero t => cases s <;> cases s' <;> cases t <;> exact nearZeros _ _
    | _ => exact .inl rfl
  · cases u with
    | zero s => cases s <;> cases t <;> cases t' <;> exact nearZeros _ _
    | _ => exact .inl rfl

theorem subNear (h : Near u u') (k : Near v v') :
    Near (UnpackedFloat.sub .binary64 u v) (UnpackedFloat.sub .binary64 u' v') := by
  refine nearBinary (fun s s' v => ?_) (fun u t t' => ?_) h k
  · cases v with
    | zero t => cases s <;> cases s' <;> cases t <;> exact nearZeros _ _
    | _ => exact .inl rfl
  · cases u with
    | zero s => cases s <;> cases t <;> cases t' <;> exact nearZeros _ _
    | _ => exact .inl rfl

theorem mulNear (h : Near u u') (k : Near v v') :
    Near (UnpackedFloat.mul .binary64 u v) (UnpackedFloat.mul .binary64 u' v') := by
  refine nearBinary (fun s s' v => ?_) (fun u t t' => ?_) h k
  · cases v with
    | zero t => exact nearZeros _ _
    | finite t m e positive => exact nearZeros _ _
    | _ => exact .inl rfl
  · cases u with
    | zero s => exact nearZeros _ _
    | finite s m e positive => exact nearZeros _ _
    | _ => exact .inl rfl

theorem divNear (h : Near u u') (nonzero : ∀ s, v ≠ .zero s) :
    Near (UnpackedFloat.div .binary64 u v) (UnpackedFloat.div .binary64 u' v) := by
  rcases h with rfl | ⟨s, s', rfl, rfl⟩
  · exact .inl rfl
  · cases v with
    | zero t => exact absurd rfl (nonzero t)
    | notANumber => exact .inl rfl
    | _ => exact nearZeros _ _

theorem negNear (h : Near u u') : Near u.neg u'.neg := by
  rcases h with rfl | ⟨s, s', rfl, rfl⟩
  · exact .inl rfl
  · exact nearZeros _ _

theorem absNear (h : Near u u') : Near u.abs u'.abs := by
  rcases h with rfl | ⟨s, s', rfl, rfl⟩ <;> exact .inl rfl

theorem sqrtNear (h : Near u u') :
    Near (UnpackedFloat.sqrt .binary64 u) (UnpackedFloat.sqrt .binary64 u') := by
  rcases h with rfl | ⟨s, s', rfl, rfl⟩
  · exact .inl rfl
  · exact nearZeros _ _

theorem compareNear (h : Near u u') (k : Near v v') : u.compare v = u'.compare v' := by
  have left (s s' : Sign) (v : UnpackedFloat) :
      UnpackedFloat.compare (.zero s) v = UnpackedFloat.compare (.zero s') v := by
    cases v with
    | zero t => rfl
    | notANumber => rfl
    | infinity t => cases t <;> rfl
    | finite t m e positive => cases t <;> rfl
  have right (u : UnpackedFloat) (t t' : Sign) :
      UnpackedFloat.compare u (.zero t) = UnpackedFloat.compare u (.zero t') := by
    cases u with
    | zero s => rfl
    | notANumber => rfl
    | infinity s => cases s <;> rfl
    | finite s m e positive => cases s <;> rfl
  rcases h with rfl | ⟨s, s', rfl, rfl⟩ <;> rcases k with rfl | ⟨t, t', rfl, rfl⟩
  · rfl
  · exact right u t t'
  · exact left s s' v
  · rfl

end

section
variable {x x' y y' : Float}

theorem alikeRefl (x : Float) : Alike x x := .inl rfl

theorem addAlike (h : Alike x x') (k : Alike y y') : Alike (x + y) (x' + y') :=
  nearPacked (addNear (alikeNear.mp h) (alikeNear.mp k))

theorem subAlike (h : Alike x x') (k : Alike y y') : Alike (x - y) (x' - y') :=
  nearPacked (subNear (alikeNear.mp h) (alikeNear.mp k))

theorem mulAlike (h : Alike x x') (k : Alike y y') : Alike (x * y) (x' * y') :=
  nearPacked (mulNear (alikeNear.mp h) (alikeNear.mp k))

theorem negAlike (h : Alike x x') : Alike (-x) (-x') := nearPacked (negNear (alikeNear.mp h))

theorem absAlike (h : Alike x x') : Alike x.abs x'.abs := nearPacked (absNear (alikeNear.mp h))

theorem sqrtAlike (h : Alike x x') : Alike x.sqrt x'.sqrt := nearPacked (sqrtNear (alikeNear.mp h))

theorem eqAlike (h : Alike x x') (k : Alike y y') : (x == y) = (x' == y') := by
  have same := compareNear (alikeNear.mp h) (alikeNear.mp k)
  exact congrArg (· == some .eq) same

theorem ltForm (x y : Float) : x < y ↔ (form x).compare (form y) == some .lt := by
  have unfolded : x < y ↔ decide ((x.toModel.lt y.toModel) = true) = true := Iff.rfl
  rw [unfolded, decide_eq_true_iff]
  rfl

theorem ltAlike (h : Alike x x') (k : Alike y y') : x < y ↔ x' < y' := by
  rw [ltForm, ltForm, compareNear (alikeNear.mp h) (alikeNear.mp k)]

theorem isInfAlike (h : Alike x x') : x.isInf = x'.isInf := by
  have same : (form x).isInf = (form x').isInf := by
    rcases alikeNear.mp h with same | ⟨s, s', hs, hs'⟩
    · rw [same]
    · rw [hs, hs']
      rfl
  exact same

theorem decodeAlike (h : Alike x x') : x = x' ∨ ∃ negative negative',
    decode x = some ⟨negative, 0, -1074⟩ ∧ decode x' = some ⟨negative', 0, -1074⟩ := by
  rcases h with same | ⟨zero, zero'⟩
  · exact .inl same
  · obtain ⟨s, hs⟩ := (isZeroForm x).mp zero
    obtain ⟨s', hs'⟩ := (isZeroForm x').mp zero'
    refine .inr ⟨s == .negative, s' == .negative, ?_, ?_⟩
    · rw [decodeForm, hs]
    · rw [decodeForm, hs']

theorem roundZero (negative : Bool) (exponent : Int) :
    Decoded.floor ⟨negative, 0, exponent⟩ = 0 ∧ Decoded.ceil ⟨negative, 0, exponent⟩ = 0 ∧
      Decoded.trunc ⟨negative, 0, exponent⟩ = 0 := by
  have parts : Decoded.split ⟨negative, 0, exponent⟩ = (0, false) := by
    simp only [Decoded.split, Decoded.ratio]
    split <;> simp
  simp [Decoded.floor, Decoded.ceil, Decoded.trunc, parts]

theorem divAlike (h : Alike x x') (nonzero : ¬ y == 0) : Alike (x / y) (x' / y) := by
  refine nearPacked (divNear (alikeNear.mp h) fun s zero => ?_)
  exact nonzero ((isZeroForm y).mpr ⟨s, zero⟩)

end

end OverlayMotion.Binary64

namespace OverlayMotion

def Scalar.Alike : Scalar → Scalar → Prop
  | .int a, .int b => a = b
  | .float x, .float y => Binary64.Alike x y
  | _, _ => False

namespace Scalar

theorem alikeSelf (v : Scalar) : v.Alike v := by
  cases v with
  | int n => rfl
  | float x => exact .inl rfl

variable {a a' b b' : Scalar}

theorem negAlike (h : a.Alike a') : (neg a).Alike (neg a') := by
  cases a <;> cases a' <;> try contradiction
  · exact congrArg Neg.neg h
  · exact Binary64.negAlike h

theorem absAlike (h : a.Alike a') : (abs a).Alike (abs a') := by
  cases a <;> cases a' <;> try contradiction
  · cases h
    rfl
  · exact Binary64.absAlike h

theorem compareIntZero (n : Int) (negative negative' : Bool) :
    compareInt n ⟨negative, 0, -1074⟩ = compareInt n ⟨negative', 0, -1074⟩ := by
  have zero (b : Bool) : (if b then -((0 : Nat) : Int) else (0 : Nat)) = 0 := by cases b <;> rfl
  simp only [compareInt, zero]

theorem compareMixed (n : Int) {x x' : Float} (h : Binary64.Alike x x') :
    compare? (int n) (float x) = compare? (int n) (float x') ∧
      compare? (float x) (int n) = compare? (float x') (int n) := by
  rcases Binary64.decodeAlike h with rfl | ⟨s, s', hs, hs'⟩
  · exact ⟨rfl, rfl⟩
  · simp only [compare?, hs, hs', compareIntZero n s s', and_self]

theorem compareAlike (h : a.Alike a') (k : b.Alike b') : compare? a b = compare? a' b' := by
  cases a <;> cases a' <;> try contradiction
  · cases h
    cases b <;> cases b' <;> try contradiction
    · cases k
      rfl
    · exact (compareMixed _ k).1
  · cases b <;> cases b' <;> try contradiction
    · cases k
      exact (compareMixed _ h).2
    · simp only [compare?, Binary64.ltAlike h k, Binary64.ltAlike k h, Binary64.eqAlike h k]

theorem toFloatAlike (h : a.Alike a') : Agree Binary64.Alike a.toFloat a'.toFloat := by
  cases a <;> cases a' <;> try contradiction
  · cases h
    exact .refl Binary64.alikeRefl _
  · exact h

theorem intAlike {n : Int} (h : (int n).Alike a') : a' = int n := by
  cases a' with
  | int m => exact congrArg int h.symm
  | float x => contradiction

theorem alikeInt {n : Int} (h : a.Alike (int n)) : a = int n := by
  cases a with
  | int m => exact congrArg int h
  | float x => contradiction

theorem binaryAlike {op : Scalar → Scalar → Except Fault Scalar}
    {f : Float → Float → Except Fault Scalar}
    (rounds : ∀ a b, (∃ m n, a = int m ∧ b = int n) ∨
      op a b = a.toFloat >>= fun x => b.toFloat >>= fun y => f x y)
    (keeps : ∀ {x x' y y'}, Binary64.Alike x x' → Binary64.Alike y y' →
      Agree Alike (f x y) (f x' y'))
    (h : a.Alike a') (k : b.Alike b') : Agree Alike (op a b) (op a' b') := by
  rcases rounds a b with ⟨m, n, rfl, rfl⟩ | left
  · rw [intAlike h, intAlike k]
    exact .refl alikeSelf _
  · rcases rounds a' b' with ⟨m, n, rfl, rfl⟩ | right
    · rw [alikeInt h, alikeInt k]
      exact .refl alikeSelf _
    · rw [left, right]
      exact (toFloatAlike h).bind fun hx => (toFloatAlike k).bind fun hy => keeps hx hy

theorem mixedRounds (exact : Int → Int → Int) (rounded : Float → Float → Float) (a b : Scalar) :
    (∃ m n, a = int m ∧ b = int n) ∨ mixed exact rounded a b =
      a.toFloat >>= fun x => b.toFloat >>= fun y => .ok (float (rounded x y)) := by
  cases a with
  | int m =>
    cases b with
    | int n => exact .inl ⟨m, n, rfl, rfl⟩
    | float y => exact .inr rfl
  | float x => exact .inr rfl

theorem addAlike (h : a.Alike a') (k : b.Alike b') : Agree Alike (add a b) (add a' b') :=
  binaryAlike (mixedRounds _ _) (fun hx hy => Binary64.addAlike hx hy) h k

theorem subAlike (h : a.Alike a') (k : b.Alike b') : Agree Alike (sub a b) (sub a' b') :=
  binaryAlike (mixedRounds _ _) (fun hx hy => Binary64.subAlike hx hy) h k

theorem mulAlike (h : a.Alike a') (k : b.Alike b') : Agree Alike (mul a b) (mul a' b') :=
  binaryAlike (mixedRounds _ _) (fun hx hy => Binary64.mulAlike hx hy) h k

theorem divAlike (h : a.Alike a') (k : b.Alike b') : Agree Alike (div a b) (div a' b') := by
  refine binaryAlike (f := fun x y => if y == 0 then .error .divisionByZero else .ok (float (x / y)))
    (fun a b => ?_) (fun {x x' y y'} hx hy => ?_) h k
  · cases a with
    | int m =>
      cases b with
      | int n => exact .inl ⟨m, n, rfl, rfl⟩
      | float y => exact .inr rfl
    | float x => exact .inr rfl
  · rcases hy with rfl | ⟨zero, zero'⟩
    · split
      · trivial
      · rename_i nonzero
        exact Binary64.divAlike hx nonzero
    · simp [zero, zero', Agree]

theorem powZeroAlike {x x' : Float} (h : Binary64.Alike x x') (y : Float) :
    Agree Binary64.Alike (powZero x y) (powZero x' y) := by
  unfold powZero
  split
  · exact Binary64.alikeRefl _
  · split
    · exact .refl Binary64.alikeRefl _
    · split
      · exact h
      · exact Binary64.alikeRefl _

theorem powFloatAlike {x x' y y' : Float} (h : Binary64.Alike x x') (k : Binary64.Alike y y') :
    Agree Binary64.Alike (powFloat x y) (powFloat x' y') := by
  have tests := Binary64.eqAlike h (Binary64.alikeRefl 0)
  rcases k with rfl | ⟨zero, zero'⟩
  · unfold powFloat
    rw [tests]
    split
    · exact Binary64.alikeRefl _
    · split
      · exact powZeroAlike h y
      · rename_i nonzero
        rcases h with rfl | ⟨_, zero'⟩
        · exact .refl Binary64.alikeRefl _
        · exact absurd zero' nonzero
  · simp only [powFloat, zero, zero', if_true]
    exact Binary64.alikeRefl _

theorem powAlike (h : a.Alike a') (k : b.Alike b') : Agree Alike (pow a b) (pow a' b') := by
  refine binaryAlike (f := fun x y => float <$> powFloat x y) (fun a b => ?_)
    (fun hx hy => (powFloatAlike hx hy).map fun same => same) h k
  cases a with
  | int m =>
    cases b with
    | int n => exact .inl ⟨m, n, rfl, rfl⟩
    | float y => exact .inr rfl
  | float x => exact .inr rfl

theorem periodicAlike {f : Float → Float}
    (keeps : ∀ {x x'}, Binary64.Alike x x' → Binary64.Alike (f x) (f x')) (h : a.Alike a') :
    Agree Alike (periodic f a) (periodic f a') := by
  refine (toFloatAlike h).bind fun {x x'} hx => ?_
  rw [Binary64.isInfAlike hx]
  split
  · trivial
  · exact keeps hx

theorem sineAlike {x x' : Float} (h : Binary64.Alike x x') :
    Binary64.Alike (sine x) (sine x') := by
  rcases h with rfl | ⟨zero, zero'⟩
  · exact Binary64.alikeRefl _
  · simp only [sine, zero, zero', if_true]
    exact .inr ⟨zero, zero'⟩

theorem cosineAlike {x x' : Float} (h : Binary64.Alike x x') :
    Binary64.Alike (cosine x) (cosine x') := by
  rcases h with rfl | ⟨zero, zero'⟩
  · exact Binary64.alikeRefl _
  · simp only [cosine, zero, zero', if_true]
    exact Binary64.alikeRefl _

theorem sqrtAlike (h : a.Alike a') : Agree Alike (sqrt a) (sqrt a') := by
  refine (toFloatAlike h).bind fun {x x'} hx => ?_
  simp only [Binary64.ltAlike hx (Binary64.alikeRefl 0)]
  split
  · trivial
  · exact Binary64.sqrtAlike hx

theorem toIntegerAlike {round : Binary64.Decoded → Int}
    (zero : ∀ negative, round ⟨negative, 0, -1074⟩ = 0) (h : a.Alike a') :
    Agree Alike (toInteger round a) (toInteger round a') := by
  cases a <;> cases a' <;> try contradiction
  · exact h
  · rcases Binary64.decodeAlike h with rfl | ⟨s, s', hs, hs'⟩
    · exact .refl alikeSelf _
    · simp only [toInteger, hs, hs', zero]
      rfl

end Scalar

namespace Builtin
open Scalar (Alike)

abbrev Alikes : List Scalar → List Scalar → Prop := List.Forall₂ Alike

theorem eqAlike {a a' b b' : Scalar} (h : a.Alike a') (k : b.Alike b') :
    Number.eq a b = Number.eq a' b' := congrArg (· == some .eq) (Scalar.compareAlike h k)

theorem ltAlike {a a' b b' : Scalar} (h : a.Alike a') (k : b.Alike b') :
    Number.lt a b = Number.lt a' b' := congrArg (· == some .lt) (Scalar.compareAlike h k)

theorem leAlike {a a' b b' : Scalar} (h : a.Alike a') (k : b.Alike b') :
    Number.le a b = Number.le a' b' := by
  simp only [Number.le, Scalar.compareAlike h k]

theorem minAlike {a a' b b' : Scalar} (h : a.Alike a') (k : b.Alike b') :
    (Number.min a b).Alike (Number.min a' b') := by
  unfold Number.min
  rw [ltAlike k h]
  split
  · exact k
  · exact h

theorem maxAlike {a a' b b' : Scalar} (h : a.Alike a') (k : b.Alike b') :
    (Number.max a b).Alike (Number.max a' b') := by
  unfold Number.max
  rw [ltAlike h k]
  split
  · exact k
  · exact h

theorem foldAlike {f : Scalar → Scalar → Scalar}
    (keeps : ∀ {a a' b b'}, a.Alike a' → b.Alike b' → (f a b).Alike (f a' b'))
    {vs vs' : List Scalar} (all : Alikes vs vs') :
    ∀ {a a'}, a.Alike a' → (vs.foldl f a).Alike (vs'.foldl f a') := by
  induction all with
  | nil => exact fun h => h
  | cons first _ ih => exact fun h => ih (keeps h first)

theorem powerAlike {a a' b b' : Scalar} (h : a.Alike a') (k : b.Alike b') :
    Agree Alike (Expr.power a b) (Expr.power a' b') := by
  have powers : Agree Alike (Number.pow a b) (Number.pow a' b') := Scalar.powAlike h k
  unfold Expr.power
  cases hp : Number.pow a b <;> cases hp' : Number.pow a' b' <;> rw [hp, hp'] at powers <;>
    try contradiction
  · split <;> split <;> trivial
  · exact powers

variable {a a' b b' c c' : Scalar}

theorem boolAlike {p q : Bool} (same : p = q) :
    Agree Alike (.ok (Number.ofBool p) : Except (Expr.Failure Scalar) Scalar)
      (.ok (Number.ofBool q) : Except (Expr.Failure Scalar) Scalar) := by
  rw [same]
  exact Agree.refl Scalar.alikeSelf _

theorem applyOneAlike (f : Builtin) (h : a.Alike a') :
    Agree Alike (f.apply [a]) (f.apply [a']) := by
  cases f with
  | abs => exact Scalar.absAlike h
  | sin => exact (Scalar.periodicAlike Scalar.sineAlike h).mapError _ _
  | cos => exact (Scalar.periodicAlike Scalar.cosineAlike h).mapError _ _
  | sqrt => exact (Scalar.sqrtAlike h).mapError _ _
  | floor => exact (Scalar.toIntegerAlike (fun _ => (Binary64.roundZero _ _).1) h).mapError _ _
  | ceil => exact (Scalar.toIntegerAlike (fun _ => (Binary64.roundZero _ _).2.1) h).mapError _ _
  | trunc => exact (Scalar.toIntegerAlike (fun _ => (Binary64.roundZero _ _).2.2) h).mapError _ _
  | _ => trivial

theorem applyTwoAlike (f : Builtin) (h : a.Alike a') (k : b.Alike b') :
    Agree Alike (f.apply [a, b]) (f.apply [a', b']) := by
  cases f with
  | lt => exact boolAlike (ltAlike h k)
  | lte => exact boolAlike (leAlike h k)
  | gt => exact boolAlike (ltAlike k h)
  | gte => exact boolAlike (leAlike k h)
  | eq => exact boolAlike (eqAlike h k)
  | min => exact minAlike h k
  | max => exact maxAlike h k
  | pow => exact powerAlike h k
  | _ => trivial

theorem applyThreeAlike (f : Builtin) (h : a.Alike a') (k : b.Alike b') (l : c.Alike c') :
    Agree Alike (f.apply [a, b, c]) (f.apply [a', b', c']) := by
  cases f with
  | between =>
    refine boolAlike ?_
    rw [Number.isBetween, Number.isBetween, leAlike k h, leAlike h l]
  | min => exact minAlike (minAlike h k) l
  | max => exact maxAlike (maxAlike h k) l
  | clip => exact minAlike (maxAlike h k) l
  | _ => trivial

theorem applyAlike (f : Builtin) {vs vs' : List Scalar} (all : Alikes vs vs') :
    Agree Alike (f.apply vs) (f.apply vs') := by
  rcases all with _ | ⟨first, _ | ⟨second, _ | ⟨third, _ | ⟨fourth, others⟩⟩⟩⟩
  · cases f <;> trivial
  · exact applyOneAlike f first
  · exact applyTwoAlike f first second
  · exact applyThreeAlike f first second third
  · cases f with
    | min => exact foldAlike minAlike (.cons second (.cons third (.cons fourth others))) first
    | max => exact foldAlike maxAlike (.cons second (.cons third (.cons fourth others))) first
    | _ => trivial

end Builtin

theorem operatorAlike (op : Operator) {a a' b b' : Scalar} (h : a.Alike a') (k : b.Alike b') :
    Agree Scalar.Alike (op.apply a b) (op.apply a' b') := by
  cases op with
  | add => exact (Scalar.addAlike h k).mapError _ _
  | sub => exact (Scalar.subAlike h k).mapError _ _
  | mul => exact (Scalar.mulAlike h k).mapError _ _
  | div => exact (Scalar.divAlike h k).mapError _ _
  | pow => exact Builtin.powerAlike h k

end OverlayMotion

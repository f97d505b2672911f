import OverlayMotion.Proofs.Share

/-! Trees whose text can be written and computed. The constants of such a tree are bounded,
so that each has a number text, and in the scopes that are looked at the tree that its text
reads back as has a value of a wanted kind. Without any scope only the constants count. Every
builder that is given such trees returns one. -/
namespace OverlayMotion.Expr
open Scalar (Within Loose Double small)
open Token (IsName)

structure Yields (V : Scalar → Prop) (scope : Scope Scalar) (e : Expr Scalar) : Prop where
  normal : Normal e
  bases : BasesPlain e
  value : ∃ v, eval scope (respelled id e) = .ok v ∧ V v

structure Built (scopes : Set (Scope Scalar)) (V : Scalar → Prop) (k : Nat)
    (e : Expr Scalar) : Prop where
  constants : Every (Within k) e
  yields : ∀ scope ∈ scopes, Yields V scope e

abbrev Sturdy (scopes : Set (Scope Scalar)) (k : Nat) : Expr Scalar → Prop :=
  Built scopes (Loose k) k

variable {scopes : Set (Scope Scalar)} {U V W : Scalar → Prop} {j k l : Nat}
  {a b c e : Expr Scalar}

theorem Yields.weaken {scope : Scope Scalar} (h : Yields V scope e) (weaker : ∀ v, V v → W v) :
    Yields W scope e := by
  obtain ⟨v, result, kind⟩ := h.value
  exact ⟨h.normal, h.bases, v, result, weaker v kind⟩

theorem Built.weaken (h : Built scopes V j e) (wider : j ≤ k) (weaker : ∀ v, V v → W v) :
    Built scopes W k e where
  constants := h.constants.weaken (fun _ within => within.mono wider) e
  yields scope inside := (h.yields scope inside).weaken weaker

theorem Built.mono (h : Sturdy scopes j e) (wider : j ≤ k) : Sturdy scopes k e :=
  h.weaken wider fun _ loose => loose.mono wider

theorem Built.sturdy (h : Built scopes Double k e) : Sturdy scopes k e :=
  h.weaken le_rfl fun _ double => double.loose

theorem Built.ofConstants (constants : Every (Within k) e) : Built ∅ V k e :=
  ⟨constants, fun _ inside => absurd inside (Set.notMem_empty _)⟩

theorem denotedWithin {v : Scalar} (few : k ≤ 1000) (within : Within k v) :
    ∃ x, denoted v = .float x ∧ Within k (.float x) := by
  obtain ⟨q, finite, bounded⟩ := within.finite few
  obtain ⟨x, r, same, stands, bounded', _⟩ := Scalar.denotedBounded finite few bounded
  exact ⟨x, same, r, stands, bounded'⟩

theorem constantHolds {v : Scalar} (few : k ≤ 1000) (within : Within k v) :
    Built scopes (fun v => Within k v ∧ Double v) k (.const v) := by
  obtain ⟨x, same, bounded⟩ := denotedWithin few within
  refine ⟨within, fun scope _ => ⟨trivial, trivial, denoted v, rfl, ?_⟩⟩
  rw [same]
  exact ⟨bounded, x, rfl⟩

theorem constantSturdy {v : Scalar} (few : k ≤ 1000) (within : Within k v) :
    Sturdy scopes k (.const v) :=
  (constantHolds few within).weaken le_rfl fun _ kind => kind.2.loose

theorem smallWithin {n : Nat} (few : n ≤ 3) (wide : 2 ≤ k) : Within k (.int n) := by
  have room : 2 ^ 2 ≤ 2 ^ k := Nat.pow_le_pow_right (by decide) wide
  exact Within.ofNat (by omega)

theorem smallHolds {n : Nat} (few : n ≤ 3) (within : Within k (.int n))
    (kind : V (.float (small n))) : Built scopes V k (ofInt n : Expr Scalar) := by
  refine ⟨within, fun scope _ => ⟨trivial, trivial, _, rfl, ?_⟩⟩
  exact Scalar.denotedSmall few ▸ kind

theorem variableHolds {name : String} (spelled : IsName name.toList)
    (known : ∀ scope ∈ scopes, ∃ v, scope name = some v ∧ V v) :
    Built scopes V k (.var name) := by
  refine ⟨trivial, fun scope inside => ?_⟩
  obtain ⟨v, bound, kind⟩ := known scope inside
  refine ⟨spelled, trivial, v, ?_, kind⟩
  rw [respelled, eval, id_eq, bound]

theorem binaryHolds {op : Operator} (ha : Built scopes U k a) (hb : Built scopes V k b)
    (other : op ≠ .pow) (applies : ∀ {u v}, U u → V v → ∃ w, op.apply u v = .ok w ∧ W w) :
    Built scopes W k (.binary op a b) := by
  refine ⟨⟨ha.constants, hb.constants⟩, fun scope inside => ?_⟩
  obtain ⟨na, pa, u, hu, kindU⟩ := ha.yields scope inside
  obtain ⟨nb, pb, v, hv, kindV⟩ := hb.yields scope inside
  obtain ⟨w, result, kind⟩ := applies kindU kindV
  refine ⟨⟨na, nb⟩, ⟨fun power => absurd power other, pa, pb⟩, w, ?_, kind⟩
  rw [respelled, eval, hu, okBind, hv, okBind, result]

theorem negateHolds (few : k ≤ 1000) (h : Sturdy scopes k e) : Sturdy scopes k (negate e) := by
  have wrapped (alone : negate e = .neg e) : Sturdy scopes k (negate e) := by
    rw [alone]
    refine ⟨h.constants, fun scope inside => ?_⟩
    obtain ⟨normal, bases, v, value, loose⟩ := h.yields scope inside
    refine ⟨⟨alone, normal⟩, bases, Number.neg v, ?_, loose.neg⟩
    rw [respelled, eval, value, okMap]
  cases e with
  | const v => exact constantSturdy few (h.constants : Within k v).neg
  | neg inner =>
    refine ⟨h.constants, fun scope inside => ?_⟩
    obtain ⟨⟨_, normal⟩, bases, v, value, loose⟩ := h.yields scope inside
    rw [respelled, eval, mapOk] at value
    obtain ⟨u, value, rfl⟩ := value
    exact ⟨normal, bases, u, value, loose.ofNeg⟩
  | var name => exact wrapped rfl
  | binary op a b => exact wrapped rfl
  | call f es => exact wrapped rfl

structure Row (P : List Scalar → Prop) (scope : Scope Scalar) (es : List (Expr Scalar)) :
    Prop where
  normal : AllNormal es
  bases : AllBasesPlain es
  values : ∃ vs, evalAll scope (respelledAll id es) = .ok vs ∧ P vs

theorem callHolds {name : String} {f : Builtin} {es : List (Expr Scalar)}
    (spelled : IsName name.toList) (other : name ≠ "if") (known : Builtin.ofName? name = some f)
    (some : es ≠ []) (constants : EveryAll (Within k) es)
    (row : ∀ scope ∈ scopes, Row (fun vs => ∃ w, f.apply vs = .ok w ∧ W w) scope es) :
    Built scopes W k (.call name es) := by
  refine ⟨constants, fun scope inside => ?_⟩
  obtain ⟨normal, bases, vs, values, w, result, kind⟩ := row scope inside
  refine ⟨⟨spelled, some, normal⟩, bases, w, ?_, kind⟩
  rw [respelled]
  unfold eval
  simp only [if_neg other, known, values, okBind, result]

theorem Yields.row {scope : Scope Scalar} (ha : Yields U scope a) :
    Row (fun vs => ∃ u, vs = [u] ∧ U u) scope [a] := by
  obtain ⟨normal, bases, u, hu, kind⟩ := ha
  refine ⟨⟨normal, trivial⟩, ⟨bases, trivial⟩, [u], ?_, u, rfl, kind⟩
  rw [respelledAll, respelledAll, evalAll, hu]
  rfl

theorem Yields.before {P Q : List Scalar → Prop} {scope : Scope Scalar} {es : List (Expr Scalar)}
    (ha : Yields U scope a) (others : Row P scope es) (joined : ∀ {u vs}, U u → P vs → Q (u :: vs)) :
    Row Q scope (a :: es) := by
  obtain ⟨normal, bases, u, hu, kind⟩ := ha
  obtain ⟨normals, basesAll, vs, hvs, kinds⟩ := others
  refine ⟨⟨normal, normals⟩, ⟨bases, basesAll⟩, u :: vs, ?_, joined kind kinds⟩
  rw [respelledAll, evalAll, hu, okBind, hvs, okBind]
  rfl

theorem callOne {name : String} {f : Builtin} (spelled : IsName name.toList) (other : name ≠ "if")
    (known : Builtin.ofName? name = some f) (ha : Built scopes U k a)
    (applies : ∀ {u}, U u → ∃ w, f.apply [u] = .ok w ∧ W w) :
    Built scopes W k (.call name [a]) := by
  refine callHolds spelled other known (by simp) ⟨ha.constants, trivial⟩ fun scope inside => ?_
  obtain ⟨normal, bases, _, values, u, rfl, kind⟩ := (ha.yields scope inside).row
  exact ⟨normal, bases, [u], values, applies kind⟩

theorem callTwo {name : String} {f : Builtin} (spelled : IsName name.toList) (other : name ≠ "if")
    (known : Builtin.ofName? name = some f) (ha : Built scopes U k a) (hb : Built scopes V k b)
    (applies : ∀ {u v}, U u → V v → ∃ w, f.apply [u, v] = .ok w ∧ W w) :
    Built scopes W k (.call name [a, b]) := by
  refine callHolds spelled other known (by simp) ⟨ha.constants, hb.constants, trivial⟩
    fun scope inside => ?_
  refine (ha.yields scope inside).before (hb.yields scope inside).row ?_
  rintro u _ kindU ⟨v, rfl, kindV⟩
  exact applies kindU kindV

theorem ltHolds (ha : Built scopes U k a) (hb : Built scopes V k b) :
    Built scopes Double k (a.lt b) :=
  callTwo (named rfl rfl rfl) (by simp) rfl ha hb fun _ _ => ⟨_, rfl, _, rfl⟩

theorem betweenHolds (ha : Built scopes U k a) (hb : Built scopes V k b)
    (hc : Built scopes W k c) : Built scopes Double k (a.between b c) := by
  refine callHolds (f := .between) (named rfl rfl rfl) (by simp) rfl (by simp)
    ⟨ha.constants, hb.constants, hc.constants, trivial⟩ fun scope inside => ?_
  have last : Row (fun vs => ∃ v w, vs = [v, w]) scope [b, c] := by
    refine (hb.yields scope inside).before (hc.yields scope inside).row ?_
    rintro v _ _ ⟨w, rfl, _⟩
    exact ⟨v, w, rfl⟩
  refine (ha.yields scope inside).before last ?_
  rintro u _ _ ⟨v, w, rfl⟩
  exact ⟨_, rfl, _, rfl⟩

theorem ifHolds (ha : Built scopes U k a) (hb : Built scopes W k b) (hc : Built scopes W k c) :
    Built scopes W k (.call "if" [a, b, c]) := by
  refine ⟨⟨ha.constants, hb.constants, hc.constants, trivial⟩, fun scope inside => ?_⟩
  obtain ⟨na, pa, u, hu, _⟩ := ha.yields scope inside
  obtain ⟨nb, pb, v, hv, kindV⟩ := hb.yields scope inside
  obtain ⟨nc, pc, w, hw, kindW⟩ := hc.yields scope inside
  have chosen : eval scope (respelled id (.call "if" [a, b, c])) =
      if Number.isZero u then .ok w else .ok v := by
    simp only [respelled, respelledAll, eval, if_true, hu, hv, hw, okBind]
  refine ⟨⟨named rfl rfl rfl, by simp, na, nb, nc, trivial⟩, ⟨pa, pb, pc, trivial⟩, ?_⟩
  rw [chosen]
  split
  · exact ⟨w, rfl, kindW⟩
  · exact ⟨v, rfl, kindV⟩

theorem condHolds (ha : Built scopes U k a) (hb : Built scopes V k b) {yes no : Expr Scalar}
    (hy : Built scopes W k yes) (hn : Built scopes W k no) :
    Built scopes W k ((a.lt b).cond yes no) := by
  have unfolded : (a.lt b).cond yes no =
      if same yes no then yes else .call "if" [a.lt b, yes, no] := rfl
  rw [unfolded]
  split
  · exact hy
  · exact ifHolds (ltHolds ha hb) hy hn

theorem foldedHolds {compute : Scalar → Scalar → Except Fault Scalar} {otherwise : Expr Scalar}
    (few : l ≤ 1000) (ha : Every (Within j) a) (hb : Every (Within k) b)
    (computes : ∀ {x y}, Within j x → Within k y → ∃ z, compute x y = .ok z ∧ Within l z)
    (other : Sturdy scopes l otherwise) :
    ∃ e, folded compute a b otherwise = .ok e ∧ Sturdy scopes l e := by
  unfold folded
  split
  · obtain ⟨z, result, within⟩ := computes ha hb
    exact ⟨.const z, by rw [result]; rfl, constantSturdy few within⟩
  · exact ⟨_, rfl, other⟩

theorem addHolds (few : k < 1000) (ha : Sturdy scopes k a) (hb : Sturdy scopes k b) :
    ∃ e, a.add b = .ok e ∧ Sturdy scopes (k + 1) e := by
  have most : Nat.max k k < 1000 := by simpa using few
  refine foldedHolds few ha.constants hb.constants (fun hx hy => ?_) ?_
  · simpa using hx.add most hy
  · split_ifs
    · exact hb.mono (Nat.le_succ k)
    · exact ha.mono (Nat.le_succ k)
    · have node : Built scopes (Loose (k + 1)) k (.binary .add a b) := by
        refine binaryHolds ha hb (by simp) fun hu hv => ?_
        obtain ⟨w, sum, loose⟩ := hu.add most hv
        exact ⟨w, congrArg (Except.mapError _) sum, by simpa using loose⟩
      exact node.weaken (Nat.le_succ k) fun _ => id

theorem subHolds (few : k < 1000) (ha : Sturdy scopes k a) (hb : Sturdy scopes k b) :
    ∃ e, a.sub b = .ok e ∧ Sturdy scopes (k + 1) e := by
  have most : Nat.max k k < 1000 := by simpa using few
  refine foldedHolds few ha.constants hb.constants (fun hx hy => ?_) ?_
  · simpa using hx.sub most hy
  · split_ifs
    · exact ha.mono (Nat.le_succ k)
    · exact (negateHolds few.le hb).mono (Nat.le_succ k)
    · have node : Built scopes (Loose (k + 1)) k (.binary .sub a b) := by
        refine binaryHolds ha hb (by simp) fun hu hv => ?_
        obtain ⟨w, difference, loose⟩ := hu.sub most hv
        exact ⟨w, congrArg (Except.mapError _) difference, by simpa using loose⟩
      exact node.weaken (Nat.le_succ k) fun _ => id

theorem mulHolds (few : j + k ≤ 1000) (ha : Sturdy scopes j a) (hb : Sturdy scopes k b) :
    ∃ e, a.mul b = .ok e ∧ Sturdy scopes (j + k) e := by
  refine foldedHolds few ha.constants hb.constants (fun hx hy => hx.mul few hy) ?_
  split_ifs
  · exact smallHolds (n := 0) (by decide) (Within.ofNat (Nat.zero_le _)) trivial
  · exact hb.mono (Nat.le_add_left k j)
  · exact ha.mono (Nat.le_add_right j k)
  · refine binaryHolds (ha.weaken (Nat.le_add_right j k) fun _ => id)
      (hb.weaken (Nat.le_add_left k j) fun _ => id) (by simp) fun hu hv => ?_
    obtain ⟨w, product, loose⟩ := hu.mul few hv
    exact ⟨w, congrArg (Except.mapError _) product, loose⟩

def Varying (e : Expr Scalar) : Prop := ∀ v, e ≠ .const v

theorem Varying.notZero (varying : Varying a) : ¬ a.isZero := by
  cases a with
  | const v => exact absurd rfl (varying v)
  | _ => simp [isZero, constantAnd]

theorem Varying.notOne (varying : Varying a) : ¬ a.isOne := by
  cases a with
  | const v => exact absurd rfl (varying v)
  | _ => simp [isOne, constantAnd]

theorem Varying.unfolded {compute : Scalar → Scalar → Except Fault Scalar} {otherwise : Expr Scalar}
    (varying : Varying b) : folded compute a b otherwise = .ok otherwise := by
  unfold folded
  split
  · exact absurd rfl (varying _)
  · rfl

theorem restHolds (wide : 2 ≤ k) (ha : Built scopes Scalar.Share k a) (varying : Varying a) :
    ∃ e, (ofInt 1).sub a = .ok e ∧ Varying e ∧
      Built scopes (Scalar.Among {q | |q| ≤ 1}) k e := by
  have kept : (ofInt 1).sub a = .ok (.binary .sub (ofInt 1) a) := by
    rw [sub, varying.unfolded, if_neg varying.notZero]
    rfl
  have one : Built scopes (· = .float (small 1)) k (ofInt 1 : Expr Scalar) :=
    smallHolds (n := 1) (by decide) (smallWithin (by decide) wide) rfl
  refine ⟨_, kept, by simp [Varying], binaryHolds one ha (by simp) ?_⟩
  rintro _ v rfl share
  obtain ⟨w, difference, bounded⟩ := Scalar.restOfShare share
  exact ⟨w, congrArg (Except.mapError _) difference, bounded⟩

theorem powHolds {n : Nat} (ha : Built scopes (Scalar.Among {q | |q| ≤ 1}) k a)
    (varying : Varying a) (two : 2 ≤ n) (few : n ≤ 3) (wide : 2 ≤ k) :
    ∃ e, a.pow (ofInt n) = .ok e ∧ Built scopes Double k e := by
  have other : ¬ (ofInt n : Expr Scalar).isOne := by interval_cases n <;> decide
  have kept : a.pow (ofInt n) = .ok (.call "pow" [a, ofInt n]) := by
    unfold pow
    split
    · exact absurd rfl (varying _)
    · rw [if_neg other]
  have exponent : Built scopes (· = .float (small n)) k (ofInt n : Expr Scalar) :=
    smallHolds few (smallWithin few wide) rfl
  refine ⟨_, kept, callTwo (f := .pow) (named rfl rfl rfl) (by simp) rfl ha exponent ?_⟩
  rintro u _ hu rfl
  obtain ⟨x, result⟩ := Scalar.smallPower hu two few
  exact ⟨.float x, by simp only [Builtin.apply, power, result], x, rfl⟩

theorem quotientHolds {d : Scalar} (few : k ≤ 1000) (ha : Built scopes V k a)
    (varying : Varying a) (loose : ∀ u, V u → Loose k u) (double : ∀ x, V (.float x))
    (within : Within k d)
    (divides : scopes.Nonempty → ∃ y q, denoted d = .float y ∧ Binary64.Stands y q ∧ q ≠ 0) :
    ∃ e, a.div (.const d) = .ok e ∧ Varying e ∧ Built scopes V k e := by
  have node : Built scopes V k (.binary .div a (.const d)) := by
    refine ⟨⟨ha.constants, within⟩, fun scope inside => ?_⟩
    obtain ⟨y, q, same, stands, some⟩ := divides ⟨scope, inside⟩
    obtain ⟨normal, bases, u, hu, kind⟩ := ha.yields scope inside
    obtain ⟨x, quotient⟩ := (loose u kind).div few (Scalar.nonzeroDouble stands some)
    refine ⟨⟨normal, trivial⟩, ⟨by simp, bases, trivial⟩, .float x, ?_, double x⟩
    rw [respelled, respelled, eval, hu, okBind, eval, okBind, same]
    exact congrArg (Except.mapError _) quotient
  -- By a zero the quotient is kept, by a one it is its dividend.
  unfold div folded
  split_ifs
  · exact ⟨_, rfl, by simp [Varying], node⟩
  · split
    · exact absurd rfl (varying _)
    · exact ⟨_, rfl, varying, ha⟩
  · split
    · exact absurd rfl (varying _)
    · exact ⟨_, rfl, by simp [Varying], node⟩

theorem clampHolds (wide : 2 ≤ k) (ha : Built scopes Double k a) (varying : Varying a) :
    Varying (a.clamp (ofInt 0) (ofInt 1)) ∧
      Built scopes Scalar.Share k (a.clamp (ofInt 0) (ofInt 1)) := by
  have inner : a.max (ofInt 0) = .call "max" [a, ofInt 0] := by
    unfold max
    split
    · exact absurd rfl (varying _)
    · rfl
  have outer : a.clamp (ofInt 0) (ofInt 1) = .call "min" [.call "max" [a, ofInt 0], ofInt 1] := by
    rw [clamp, inner]
    rfl
  have zero : Built scopes (· = .float (small 0)) k (ofInt 0 : Expr Scalar) :=
    smallHolds (n := 0) (by decide) (smallWithin (by decide) wide) rfl
  have one : Built scopes (· = .float (small 1)) k (ofInt 1 : Expr Scalar) :=
    smallHolds (n := 1) (by decide) (smallWithin (by decide) wide) rfl
  have raised : Built scopes (fun v => ∃ y, v = Number.max (.float y) (.float (small 0))) k
      (.call "max" [a, ofInt 0]) := by
    refine callTwo (f := .max) (named rfl rfl rfl) (by simp) rfl ha zero ?_
    rintro _ _ ⟨y, rfl⟩ rfl
    exact ⟨_, rfl, y, rfl⟩
  rw [outer]
  refine ⟨by simp [Varying], callTwo (f := .min) (named rfl rfl rfl) (by simp) rfl raised one ?_⟩
  rintro _ _ ⟨y, rfl⟩ rfl
  exact ⟨_, rfl, Scalar.clampedShare y⟩

end OverlayMotion.Expr

import OverlayMotion.Proofs.Definite

/-! An overlay moved in time does later what it did before. Its trees are not the old ones
with other constants: a start of zero is folded away, other starts are not. Beside each other,
the two have equal values, and the same of them are constants, so that a builder folds on both
sides or on neither. Everything else about their shapes is left open. -/
namespace OverlayMotion

namespace Expr
variable {ν : Type}

mutual

def names : Expr ν → List String
  | .const _ => []
  | .var name => [name]
  | .neg e => names e
  | .binary _ a b => names a ++ names b
  | .call _ es => namesAll es

def namesAll : List (Expr ν) → List String
  | [] => []
  | e :: es => names e ++ namesAll es

end

variable [Number ν] {scope scope' : Scope ν}

theorem callAlong {name : String} {es es' : List (Expr ν)}
    (along : List.Forall₂ (fun e e' => eval scope' e' = eval scope e) es es') :
    eval scope' (.call name es') = eval scope (.call name es) := by
  have all : evalAll scope' es' = evalAll scope es := by
    rw [evalAllEach, evalAllEach, eachAlong along]
  unfold eval
  split_ifs
  · rcases along with _ | ⟨test, _ | ⟨yes, _ | ⟨no, _ | ⟨_, more⟩⟩⟩⟩
    · rfl
    · rfl
    · rfl
    · simp only [test, yes, no]
    · simp only [List.length_cons, more.length_eq]
  · simp only [all]

mutual

theorem evalNamed : ∀ {e : Expr ν}, (∀ name ∈ e.names, scope' name = scope name) →
    eval scope' e = eval scope e
  | .const _, _ => rfl
  | .var name, agree => by
    simp only [eval, agree name (List.mem_singleton_self name)]
  | .neg e, agree => by
    simp only [eval, evalNamed (e := e) agree]
  | .binary _ a b, agree => by
    obtain ⟨left, right⟩ := List.forall_mem_append.mp agree
    simp only [eval, evalNamed left, evalNamed right]
  | .call _ _, agree => callAlong (allNamed agree)

theorem allNamed : ∀ {es : List (Expr ν)}, (∀ name ∈ namesAll es, scope' name = scope name) →
    List.Forall₂ (fun e e' => eval scope' e' = eval scope e) es es
  | [], _ => .nil
  | _ :: _, agree => by
    obtain ⟨first, others⟩ := List.forall_mem_append.mp agree
    exact .cons (evalNamed first) (allNamed others)

end

def Signed : Expr ν → Prop
  | .const _ => True
  | .neg e => Signed e
  | _ => False

/-- A tree in one scope and a tree in another: of equal value there, and the same tree if
either is a constant. -/
structure Moved (scope scope' : Scope ν) (e e' : Expr ν) : Prop where
  value : eval scope' e' = eval scope e
  alike : e.Signed ∨ e'.Signed → e = e'

end Expr

section
variable [Reading]

namespace Expr
variable {scope : Scope Rat} {a b : Expr Rat}

theorem sinceValue {now : Rat} (timed : scope "t" = some now) (c : Rat) :
    ∃ e, time.sub (.const c) = .ok e ∧ ¬ e.Signed ∧ eval scope e = .ok (now - c) := by
  obtain ⟨e, built, value⟩ := differenceValue time (.const c)
  have known : time.sub (.const c) =
      .ok (if (Expr.const c).isZero then time else .binary .sub time (.const c)) := rfl
  refine ⟨e, built, ?_, value scope now c (evalTime timed) rfl⟩
  cases known.symm.trans built
  split_ifs <;> simp [time, Signed]

theorem comparesTime {now : Rat} (timed : scope "t" = some now) (c : Rat) (a b : Expr Rat) :
    eval scope ((time.lt (.const c)).cond a b) = eval scope (if now < c then a else b) := by
  have test : eval scope (time.lt (.const c)) = .ok (if now < c then 1 else 0) := by
    simp [lt, time, eval, evalAll, timed, Builtin.ofName?, Builtin.apply]
  have chosen : eval scope (.call "if" [time.lt (.const c), a, b]) =
      eval scope (if now < c then a else b) := by
    rw [eval, if_pos rfl]
    simp only [test, okBind, exactIsZero]
    split_ifs <;> simp_all
  have built : (time.lt (.const c)).cond a b =
      if same a b then a else .call "if" [time.lt (.const c), a, b] := rfl
  rw [built]
  by_cases alike : same a b
  · rw [if_pos alike, sameEqual alike, ite_self]
  · rw [if_neg alike, chosen]

theorem signedChoice {c : Rat} (signed : ((time.lt (.const c)).cond a b).Signed) :
    a = b ∧ a.Signed ∧ (time.lt (.const c)).cond a b = a := by
  have built : (time.lt (.const c)).cond a b =
      if same a b then a else .call "if" [time.lt (.const c), a, b] := rfl
  rw [built] at signed ⊢
  split_ifs at signed ⊢ with alike
  · exact ⟨sameEqual alike, signed, rfl⟩
  · exact signed.elim

theorem sameItself : ∀ {e : Expr Rat}, e.Signed → same e e = true
  | .const _, _ => by simp [same]
  | .neg e, signed => by
    rw [same]
    exact sameItself (e := e) signed

end Expr

namespace Expr.Moved
variable {scope scope' : Scope Rat} {a b a' b' e e' : Expr Rat}

theorem itself (value : eval scope' e = eval scope e) : Moved scope scope' e e := ⟨value, fun _ => rfl⟩

theorem free (value : eval scope' e' = eval scope e) (left : ¬ e.Signed) (right : ¬ e'.Signed) :
    Moved scope scope' e e' :=
  ⟨value, fun signed => (signed.elim left right).elim⟩

theorem const (c : Rat) : Moved scope scope' (.const c) (.const c) := itself rfl

theorem constant (h : Moved scope scope' e e') (test : Rat → Bool) :
    e'.constantAnd test = e.constantAnd test := by
  cases e with
  | const c => rw [h.alike (.inl trivial)]
  | _ =>
    cases e' with
    | const c => rw [h.alike (.inr trivial)]
    | _ => rfl

theorem neg (h : Moved scope scope' e e') : Moved scope scope' (.neg e) (.neg e') := by
  refine ⟨?_, fun signed => ?_⟩
  · simp only [eval, h.value]
  · rw [h.alike signed]

theorem negated (scope : Scope Rat) (e : Expr Rat) : eval scope (negate e) = eval scope (.neg e) := by
  cases e with
  | neg inner =>
    simp only [negate, eval]
    cases eval scope inner <;> simp
  | _ => simp [negate, eval]

theorem signedNegate : (negate e).Signed ↔ e.Signed := by
  cases e <;> simp [negate, Signed]

theorem negate (h : Moved scope scope' e e') : Moved scope scope' (negate e) (negate e') := by
  refine ⟨?_, fun signed => ?_⟩
  · rw [negated, negated, eval, eval, h.value]
  · rw [signedNegate, signedNegate] at signed
    rw [h.alike signed]

theorem binary (op : Operator) (ha : Moved scope scope' a a') (hb : Moved scope scope' b b') :
    Moved scope scope' (.binary op a b) (.binary op a' b') :=
  .free (by simp only [eval, ha.value, hb.value]) (by simp [Signed]) (by simp [Signed])

theorem call (name : String) {es es' : List (Expr Rat)}
    (along : List.Forall₂ (Moved scope scope') es es') :
    Moved scope scope' (.call name es) (.call name es') :=
  .free (callAlong (along.imp fun _ _ moved => moved.value)) (by simp [Signed]) (by simp [Signed])

theorem constants (ha : Moved scope scope' a a') (hb : Moved scope scope' b b') :
    (∃ x y, a = .const x ∧ b = .const y ∧ a' = .const x ∧ b' = .const y) ∨
      (∀ x y, a = .const x → b ≠ .const y) ∧ ∀ x y, a' = .const x → b' ≠ .const y := by
  by_cases both : ∃ x y, a = .const x ∧ b = .const y
  · obtain ⟨x, y, rfl, rfl⟩ := both
    exact .inl ⟨x, y, rfl, rfl, (ha.alike (.inl trivial)).symm, (hb.alike (.inl trivial)).symm⟩
  · refine .inr ⟨fun x y first second => both ⟨x, y, first, second⟩, fun x y first second => ?_⟩
    subst first second
    exact both ⟨x, y, ha.alike (.inr trivial), hb.alike (.inr trivial)⟩

theorem folded {compute : Rat → Rat → Except Fault Rat} {otherwise otherwise' : Expr Rat}
    (ha : Moved scope scope' a a') (hb : Moved scope scope' b b')
    (computes : ∀ x y, a = .const x → b = .const y → ∃ w, compute x y = .ok w)
    (other : Moved scope scope' otherwise otherwise') :
    Both (Moved scope scope') (folded compute a b otherwise) (folded compute a' b' otherwise') := by
  obtain ⟨x, y, rfl, rfl, rfl, rfl⟩ | ⟨left, right⟩ := ha.constants hb
  · obtain ⟨w, result⟩ := computes x y rfl rfl
    simp only [Expr.folded, result, okMap]
    exact .ok (.const w)
  · have built {a b otherwise : Expr Rat} (open' : ∀ x y, a = .const x → b ≠ .const y) :
        Expr.folded compute a b otherwise = .ok otherwise := by
      unfold Expr.folded
      split
      · exact absurd rfl (open' _ _ rfl)
      · rfl
    rw [built left, built right]
    exact .ok other

theorem zero (h : Moved scope scope' e e') : e'.isZero = e.isZero := h.constant _

theorem one (h : Moved scope scope' e e') : e'.isOne = e.isOne := h.constant _

theorem add (ha : Moved scope scope' a a') (hb : Moved scope scope' b b') :
    Both (Moved scope scope') (a.add b) (a'.add b') := by
  refine folded ha hb (fun x y _ _ => ⟨x + y, rfl⟩) ?_
  rw [ha.zero, hb.zero]
  split_ifs
  · exact hb
  · exact ha
  · exact binary .add ha hb

theorem sub (ha : Moved scope scope' a a') (hb : Moved scope scope' b b') :
    Both (Moved scope scope') (a.sub b) (a'.sub b') := by
  refine folded ha hb (fun x y _ _ => ⟨x - y, rfl⟩) ?_
  rw [ha.zero, hb.zero]
  split_ifs
  · exact ha
  · exact hb.negate
  · exact binary .sub ha hb

theorem mul (ha : Moved scope scope' a a') (hb : Moved scope scope' b b') :
    Both (Moved scope scope') (a.mul b) (a'.mul b') := by
  refine folded ha hb (fun x y _ _ => ⟨x * y, rfl⟩) ?_
  rw [ha.zero, hb.zero, ha.one, hb.one]
  split_ifs
  · exact .const _
  · exact hb
  · exact ha
  · exact binary .mul ha hb

theorem div (ha : Moved scope scope' a a') {c : Rat} (divisor : c ≠ 0) :
    Both (Moved scope scope') (a.div (.const c)) (a'.div (.const c)) := by
  have some : (Expr.const c).isZero = false := by simpa [isZero, constantAnd] using divisor
  simp only [Expr.div, some, Bool.false_eq_true, if_false]
  refine folded ha (.const c) (fun x y _ same => ?_) ?_
  · cases same
    exact ⟨x / c, exactDiv divisor⟩
  · split_ifs
    · exact ha
    · exact binary .div ha (.const c)

theorem pow (total : PowersTotal) (n : Nat) (ha : Moved scope scope' a a') :
    Both (Moved scope scope') (a.pow (ofInt n)) (a'.pow (ofInt n)) := by
  have exponent : Moved scope scope' (ofInt n) (ofInt n) := .const _
  obtain ⟨x, _, rfl, -, rfl, -⟩ | ⟨left, right⟩ := ha.constants exponent
  · obtain ⟨v, raised⟩ := total x n
    have built : (Expr.const x).pow (ofInt n) = .ok (.const v) := by
      simp [Expr.pow, ofInt, power, raised]
    rw [built]
    exact .ok (.const v)
  · have built {a : Expr Rat} (free : ∀ x y, a = .const x → (ofInt n : Expr Rat) ≠ .const y) :
        a.pow (ofInt n) = .ok (if (ofInt n : Expr Rat).isOne then a else .call "pow" [a, ofInt n]) := by
      unfold Expr.pow
      split
      · exact absurd rfl (free _ _ rfl)
      · rfl
    rw [built left, built right]
    refine .ok ?_
    split_ifs
    · exact ha
    · exact call "pow" (.cons ha (.cons exponent .nil))

theorem sin (ha : Moved scope scope' a a') : Both (Moved scope scope') a.sin a'.sin := by
  have built (a : Expr Rat) :
      a.sin = Expr.folded (fun x _ => Number.sin x) a (.const 0) (.call "sin" [a]) := by
    cases a <;> rfl
  rw [built, built]
  exact folded ha (.const 0) (fun x _ _ _ => ⟨_, rfl⟩) (call "sin" (.cons ha .nil))

theorem max (ha : Moved scope scope' a a') (hb : Moved scope scope' b b') :
    Moved scope scope' (a.max b) (a'.max b') := by
  have built (a b : Expr Rat) : Expr.folded (fun x y => .ok (Number.max x y)) a b
      (.call "max" [a, b]) = .ok (a.max b) := by
    cases a <;> cases b <;> rfl
  obtain ⟨e, e', first, second, moved⟩ := folded ha hb (fun x y _ _ => ⟨Number.max x y, rfl⟩)
    (call "max" (.cons ha (.cons hb .nil)))
  cases (built a b).symm.trans first
  cases (built a' b').symm.trans second
  exact moved

theorem min (ha : Moved scope scope' a a') (hb : Moved scope scope' b b') :
    Moved scope scope' (a.min b) (a'.min b') := by
  have built (a b : Expr Rat) : Expr.folded (fun x y => .ok (Number.min x y)) a b
      (.call "min" [a, b]) = .ok (a.min b) := by
    cases a <;> cases b <;> rfl
  obtain ⟨e, e', first, second, moved⟩ := folded ha hb (fun x y _ _ => ⟨Number.min x y, rfl⟩)
    (call "min" (.cons ha (.cons hb .nil)))
  cases (built a b).symm.trans first
  cases (built a' b').symm.trans second
  exact moved

theorem choice {now now' c c' : Rat} (timed : scope "t" = some now) (timed' : scope' "t" = some now')
    (order : now < c ↔ now' < c') (ha : Moved scope scope' a a') (hb : Moved scope scope' b b') :
    Moved scope scope' ((time.lt (.const c)).cond a b) ((time.lt (.const c')).cond a' b') := by
  have settled {e : Expr Rat} (signed : e.Signed) (c : Rat) : (time.lt (.const c)).cond e e = e :=
    if_pos (sameItself signed)
  refine ⟨?_, ?_⟩
  · rw [comparesTime timed, comparesTime timed']
    simp only [order]
    split_ifs
    · exact ha.value
    · exact hb.value
  · rintro (left | right)
    · obtain ⟨rfl, signed, -⟩ := signedChoice left
      rw [← ha.alike (.inl signed), ← hb.alike (.inl signed), settled signed, settled signed]
    · obtain ⟨rfl, signed, -⟩ := signedChoice right
      rw [ha.alike (.inr signed), hb.alike (.inr signed), settled signed, settled signed]

theorem elapsed {now c d : Rat} (timed : scope "t" = some now)
    (timed' : scope' "t" = some (now + d)) :
    Both (Moved scope scope') (time.sub (.const c)) (time.sub (.const (c + d))) := by
  obtain ⟨e, built, free, value⟩ := sinceValue timed c
  obtain ⟨e', built', free', value'⟩ := sinceValue timed' (c + d)
  refine ⟨e, e', built, built', .free ?_ free free'⟩
  rw [value, value', add_sub_add_right_eq_sub]

theorem kept (total : PowersTotal) {s : Symbols} {now d : Rat} (timed : scope "t" = some now)
    (timed' : scope' "t" = some (now + d)) (other : ∀ name ≠ "t", scope' name = scope name)
    (untimed : "t" ∉ s.dimensions) : Kept s d (Moved scope scope') where
  const := const
  dimension {name} inside := by
    have apart : name ≠ "t" := by
      rintro rfl
      exact untimed inside
    exact itself (by simp only [eval, other name apart])
  elapsed _ := elapsed timed timed'
  neg := neg
  add := add
  sub := sub
  mul := mul
  div h := h.div
  pow := pow total
  sin := sin
  clamp h := (h.max (const _)).min (const _)
  choice c := choice timed timed' (add_lt_add_iff_right d).symm
  window low high := by
    refine free ?_ id id
    rw [betweenValue timed, betweenValue timed']
    simp only [add_le_add_iff_right]

end Expr.Moved

theorem Overlay.Constructed.delayed {o : Overlay Rat} (made : o.Constructed) {d : Rat}
    (begins : 0 ≤ o.placement.start + d) : (o.delayed d).Constructed := by
  have window : o.placement.start ≤ o.placement.finish := by simpa using made.window
  have accepted : (o.placement.delayed d).rejection? = none := by
    simp [Placement.rejection?, Placement.delayed, firstRejection, begins, window]
  refine ⟨?_, ?_⟩
  · rw [o.delayedPlacement]
    exact made.animation
  · cases o with
    | image i =>
      obtain ⟨box, fit, made⟩ := made.made
      obtain ⟨_, _, rest⟩ := bindOk.mp made
      obtain ⟨_, sized, rest⟩ := bindOk.mp rest
      refine ⟨box, fit, bindOk.mpr ⟨(), acceptOk.mpr accepted, bindOk.mpr ⟨(), sized, ?_⟩⟩⟩
      cases known : Fit.ofName? fit with
      | none => simp [known] at rest
      | some shape =>
        simp only [known] at rest ⊢
        obtain ⟨sides, read, same⟩ := bindOk.mp rest
        have same := Except.ok.inj same
        have boxed : sides = i.box := congrArg Image.box same
        have shaped : shape = i.fit := congrArg Image.fit same
        exact bindOk.mpr ⟨sides, read, by rw [boxed, shaped]; rfl⟩
    | caption c =>
      obtain ⟨_, _, rest⟩ := bindOk.mp made.made
      obtain ⟨_, sized, _⟩ := bindOk.mp rest
      exact bindOk.mpr ⟨(), acceptOk.mpr accepted, bindOk.mpr ⟨(), sized, rfl⟩⟩

/-- The overlay at another time: accepted again, compiled again, and in every scope, so much
later, each tree has the value of the old one, or none for the same reason. -/
theorem Overlay.delayedAlike (total : PowersTotal) {o : Overlay Rat} (made : o.Constructed)
    {d : Rat} (begins : 0 ≤ o.placement.start + d)
    (untimed : ∀ source ∈ o.placement.formulas,
      ∃ e : Expr Rat, Expr.read source = .ok e ∧ "t" ∉ e.names) :
    (o.delayed d).Constructed ∧
    ∃ c c', o.compiled = .ok c ∧ (o.delayed d).compiled = .ok c' ∧
      ∀ (scope : Expr.Scope Rat) (now : Rat), c.Along (fun e e' =>
        Expr.eval (scope.extend [("t", now + d)]) e' = Expr.eval (scope.extend [("t", now)]) e) c' := by
  have compiled (scope : Expr.Scope Rat) (now : Rat) :
      Both (Compiled.Along (Expr.Moved (scope.extend [("t", now)]) (scope.extend [("t", now + d)])))
        o.compiled (o.delayed d).compiled := by
    have other : ∀ name ≠ "t", scope.extend [("t", now + d)] name = scope.extend [("t", now)] name := by
      intro name apart
      simp [Expr.Scope.extend, List.lookup, beq_eq_false_iff_ne.mpr apart]
    have untouched : "t" ∉ (symbolsFor o.isCaption).dimensions := by
      cases o.isCaption <;> simp [symbolsFor, captionSymbols, imageSymbols, Symbols.dimensions]
    have kept := Expr.Moved.kept total (d := d) rfl rfl other untouched
    refine kept.compiled made.animation fun source inside => ?_
    obtain ⟨e, parsed, free⟩ := untimed source inside
    refine ⟨e, parsed, .itself (Expr.evalNamed fun name among => other name ?_)⟩
    rintro rfl
    exact free among
  obtain ⟨c, c', built, built', _⟩ := compiled (fun _ => none) 0
  refine ⟨made.delayed begins, c, c', built, built', fun scope now => ?_⟩
  obtain ⟨k, k', again, again', along⟩ := compiled scope now
  cases built.symm.trans again
  cases built'.symm.trans again'
  exact along.imp fun moved => moved.value

end

theorem bouncingCaptionDelayed :
    letI := naturalPowers
    let scope : Expr.Scope Rat := fun name => if name = "text_w" then some 200 else none
    ∃ c c', bouncingCaption.compiled = .ok c ∧ (bouncingCaption.delayed (3 / 2)).compiled = .ok c' ∧
      Expr.eval (scope.extend [("t", 3)]) c.motion.x = .ok (-80) ∧
      Expr.eval (scope.extend [("t", 3 + 3 / 2)]) c'.motion.x = .ok (-80) := by
  let _ := naturalPowers
  intro scope
  obtain ⟨_, c, c', built, built', along⟩ := Overlay.delayedAlike naturalPowersExact.total
    bouncingCaptionMade (d := 3 / 2) (by norm_num [bouncingCaption, Overlay.placement])
    (by simp [bouncingCaption, Overlay.placement, Placement.formulas, Coordinate.formulas])
  have out : ∀ c, bouncingCaption.compiled = .ok c →
      (Expr.eval (scope.extend [("t", 3)]) c.motion.x).toOption = some (-80) := by decide +kernel
  have halfway : Expr.eval (scope.extend [("t", 3)]) c.motion.x = .ok (-80) := by
    have value := out c built
    cases result : Expr.eval (scope.extend [("t", 3)]) c.motion.x with
    | error e => simp [result, Except.toOption] at value
    | ok v => simpa [result, Except.toOption] using value
  exact ⟨c, c', built, built', halfway, (along scope 3).x.trans halfway⟩

end OverlayMotion

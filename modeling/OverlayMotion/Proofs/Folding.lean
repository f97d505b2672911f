import OverlayMotion.Proofs.Exact

/-! What the builders keep. Each is set beside the plain node that it stands for: wherever
the plain node has a value, the tree that is built has it too. A builder may have more
values than its node, never other ones. -/
namespace OverlayMotion.Expr

variable [Reading]

def Refines (plain built : Expr Rat) : Prop :=
  ∀ scope v, eval scope plain = .ok v → eval scope built = .ok v

theorem evalBinary {scope : Scope Rat} {op : Operator} {a b : Expr Rat} {w : Rat} :
    eval scope (.binary op a b) = .ok w ↔
      ∃ u v, eval scope a = .ok u ∧ eval scope b = .ok v ∧ op.apply u v = .ok w := by
  simp only [eval, bindOk]
  constructor
  · rintro ⟨u, hu, v, hv, h⟩
    exact ⟨u, v, hu, hv, h⟩
  · rintro ⟨u, v, hu, hv, h⟩
    exact ⟨u, hu, v, hv, h⟩

theorem evalNeg {scope : Scope Rat} {e : Expr Rat} {w : Rat} :
    eval scope (.neg e) = .ok w ↔ ∃ v, eval scope e = .ok v ∧ -v = w := by
  simp only [eval, mapOk, exactNeg]

theorem evalOne {scope : Scope Rat} {name : String} {f : Builtin} {a : Expr Rat} {w : Rat}
    (known : Builtin.ofName? name = some f) (other : name ≠ "if") :
    eval scope (.call name [a]) = .ok w ↔ ∃ u, eval scope a = .ok u ∧ f.apply [u] = .ok w := by
  simp [eval, evalAll, known, other, bindOk]

theorem evalTwo {scope : Scope Rat} {name : String} {f : Builtin} {a b : Expr Rat} {w : Rat}
    (known : Builtin.ofName? name = some f) (other : name ≠ "if") :
    eval scope (.call name [a, b]) = .ok w ↔
      ∃ u v, eval scope a = .ok u ∧ eval scope b = .ok v ∧ f.apply [u, v] = .ok w := by
  simp [eval, evalAll, known, other, bindOk]

theorem zeroConstant {e : Expr Rat} (zero : e.isZero = true) : e = .const 0 := by
  cases e <;> simp_all [isZero, constantAnd]

theorem oneConstant {e : Expr Rat} (one : e.isOne = true) : e = .const 1 := by
  cases e <;> simp_all [isOne, constantAnd]

theorem negateRefines (e : Expr Rat) : Refines (.neg e) (negate e) := by
  intro scope v plain
  cases e with
  | const w => simpa [eval, negate] using plain
  | neg inner =>
    obtain ⟨_, outer, rfl⟩ := evalNeg.mp plain
    obtain ⟨w, value, rfl⟩ := evalNeg.mp outer
    simpa [negate] using value
  | var name => exact plain
  | binary op a b => exact plain
  | call f es => exact plain

theorem foldedRefines {op : Operator} {compute : Rat → Rat → Except Fault Rat}
    {a b otherwise : Expr Rat}
    (computes : ∀ x y, a = .const x → b = .const y →
      ∃ w, compute x y = .ok w ∧ op.apply x y = .ok w)
    (other : Refines (.binary op a b) otherwise) :
    ∃ e, folded compute a b otherwise = .ok e ∧ Refines (.binary op a b) e := by
  unfold folded
  split
  · rename_i x y
    obtain ⟨w, result, applied⟩ := computes x y rfl rfl
    refine ⟨.const w, by rw [result]; rfl, ?_⟩
    intro scope v plain
    obtain ⟨_, _, hx, hy, applied'⟩ := evalBinary.mp plain
    cases hx
    cases hy
    rw [applied] at applied'
    exact applied'
  · exact ⟨_, rfl, other⟩

theorem addRefines (a b : Expr Rat) :
    ∃ e, a.add b = .ok e ∧ Refines (.binary .add a b) e := by
  refine foldedRefines (fun x y _ _ => ⟨x + y, rfl, rfl⟩) ?_
  intro scope w plain
  obtain ⟨u, v, hu, hv, sum⟩ := evalBinary.mp plain
  cases sum
  split_ifs with za zb
  · rw [zeroConstant za] at hu
    cases hu
    simpa using hv
  · rw [zeroConstant zb] at hv
    cases hv
    simpa using hu
  · exact plain

theorem subRefines (a b : Expr Rat) :
    ∃ e, a.sub b = .ok e ∧ Refines (.binary .sub a b) e := by
  refine foldedRefines (fun x y _ _ => ⟨x - y, rfl, rfl⟩) ?_
  intro scope w plain
  obtain ⟨u, v, hu, hv, difference⟩ := evalBinary.mp plain
  cases difference
  split_ifs with zb za
  · rw [zeroConstant zb] at hv
    cases hv
    simpa using hu
  · rw [zeroConstant za] at hu
    cases hu
    exact negateRefines b scope _ (evalNeg.mpr ⟨v, hv, by simp⟩)
  · exact plain

theorem mulRefines (a b : Expr Rat) :
    ∃ e, a.mul b = .ok e ∧ Refines (.binary .mul a b) e := by
  refine foldedRefines (fun x y _ _ => ⟨x * y, rfl, rfl⟩) ?_
  intro scope w plain
  obtain ⟨u, v, hu, hv, product⟩ := evalBinary.mp plain
  cases product
  split_ifs with zero oa ob
  · rcases Bool.or_eq_true_iff.mp zero with za | zb
    · rw [zeroConstant za] at hu
      cases hu
      simp [ofInt, eval]
    · rw [zeroConstant zb] at hv
      cases hv
      simp [ofInt, eval]
  · rw [oneConstant oa] at hu
    cases hu
    simpa using hv
  · rw [oneConstant ob] at hv
    cases hv
    simpa using hu
  · exact plain

theorem divRefines (a b : Expr Rat) :
    ∃ e, a.div b = .ok e ∧ Refines (.binary .div a b) e := by
  unfold div
  by_cases zb : b.isZero
  · rw [if_pos zb]
    exact ⟨_, rfl, fun _ _ plain => plain⟩
  rw [if_neg zb]
  refine foldedRefines (fun x y _ same => ?_) ?_
  · have divisor : y ≠ 0 := by
      rintro rfl
      simp [same, isZero, constantAnd] at zb
    exact ⟨x / y, exactDiv divisor, mapErrorOk.mpr (exactDiv divisor)⟩
  · intro scope w plain
    obtain ⟨u, v, hu, hv, quotient⟩ := evalBinary.mp plain
    split_ifs with ob
    · rw [oneConstant ob] at hv
      cases hv
      have divided : (Number.div u 1).mapError Failure.fault = .ok w := quotient
      rw [exactDiv one_ne_zero, div_one] at divided
      cases divided
      exact hu
    · exact plain

theorem powRefines (a b : Expr Rat)
    (defined : ∀ x y, a = .const x → b = .const y → ∃ w, Reading.pow x y = .ok w) :
    ∃ e, a.pow b = .ok e ∧ Refines (.call "pow" [a, b]) e := by
  unfold pow
  split
  · rename_i x y
    obtain ⟨w, result⟩ := defined x y rfl rfl
    have raised : power x y = .ok w := by simp [power, result]
    refine ⟨.const w, by rw [raised]; rfl, fun scope v plain => ?_⟩
    obtain ⟨_, _, hx, hy, applied⟩ := (evalTwo (f := .pow) rfl (by decide)).mp plain
    cases hx
    cases hy
    exact raised.symm.trans applied
  · refine ⟨_, rfl, fun scope w plain => ?_⟩
    split_ifs with ob
    · obtain ⟨u, v, hu, hv, applied⟩ := (evalTwo (f := .pow) rfl (by decide)).mp plain
      rw [oneConstant ob] at hv
      cases hv
      simp [Builtin.apply, power, Reading.powOne] at applied
      simpa [applied] using hu
    · exact plain

theorem sinRefines (e : Expr Rat) : ∃ s, e.sin = .ok s ∧ Refines (.call "sin" [e]) s := by
  unfold sin
  split
  · rename_i x
    refine ⟨.const (Reading.sin x), rfl, fun scope v plain => ?_⟩
    obtain ⟨_, hx, applied⟩ := (evalOne (f := .sin) rfl (by decide)).mp plain
    cases hx
    exact applied
  · exact ⟨_, rfl, fun _ _ plain => plain⟩

theorem minRefines (a b : Expr Rat) : Refines (.call "min" [a, b]) (a.min b) := by
  intro scope v plain
  unfold min
  split
  · obtain ⟨_, _, hx, hy, applied⟩ := (evalTwo (f := .min) rfl (by decide)).mp plain
    cases hx
    cases hy
    exact applied
  · exact plain

theorem maxRefines (a b : Expr Rat) : Refines (.call "max" [a, b]) (a.max b) := by
  intro scope v plain
  unfold max
  split
  · obtain ⟨_, _, hx, hy, applied⟩ := (evalTwo (f := .max) rfl (by decide)).mp plain
    cases hx
    cases hy
    exact applied
  · exact plain

mutual

theorem sameEqual : ∀ {a b : Expr Rat}, same a b = true → a = b
  | .const v, b, equal => by
    cases b <;> simp_all [same]
  | .var x, b, equal => by
    cases b <;> simp_all [same]
  | .neg a, b, equal => by
    cases b with
    | neg b =>
      rw [same] at equal
      rw [sameEqual equal]
    | _ => simp [same] at equal
  | .binary p a c, b, equal => by
    cases b with
    | binary q b d =>
      simp only [same, Bool.and_eq_true, beq_iff_eq] at equal
      rw [equal.1.1, sameEqual equal.1.2, sameEqual equal.2]
    | _ => simp [same] at equal
  | .call f as, b, equal => by
    cases b with
    | call g bs =>
      simp only [same, Bool.and_eq_true, beq_iff_eq] at equal
      rw [equal.1, sameAllEqual equal.2]
    | _ => simp [same] at equal

theorem sameAllEqual : ∀ {as bs : List (Expr Rat)}, sameAll as bs = true → as = bs
  | [], bs, equal => by
    cases bs <;> simp_all [sameAll]
  | a :: as, bs, equal => by
    cases bs with
    | nil => simp [sameAll] at equal
    | cons b bs =>
      simp only [sameAll, Bool.and_eq_true] at equal
      rw [sameEqual equal.1, sameAllEqual equal.2]

end

theorem evalIf {scope : Scope Rat} {test yes no : Expr Rat} {w : Rat} :
    eval scope (.call "if" [test, yes, no]) = .ok w ↔
      ∃ v, eval scope test = .ok v ∧ eval scope (if v = 0 then no else yes) = .ok w := by
  simp only [eval, if_true, bindOk, exactIsZero, decide_eq_true_eq]
  refine exists_congr fun v => and_congr_right fun _ => ?_
  split_ifs <;> rfl

theorem condRefines (test yes no : Expr Rat) :
    Refines (.call "if" [test, yes, no]) (test.cond yes no) := by
  intro scope w plain
  obtain ⟨v, tested, chosen⟩ := evalIf.mp plain
  unfold cond
  split
  · cases tested
    simp only [exactIsZero, decide_eq_true_eq]
    split_ifs at chosen ⊢ <;> exact chosen
  · split_ifs with alike
    · rw [sameEqual alike] at chosen ⊢
      split_ifs at chosen <;> exact chosen
    · exact plain

end OverlayMotion.Expr

import OverlayMotion.Proofs.Folding

/-! Formulas put together by the builders, beside the same formulas of plain nodes. One
builder keeps every value that its node has. A whole formula keeps them too once it is
built; but a power of two constants is computed at once, even in a branch that no
evaluation takes, and where it has no value the formula is not built at all. -/
namespace OverlayMotion.Expr

inductive Joint
  | add
  | sub
  | mul
  | div
  | pow
  | min
  | max

namespace Joint
variable {ν : Type} [Number ν]

def node : Joint → Expr ν → Expr ν → Expr ν
  | add, a, b => .binary .add a b
  | sub, a, b => .binary .sub a b
  | mul, a, b => .binary .mul a b
  | div, a, b => .binary .div a b
  | pow, a, b => .call "pow" [a, b]
  | min, a, b => .call "min" [a, b]
  | max, a, b => .call "max" [a, b]

def build : Joint → Expr ν → Expr ν → Except (Failure ν) (Expr ν)
  | add, a, b => ofFault (a.add b)
  | sub, a, b => ofFault (a.sub b)
  | mul, a, b => ofFault (a.mul b)
  | div, a, b => ofFault (a.div b)
  | pow, a, b => a.pow b
  | min, a, b => .ok (a.min b)
  | max, a, b => .ok (a.max b)

def apply : Joint → ν → ν → Except (Failure ν) ν
  | add, u, v => Operator.add.apply u v
  | sub, u, v => Operator.sub.apply u v
  | mul, u, v => Operator.mul.apply u v
  | div, u, v => Operator.div.apply u v
  | pow, u, v => power u v
  | min, u, v => .ok (Number.min u v)
  | max, u, v => .ok (Number.max u v)

end Joint

section
variable [Reading]

def Joint.Computes (j : Joint) (a b : Expr Rat) : Prop :=
  j = .pow → ∀ x y, a = .const x → b = .const y → ∃ w, Reading.pow x y = .ok w

theorem powerOk {x y w : Rat} : power x y = .ok w ↔ Reading.pow x y = .ok w := by
  unfold power
  split <;> simp_all

theorem evalNode {scope : Scope Rat} {j : Joint} {a b : Expr Rat} {w : Rat} :
    eval scope (j.node a b) = .ok w ↔
      ∃ u v, eval scope a = .ok u ∧ eval scope b = .ok v ∧ j.apply u v = .ok w := by
  cases j with
  | add => exact evalBinary
  | sub => exact evalBinary
  | mul => exact evalBinary
  | div => exact evalBinary
  | pow => exact evalTwo (show Builtin.ofName? "pow" = some .pow from rfl) (by decide)
  | min => exact evalTwo (show Builtin.ofName? "min" = some .min from rfl) (by decide)
  | max => exact evalTwo (show Builtin.ofName? "max" = some .max from rfl) (by decide)

theorem nodeFollows {a a' b b' : Expr Rat} (j : Joint) (left : Refines a a')
    (right : Refines b b') : Refines (j.node a b) (j.node a' b') := by
  intro scope w plain
  obtain ⟨u, v, hu, hv, applied⟩ := evalNode.mp plain
  exact evalNode.mpr ⟨u, v, left scope u hu, right scope v hv, applied⟩

theorem faultless {a : Expr Rat} {x : Except Fault (Expr Rat)}
    (made : ∃ e, x = .ok e ∧ Refines a e) :
    ∃ e, (ofFault x : Except (Failure Rat) (Expr Rat)) = .ok e ∧ Refines a e := by
  obtain ⟨e, rfl, kept⟩ := made
  exact ⟨e, rfl, kept⟩

theorem jointRefines {j : Joint} {a b : Expr Rat} (computes : j.Computes a b) :
    ∃ e, j.build a b = .ok e ∧ Refines (j.node a b) e := by
  cases j with
  | add => exact faultless (addRefines a b)
  | sub => exact faultless (subRefines a b)
  | mul => exact faultless (mulRefines a b)
  | div => exact faultless (divRefines a b)
  | pow => exact powRefines a b (computes rfl)
  | min => exact ⟨_, rfl, minRefines a b⟩
  | max => exact ⟨_, rfl, maxRefines a b⟩

theorem jointBuilt {j : Joint} {a b e : Expr Rat} (built : j.build a b = .ok e) :
    j.Computes a b := by
  intro raised x y left right
  subst raised left right
  obtain ⟨w, computed, _⟩ := mapOk.mp built
  exact ⟨w, powerOk.mp computed⟩

theorem nodeComputes {scope : Scope Rat} {j : Joint} {a b : Expr Rat} {v : Rat}
    (plain : eval scope (j.node a b) = .ok v) : j.Computes a b := by
  intro raised x y left right
  subst raised left right
  obtain ⟨_, _, hx, hy, applied⟩ := evalNode.mp plain
  cases hx
  cases hy
  exact ⟨v, powerOk.mp applied⟩

theorem evalCall {scope : Scope Rat} {name : String} {es : List (Expr Rat)} {w : Rat}
    (other : name ≠ "if") : eval scope (.call name es) = .ok w ↔
      ∃ f vs, Builtin.ofName? name = some f ∧ evalAll scope es = .ok vs ∧ f.apply vs = .ok w := by
  unfold eval
  rw [if_neg other]
  cases Builtin.ofName? name with
  | none => simp
  | some f => simp [bindOk]

theorem evalAllOk {scope : Scope Rat} {es : List (Expr Rat)} {vs : List Rat} :
    evalAll scope es = .ok vs ↔ List.Forall₂ (fun e v => eval scope e = .ok v) es vs := by
  rw [← eachOk, evalAllEach]

theorem callFollows {as bs : List (Expr Rat)} (name : String)
    (along : List.Forall₂ Refines as bs) : Refines (.call name as) (.call name bs) := by
  intro scope w plain
  by_cases conditional : name = "if"
  · subst conditional
    rcases along with _ | ⟨test, _ | ⟨yes, _ | ⟨no, _ | more⟩⟩⟩
    case cons.cons.cons.nil =>
      obtain ⟨v, tested, chosen⟩ := evalIf.mp plain
      refine evalIf.mpr ⟨v, test scope v tested, ?_⟩
      split_ifs at chosen ⊢
      · exact no scope w chosen
      · exact yes scope w chosen
    all_goals cases plain
  · obtain ⟨f, vs, known, values, applied⟩ := (evalCall conditional).mp plain
    refine (evalCall conditional).mpr ⟨f, vs, known, ?_, applied⟩
    rw [evalAllOk] at values ⊢
    clear plain known applied
    induction along generalizing vs with
    | nil => exact values
    | cons first _ ih =>
      cases values with
      | cons value rest => exact .cons (first scope _ value) (ih _ rest)

inductive Formula
  | tree (e : Expr Rat)
  | neg (operand : Formula)
  | sin (operand : Formula)
  | joint (j : Joint) (left right : Formula)
  | cond (test yes no : Formula)
  | call (name : String) (arguments : List Formula)

namespace Formula

mutual

def plain : Formula → Expr Rat
  | tree e => e
  | neg f => .neg f.plain
  | sin f => .call "sin" [f.plain]
  | joint j f g => j.node f.plain g.plain
  | cond test yes no => .call "if" [test.plain, yes.plain, no.plain]
  | call name fs => .call name (plainAll fs)

def plainAll : List Formula → List (Expr Rat)
  | [] => []
  | f :: fs => f.plain :: plainAll fs

end

mutual

def build : Formula → Except (Failure Rat) (Expr Rat)
  | tree e => .ok e
  | neg f => do return negate (← f.build)
  | sin f => do ofFault (← f.build).sin
  | joint j f g => do j.build (← f.build) (← g.build)
  | cond test yes no => do return Expr.cond (← test.build) (← yes.build) (← no.build)
  | call name fs => do return .call name (← buildAll fs)

def buildAll : List Formula → Except (Failure Rat) (List (Expr Rat))
  | [] => .ok []
  | f :: fs => do return (← f.build) :: (← buildAll fs)

end

mutual

def Folds : Formula → Prop
  | tree _ => True
  | neg f => f.Folds
  | sin f => f.Folds
  | joint j f g =>
    f.Folds ∧ g.Folds ∧ ∀ a b, f.build = .ok a → g.build = .ok b → j.Computes a b
  | cond test yes no => test.Folds ∧ yes.Folds ∧ no.Folds
  | call _ fs => FoldsAll fs

def FoldsAll : List Formula → Prop
  | [] => True
  | f :: fs => f.Folds ∧ FoldsAll fs

end

mutual

def Straight : Formula → Prop
  | tree _ => True
  | neg f => f.Straight
  | sin f => f.Straight
  | joint _ f g => f.Straight ∧ g.Straight
  | cond _ _ _ => False
  | call name fs => name ≠ "if" ∧ StraightAll fs

def StraightAll : List Formula → Prop
  | [] => True
  | f :: fs => f.Straight ∧ StraightAll fs

end

omit [Reading] in
theorem plainAllMap (fs : List Formula) : plainAll fs = fs.map plain := by
  induction fs with
  | nil => rfl
  | cons f fs ih => rw [plainAll, ih, List.map_cons]

theorem buildAllMap (fs : List Formula) : buildAll fs = fs.mapM build := by
  induction fs with
  | nil => rfl
  | cons f fs ih => rw [buildAll, ih, List.mapM_cons]

theorem foldsAllIff {fs : List Formula} : FoldsAll fs ↔ ∀ f ∈ fs, f.Folds := by
  induction fs with
  | nil => simp [FoldsAll]
  | cons f fs ih => rw [FoldsAll, ih, List.forall_mem_cons]

omit [Reading] in
theorem straightAllIff {fs : List Formula} : StraightAll fs ↔ ∀ f ∈ fs, f.Straight := by
  induction fs with
  | nil => simp [StraightAll]
  | cons f fs ih => rw [StraightAll, ih, List.forall_mem_cons]

omit [Reading] in
theorem byParts {P : Formula → Prop} (tree : ∀ e, P (.tree e)) (neg : ∀ f, P f → P (.neg f))
    (sin : ∀ f, P f → P (.sin f)) (joint : ∀ j f g, P f → P g → P (.joint j f g))
    (cond : ∀ test yes no, P test → P yes → P no → P (.cond test yes no))
    (call : ∀ name fs, (∀ f ∈ fs, P f) → P (.call name fs)) (f : Formula) : P f :=
  @Formula.rec P (fun fs => ∀ f ∈ fs, P f) tree neg sin joint cond call (by simp)
    (fun _ _ first others => List.forall_mem_cons.mpr ⟨first, others⟩) f

theorem refines {f : Formula} (folds : f.Folds) : ∃ e, f.build = .ok e ∧ Refines f.plain e := by
  induction f using byParts with
  | tree e => exact ⟨e, rfl, fun _ _ plain => plain⟩
  | neg f ih =>
    obtain ⟨e, built, kept⟩ := ih folds
    refine ⟨negate e, by simp [build, built], fun scope v plain => ?_⟩
    obtain ⟨u, value, rfl⟩ := evalNeg.mp plain
    exact negateRefines e scope _ (evalNeg.mpr ⟨u, kept scope u value, rfl⟩)
  | sin f ih =>
    obtain ⟨e, built, kept⟩ := ih folds
    obtain ⟨s, made, follows⟩ := sinRefines e
    refine ⟨s, by simp [build, built, made], fun scope v plain => follows scope v ?_⟩
    exact callFollows "sin" (.cons kept .nil) scope v plain
  | joint j f g first second =>
    obtain ⟨left, right, computes⟩ := folds
    obtain ⟨a, builtLeft, keptLeft⟩ := first left
    obtain ⟨b, builtRight, keptRight⟩ := second right
    obtain ⟨e, built, kept⟩ := jointRefines (computes a b builtLeft builtRight)
    refine ⟨e, by simp [build, builtLeft, builtRight, built], fun scope v plain => ?_⟩
    exact kept scope v (nodeFollows j keptLeft keptRight scope v plain)
  | cond test yes no first second third =>
    obtain ⟨a, builtTest, keptTest⟩ := first folds.1
    obtain ⟨b, builtYes, keptYes⟩ := second folds.2.1
    obtain ⟨c, builtNo, keptNo⟩ := third folds.2.2
    refine ⟨a.cond b c, by simp [build, builtTest, builtYes, builtNo], fun scope v plain => ?_⟩
    have along := List.Forall₂.cons keptTest (.cons keptYes (.cons keptNo .nil))
    exact condRefines a b c scope v (callFollows "if" along scope v plain)
  | call name fs ih =>
    obtain ⟨es, built, along⟩ :=
      eachMade fun f inside => ih f inside (foldsAllIff.mp folds f inside)
    refine ⟨.call name es, by simp [build, buildAllMap, built], ?_⟩
    rw [plain, plainAllMap]
    exact callFollows name (List.forall₂_map_left_iff.mpr along)

theorem builtFolds {f : Formula} {e : Expr Rat} (built : f.build = .ok e) : f.Folds := by
  induction f using byParts generalizing e with
  | tree e => trivial
  | neg f ih =>
    obtain ⟨a, made, _⟩ := bindOk.mp built
    exact ih made
  | sin f ih =>
    obtain ⟨a, made, _⟩ := bindOk.mp built
    exact ih made
  | joint j f g first second =>
    obtain ⟨a, left, rest⟩ := bindOk.mp built
    obtain ⟨b, right, joined⟩ := bindOk.mp rest
    refine ⟨first left, second right, fun a' b' left' right' => ?_⟩
    cases left.symm.trans left'
    cases right.symm.trans right'
    exact jointBuilt joined
  | cond test yes no first second third =>
    obtain ⟨a, made, rest⟩ := bindOk.mp built
    obtain ⟨b, yesMade, rest⟩ := bindOk.mp rest
    obtain ⟨c, noMade, _⟩ := bindOk.mp rest
    exact ⟨first made, second yesMade, third noMade⟩
  | call name fs ih =>
    obtain ⟨es, made, _⟩ := bindOk.mp built
    rw [buildAllMap, eachOk] at made
    rw [Folds, foldsAllIff]
    intro f inside
    obtain ⟨e, _, part⟩ := alongSource made f inside
    exact ih f inside part

theorem straightFolds {f : Formula} {scope : Scope Rat} {v : Rat} (straight : f.Straight)
    (value : eval scope f.plain = .ok v) : f.Folds := by
  induction f using byParts generalizing v with
  | tree e => trivial
  | neg f ih =>
    obtain ⟨u, inner, _⟩ := evalNeg.mp value
    exact ih straight inner
  | sin f ih =>
    obtain ⟨u, inner, _⟩ := (evalOne (f := .sin) rfl (by decide)).mp value
    exact ih straight inner
  | joint j f g first second =>
    obtain ⟨u, w, left, right, applied⟩ := evalNode.mp value
    have leftFolds := first straight.1 left
    have rightFolds := second straight.2 right
    refine ⟨leftFolds, rightFolds, fun a b builtLeft builtRight => ?_⟩
    -- What is built of the operands has their values, and so the power of two constants has one.
    obtain ⟨_, madeLeft, keptLeft⟩ := refines leftFolds
    obtain ⟨_, madeRight, keptRight⟩ := refines rightFolds
    cases builtLeft.symm.trans madeLeft
    cases builtRight.symm.trans madeRight
    exact nodeComputes (nodeFollows j keptLeft keptRight scope v value)
  | cond test yes no => exact straight.elim
  | call name fs ih =>
    obtain ⟨_, vs, _, values, _⟩ := (evalCall straight.1).mp value
    rw [plainAllMap, evalAllOk, List.forall₂_map_left_iff] at values
    rw [Folds, foldsAllIff]
    intro f inside
    obtain ⟨u, _, inner⟩ := alongSource values f inside
    exact ih f inside (straightAllIff.mp straight.2 f inside) inner

end Formula

/-- Each builder keeps the values of its plain node. A formula of builders whose plain
form has a value is built, with that value, exactly if its powers of constants have
values; without a conditional they always do. -/
theorem buildersKeepValues (scope : Scope Rat) :
    (∀ a v, eval scope (.neg a) = .ok v → eval scope (negate a) = .ok v) ∧
    (∀ a v, eval scope (.call "sin" [a]) = .ok v →
      ∃ e, a.sin = .ok e ∧ eval scope e = .ok v) ∧
    (∀ j a b v, eval scope (Joint.node j a b) = .ok v →
      ∃ e, j.build a b = .ok e ∧ eval scope e = .ok v) ∧
    (∀ test yes no v, eval scope (.call "if" [test, yes, no]) = .ok v →
      eval scope (test.cond yes no) = .ok v) ∧
    ∀ (f : Formula) v, eval scope f.plain = .ok v →
      (f.Folds → ∃ e, f.build = .ok e ∧ eval scope e = .ok v) ∧
      (¬f.Folds → ∃ failure, f.build = .error failure) ∧
      (f.Straight → f.Folds) := by
  refine ⟨fun a v plain => negateRefines a scope v plain, fun a v plain => ?_,
    fun j a b v plain => ?_, fun test yes no v plain => condRefines test yes no scope v plain,
    fun f v plain => ⟨fun folds => ?_, fun refused => ?_, fun straight => ?_⟩⟩
  · obtain ⟨e, built, kept⟩ := sinRefines a
    exact ⟨e, built, kept scope v plain⟩
  · obtain ⟨e, built, kept⟩ := jointRefines (nodeComputes plain)
    exact ⟨e, built, kept scope v plain⟩
  · obtain ⟨e, built, kept⟩ := Formula.refines folds
    exact ⟨e, built, kept scope v plain⟩
  · cases outcome : f.build with
    | ok e => exact absurd (Formula.builtFolds outcome) refused
    | error failure => exact ⟨failure, rfl⟩
  · exact Formula.straightFolds straight plain

end

def guardedPower : Formula :=
  .cond (.call "lt" [.tree time, .tree (.const 1)]) (.tree time)
    (.joint .pow (.tree (.const 0)) (.tree (.const (-1))))

theorem guardedPowerRefused :
    letI := wholePowers
    let early : Scope Rat := fun name => if name = "t" then some (1 / 2) else none
    eval early guardedPower.plain = .ok (1 / 2) ∧ ¬guardedPower.Folds ∧
      ∃ failure, guardedPower.build = .error failure := by
  let _ := wholePowers
  intro early
  have tested : eval early (.call "lt" [time, .const 1]) = .ok 1 :=
    (evalTwo (f := .lt) rfl (by decide)).mpr ⟨1 / 2, 1, rfl, rfl, by norm_num [Builtin.apply]⟩
  have plain : eval early guardedPower.plain = .ok (1 / 2) :=
    evalIf.mpr ⟨1, tested, by rw [if_neg one_ne_zero]; rfl⟩
  have refused : ¬guardedPower.Folds := by
    intro folds
    obtain ⟨w, computed⟩ := folds.2.2.2.2 _ _ rfl rfl rfl _ _ rfl rfl
    have undefined : wholePowers.pow 0 (-1) = .error .divisionByZero := by
      norm_num [Reading.pow]
    cases undefined.symm.trans computed
  obtain ⟨_, _, _, _, formulas⟩ := buildersKeepValues early
  exact ⟨plain, refused, (formulas guardedPower _ plain).2.1 refused⟩

end OverlayMotion.Expr

import OverlayMotion.Proofs.Serialization

/-! Which failures of an evaluation are told in its own words. A formula that was read from
text holds doubles only, so it has a text or names the number that has none, and every fault
is explained by one of the two. The one failure that is not is a function called with the
wrong number of arguments, which all have values. -/
namespace OverlayMotion

namespace Builtin

def takes : Builtin → Nat → Bool
  | .abs, n | .sin, n | .cos, n | .sqrt, n | .floor, n | .ceil, n | .trunc, n => n == 1
  | .lt, n | .lte, n | .gt, n | .gte, n | .eq, n | .pow, n => n == 2
  | .between, n | .clip, n => n == 3
  | .min, n | .max, n => 2 ≤ n

variable {ν : Type} [Number ν]

theorem powerTaken (base exponent : ν) : FailsAs (· ≠ .wrongArity) (Expr.power base exponent) := by
  unfold Expr.power
  split
  · exact .ok
  · rintro _ ⟨⟩ ⟨⟩
  · rintro _ ⟨⟩ ⟨⟩

theorem applyTaken {f : Builtin} {vs : List ν} (taken : f.takes vs.length = true) :
    FailsAs (· ≠ .wrongArity) (f.apply vs) := by
  cases f <;> rcases vs with _ | ⟨a, _ | ⟨b, _ | ⟨c, _ | more⟩⟩⟩ <;> first
    | exact .ok
    | exact powerTaken _ _
    | exact .mapError fun _ => nofun
    | simp [takes] at taken

theorem applyRefused {f : Builtin} {vs : List ν} (refused : f.takes vs.length = false) :
    f.apply vs = .error .wrongArity := by
  cases f <;> rcases vs with _ | ⟨a, _ | ⟨b, _ | ⟨c, _ | more⟩⟩⟩ <;> first
    | rfl
    | simp [takes] at refused

theorem applyArity {f : Builtin} {vs : List ν} :
    f.apply vs = .error .wrongArity ↔ f.takes vs.length = false := by
  refine ⟨fun failed => ?_, applyRefused⟩
  rw [Bool.eq_false_iff]
  intro taken
  exact applyTaken taken _ failed rfl

end Builtin

namespace Expr

section
variable {ν : Type} [Number ν]

/-- An evaluation comes to a part of a tree: to an argument once those before it have values,
and to one branch of a conditional. -/
inductive Reaches (scope : Scope ν) : Expr ν → Expr ν → Prop
  | whole {e} : Reaches scope e e
  | operand {e part} : Reaches scope e part → Reaches scope (.neg e) part
  | left {op a b part} : Reaches scope a part → Reaches scope (.binary op a b) part
  | right {op a b part v} : eval scope a = .ok v → Reaches scope b part →
      Reaches scope (.binary op a b) part
  | test {test yes no part} : Reaches scope test part →
      Reaches scope (.call "if" [test, yes, no]) part
  | yes {test yes no part v} : eval scope test = .ok v → Number.isZero v = false →
      Reaches scope yes part → Reaches scope (.call "if" [test, yes, no]) part
  | no {test yes no part v} : eval scope test = .ok v → Number.isZero v = true →
      Reaches scope no part → Reaches scope (.call "if" [test, yes, no]) part
  | argument {name f before e after part} {vs : List ν} : Builtin.ofName? name = some f →
      evalAll scope before = .ok vs → Reaches scope e part →
      Reaches scope (.call name (before ++ e :: after)) part

def Miscalls (scope : Scope ν) (e : Expr ν) : Prop :=
  ∃ name f arguments values, Builtin.ofName? name = some f ∧
    evalAll scope arguments = .ok values ∧ f.takes arguments.length = false ∧
    Reaches scope e (.call name arguments)

variable {scope : Scope ν}

theorem knownUnconditional {name : String} {f : Builtin} (known : Builtin.ofName? name = some f) :
    name ≠ "if" := by
  rintro rfl
  cases known

theorem evalKnown {name : String} {f : Builtin} (known : Builtin.ofName? name = some f)
    (arguments : List (Expr ν)) :
    eval scope (.call name arguments) = evalAll scope arguments >>= f.apply := by
  unfold eval
  rw [if_neg (knownUnconditional known), known]

theorem evalAllAppend (before after : List (Expr ν)) : evalAll scope (before ++ after) =
    evalAll scope before >>= fun us => (us ++ ·) <$> evalAll scope after := by
  simp only [evalAllEach, List.mapM_append, map_eq_pure_bind]

theorem evalAllLength {es : List (Expr ν)} {vs : List ν} (values : evalAll scope es = .ok vs) :
    vs.length = es.length := by
  rw [evalAllEach, eachOk] at values
  exact values.length_eq.symm

theorem Reaches.fails {e part : Expr ν} {failure : Failure ν} (reaches : Reaches scope e part)
    (failed : eval scope part = .error failure) : eval scope e = .error failure := by
  induction reaches with
  | whole => exact failed
  | operand _ ih => rw [eval, ih failed, errorMap]
  | left _ ih => rw [eval, ih failed, errorBind]
  | right value _ ih => rw [eval, value, okBind, ih failed, errorBind]
  | test _ ih => rw [eval, if_pos rfl, ih failed, errorBind]
  | yes value nonzero _ ih =>
    rw [eval, if_pos rfl, value, okBind, nonzero, if_neg Bool.false_ne_true, ih failed]
  | no value zero _ ih => rw [eval, if_pos rfl, value, okBind, zero, if_pos rfl, ih failed]
  | argument known values _ ih =>
    rw [evalKnown known, evalAllAppend, values, okBind, evalAll, ih failed, errorBind, errorMap,
      errorBind]

theorem Miscalls.through {e inner : Expr ν} (miscalls : Miscalls scope inner)
    (passes : ∀ part, Reaches scope inner part → Reaches scope e part) : Miscalls scope e := by
  obtain ⟨name, f, arguments, values, known, evaluated, refused, reaches⟩ := miscalls
  exact ⟨name, f, arguments, values, known, evaluated, refused, passes _ reaches⟩

theorem operatorTaken (op : Operator) (a b : ν) : FailsAs (· ≠ .wrongArity) (op.apply a b) := by
  cases op with
  | pow => exact Builtin.powerTaken a b
  | _ => exact .mapError fun _ => nofun

theorem evalAllFails {es : List (Expr ν)} {failure : Failure ν}
    (failed : evalAll scope es = .error failure) : ∃ before e after values,
      es = before ++ e :: after ∧ evalAll scope before = .ok values ∧
        eval scope e = .error failure := by
  induction es with
  | nil => cases failed
  | cons e es ih =>
    rw [evalAll] at failed
    rcases bindFails.mp failed with first | ⟨v, value, rest⟩
    · exact ⟨[], e, es, [], rfl, rfl, first⟩
    rcases bindFails.mp rest with others | ⟨_, _, done⟩
    · obtain ⟨before, e', after, values, rfl, evaluated, stops⟩ := ih others
      refine ⟨e :: before, e', after, v :: values, rfl, ?_, stops⟩
      rw [evalAll, value, okBind, evaluated]
      rfl
    · cases done

theorem conditionalMiscalled {es : List (Expr ν)}
    (each : ∀ e ∈ es, eval scope e = .error .wrongArity → Miscalls scope e)
    (failed : eval scope (.call "if" es) = .error .wrongArity) :
    Miscalls scope (.call "if" es) := by
  unfold eval at failed
  rw [if_pos rfl] at failed
  split at failed
  · rename_i test yes no
    obtain ⟨forTest, forYes, forNo, _⟩ := by simpa only [List.forall_mem_cons] using each
    rcases bindFails.mp failed with tested | ⟨v, value, branch⟩
    · exact (forTest tested).through fun _ => .test
    split at branch
    · rename_i zero
      exact (forNo branch).through fun _ => .no value zero
    · rename_i nonzero
      exact (forYes branch).through fun _ => .yes value (Bool.eq_false_iff.mpr nonzero)
  · cases failed

theorem knownMiscalled {name : String} {f : Builtin} {es : List (Expr ν)}
    (known : Builtin.ofName? name = some f)
    (each : ∀ e ∈ es, eval scope e = .error .wrongArity → Miscalls scope e)
    (failed : eval scope (.call name es) = .error .wrongArity) :
    Miscalls scope (.call name es) := by
  rw [evalKnown known] at failed
  rcases bindFails.mp failed with stops | ⟨values, evaluated, refused⟩
  · obtain ⟨before, e, after, values, rfl, evaluated, failed⟩ := evalAllFails stops
    have among : e ∈ before ++ e :: after := List.mem_append_right _ List.mem_cons_self
    exact (each e among failed).through fun _ => .argument known evaluated
  · rw [Builtin.applyArity, evalAllLength evaluated] at refused
    exact ⟨name, f, es, values, known, evaluated, refused, .whole⟩

mutual

theorem miscalled : ∀ {e : Expr ν}, eval scope e = .error .wrongArity → Miscalls scope e
  | .const _, failed => by
    rw [eval] at failed
    cases failed
  | .var name, failed => by
    rw [eval] at failed
    split at failed <;> cases failed
  | .neg e, failed => by
    cases operand : eval scope e with
    | ok v =>
      rw [eval, operand] at failed
      cases failed
    | error failure =>
      rw [eval, operand] at failed
      cases failed
      exact (miscalled operand).through fun _ => .operand
  | .binary op a b, failed => by
    rw [eval] at failed
    rcases bindFails.mp failed with left | ⟨u, value, rest⟩
    · exact (miscalled left).through fun _ => .left
    rcases bindFails.mp rest with right | ⟨v, _, computed⟩
    · exact (miscalled right).through fun _ => .right value
    · -- An operator takes two operands, so it has no such complaint of its own.
      exact absurd rfl (operatorTaken op u v _ computed)
  | .call name es, failed => by
    by_cases conditional : name = "if"
    · subst conditional
      exact conditionalMiscalled (eachMiscalled es) failed
    cases known : Builtin.ofName? name with
    | none =>
      unfold eval at failed
      rw [if_neg conditional, known] at failed
      cases failed
    | some f => exact knownMiscalled known (eachMiscalled es) failed

theorem eachMiscalled : ∀ es : List (Expr ν), ∀ e ∈ es,
    eval scope e = .error .wrongArity → Miscalls scope e
  | [] => by simp
  | e :: es => List.forall_mem_cons.mpr ⟨miscalled, eachMiscalled es⟩

end

theorem miscallsFail {e : Expr ν} : eval scope e = .error .wrongArity ↔ Miscalls scope e := by
  refine ⟨miscalled, ?_⟩
  rintro ⟨name, f, arguments, values, known, evaluated, refused, reaches⟩
  refine reaches.fails ?_
  rw [evalKnown known, evaluated, okBind]
  exact Builtin.applyRefused (by rwa [evalAllLength evaluated])

def Error.Explained : Error ν → Prop
  | .wrongArity | .fault _ => False
  | _ => True

def Measured (v : ν) : Prop := ∃ value, Number.finite? v = .ok value

def NamesNumber (u : Unprintable ν) : Prop := ∃ v, u = .notFinite v

theorem numeralNames {v : ν} (measured : Measured v) : FailsAs NamesNumber (numeralText v) := by
  obtain ⟨value, known⟩ := measured
  rw [numeralText, known]
  cases value with
  | some q => exact .ok
  | none =>
    rintro _ ⟨⟩
    exact ⟨v, rfl⟩

mutual

theorem printNames (rename : String → String) : ∀ (e : Expr ν) (whole : Bool), Every Measured e →
    FailsAs NamesNumber (print rename whole e)
  | .const _, _, measured => (numeralNames measured).bind fun _ => .ok
  | .var _, _, _ => .ok
  | .neg e, _, measured => (printNames rename e false measured).bind fun _ => .ok
  | .binary _ a b, _, measured => (printNames rename a false measured.1).bind fun _ =>
      (printNames rename b false measured.2).bind fun _ => .ok
  | .call _ es, _, measured => (printAllNames rename es measured).bind fun _ => .ok

theorem printAllNames (rename : String → String) : ∀ es : List (Expr ν), EveryAll Measured es →
    FailsAs NamesNumber (printAll rename es)
  | [], _ => .ok
  | e :: es, measured => (printNames rename e true measured.1).bind fun _ =>
      (printAllNames rename es measured.2).bind fun _ => .ok

end

theorem rendersOrNames {e : Expr ν} (measured : Every Measured e) :
    (∃ text, render e = .ok text) ∨ ∃ v, render e = .error (.notFinite v) := by
  cases rendered : render e with
  | ok text => exact .inl ⟨text, rfl⟩
  | error u =>
    obtain ⟨v, rfl⟩ := (printNames id e true measured).map u rendered
    exact .inr ⟨v, rfl⟩

theorem explained {e : Expr ν} (measured : Every Measured e) {failure : Failure ν}
    (known : failure ≠ .wrongArity) : (failure.explain e).Explained := by
  -- A tree has a text to explain a fault with, or the error names the number that has none.
  have shown := rendersOrNames measured
  cases failure with
  | fault f =>
    rcases shown with ⟨text, rendered⟩ | ⟨v, rendered⟩ <;>
      cases f <;> simp only [Failure.explain, rendered] <;> trivial
  | conditionalArity given =>
    rcases shown with ⟨text, rendered⟩ | ⟨v, rendered⟩ <;>
      simp only [Failure.explain, rendered] <;> trivial
  | wrongArity => exact absurd rfl known
  | _ => trivial

theorem mapExplained {α : Type} {e : Expr ν} (measured : Every Measured e)
    (value : Except (Failure ν) α) :
    (value.mapError (Failure.explain e) = .error .wrongArity ↔ value = .error .wrongArity) ∧
      FailsAs (fun error => error.Explained ∨ error = .wrongArity)
        (value.mapError (Failure.explain e)) := by
  cases value with
  | ok a => exact ⟨⟨nofun, nofun⟩, .ok⟩
  | error failure =>
    by_cases arity : failure = .wrongArity
    · subst arity
      refine ⟨⟨fun _ => rfl, fun _ => rfl⟩, ?_⟩
      rintro _ ⟨⟩
      exact .inr rfl
    · have explains := explained measured arity
      refine ⟨⟨fun failed => ?_, fun failed => ?_⟩, ?_⟩
      · rw [Except.error.inj failed] at explains
        exact explains.elim
      · exact absurd (Except.error.inj failed) arity
      · rintro _ ⟨⟩
        exact .inl explains

end

theorem parsedMeasured {source : String} {e : Expr Scalar} (parsed : parse source = .ok e) :
    Every Measured e := by
  have doubles : Tame (fun v : Scalar => ∃ x, v = .float x) e := by
    refine parsedTame ?_ parsed fun _ _ => ⟨_, rfl⟩
    rintro _ ⟨x, rfl⟩
    exact ⟨-x, rfl⟩
  refine doubles.constants.weaken ?_ e
  rintro _ ⟨x, rfl⟩
  exact ⟨_, rfl⟩

theorem evaluateMiscalls (bindings : List (String × Scalar)) {e : Expr Scalar}
    (measured : Every Measured e) : evaluate bindings e = .error .wrongArity ↔
      Miscalls (Scope.constants.extend bindings) e := by
  rw [← miscallsFail, evaluate, (mapExplained measured _).1, bindFails]
  have converted (v : Scalar) : FailsAs (· ≠ .wrongArity)
      (v.toFloat.mapError .fault : Except (Failure Scalar) Float) := .mapError fun _ => nofun
  refine ⟨fun failed => ?_, .inl⟩
  rcases failed with computed | ⟨v, _, conversion⟩
  · exact computed
  · exact absurd rfl (converted v _ conversion)

/-- Every text, in every scope, has a value, or an error that explains itself, unless its
evaluation comes to a call with the wrong number of arguments; then it has neither. -/
theorem textExplained (source : String) (bindings : List (String × Scalar)) :
    let outcome := read source >>= evaluate bindings
    (outcome = .error .wrongArity ↔
        ∃ e, read source = .ok e ∧ Miscalls (Scope.constants.extend bindings) e) ∧
      ((∃ x, outcome = .ok x) ∨ (∃ error, outcome = .error error ∧ error.Explained) ∨
        outcome = .error .wrongArity) := by
  intro outcome
  unfold outcome read
  cases parsed : (parse source : Except Malformed (Expr Scalar)) with
  | error reason =>
    exact ⟨⟨nofun, nofun⟩, .inr (.inl ⟨_, rfl, trivial⟩)⟩
  | ok e =>
    have measured := parsedMeasured parsed
    refine ⟨(evaluateMiscalls bindings measured).trans ⟨fun miscalls => ⟨e, rfl, miscalls⟩, ?_⟩, ?_⟩
    · rintro ⟨_, ⟨⟩, miscalls⟩
      exact miscalls
    · change (∃ x, evaluate bindings e = .ok x) ∨ _
      cases evaluated : evaluate bindings e with
      | ok x => exact .inl ⟨x, rfl⟩
      | error error =>
        rcases (mapExplained measured _).2 error evaluated with explains | arity
        · exact .inr (.inl ⟨error, evaluated, explains⟩)
        · exact .inr (.inr (evaluated.trans (congrArg _ arity)))

example : Miscalls Scope.constants (.call "min" [.const (.int 1)] : Expr Scalar) :=
  ⟨"min", .min, _, _, rfl, rfl, rfl, .whole⟩

end Expr
end OverlayMotion

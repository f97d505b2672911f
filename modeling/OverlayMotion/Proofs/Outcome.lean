import Mathlib.Data.List.Forall2
import OverlayMotion.Journal

/-! How computations that can fail are taken apart: what it means that a sequence of
steps had a result. -/
namespace OverlayMotion

section
variable {ε α β : Type}

@[simp] theorem okBind (a : α) (f : α → Except ε β) : (Except.ok a >>= f) = f a := rfl

@[simp] theorem errorBind (e : ε) (f : α → Except ε β) :
    ((Except.error e : Except ε α) >>= f) = .error e := rfl

@[simp] theorem pureIsOk (a : α) : (pure a : Except ε α) = .ok a := rfl

@[simp] theorem okMap (f : α → β) (a : α) : (f <$> (.ok a : Except ε α)) = .ok (f a) := rfl

@[simp] theorem errorMap (f : α → β) (e : ε) : (f <$> (.error e : Except ε α)) = .error e := rfl

theorem bindOk {x : Except ε α} {f : α → Except ε β} {b : β} :
    (x >>= f) = .ok b ↔ ∃ a, x = .ok a ∧ f a = .ok b := by
  cases x with
  | error e => simp
  | ok a => simp

theorem bindFails {x : Except ε α} {f : α → Except ε β} {e : ε} :
    (x >>= f) = .error e ↔ x = .error e ∨ ∃ a, x = .ok a ∧ f a = .error e := by
  cases x with
  | error e' => simp
  | ok a => simp

theorem bindCongr {x : Except ε α} {f g : α → Except ε β} (same : ∀ a, x = .ok a → f a = g a) :
    x >>= f = x >>= g := by
  cases x with
  | error e => rfl
  | ok a => exact same a rfl

theorem mapOk {x : Except ε α} {f : α → β} {b : β} :
    (f <$> x) = .ok b ↔ ∃ a, x = .ok a ∧ f a = b := by
  cases x with
  | error e => simp
  | ok a => simp

theorem mapFails {x : Except ε α} {f : α → β} {e : ε} : (f <$> x) = .error e ↔ x = .error e := by
  cases x <;> simp

@[simp] theorem mapErrorOk {δ : Type} {x : Except ε α} {f : ε → δ} {a : α} :
    x.mapError f = .ok a ↔ x = .ok a := by
  cases x with
  | error e => constructor <;> intro same <;> cases same
  | ok b => constructor <;> intro same <;> cases same <;> rfl

theorem succeeded {x : Except ε α} (ok : x.isOk = true) : ∃ a, x = .ok a := by
  cases x with
  | error e => cases ok
  | ok a => exact ⟨a, rfl⟩

theorem toOptionOk {x : Except ε α} {a : α} : x.toOption = some a ↔ x = .ok a := by
  cases x <;> simp [Except.toOption]

@[simp] theorem Expr.ofFaultOk {ν : Type} (a : α) :
    (Expr.ofFault (.ok a) : Except (Expr.Failure ν) α) = .ok a := rfl

theorem optionMapOk {f : α → Except ε β} {P : α → β → Prop} {o : Option α}
    (each : ∀ a ∈ o, ∃ b, f a = .ok b ∧ P a b) : ∃ b?, o.mapM f = .ok b? ∧ Option.Rel P o b? := by
  cases o with
  | none => exact ⟨none, rfl, .none⟩
  | some a =>
    obtain ⟨b, result, related⟩ := each a rfl
    exact ⟨some b, by rw [Option.mapM_some, result]; rfl, .some related⟩

instance decidableOfOk {x : Except ε α} {P : α → Prop} [DecidablePred P] :
    Decidable (∀ a, x = .ok a → P a) :=
  match x with
  | .ok a => decidable_of_iff (P a)
    ⟨fun holds _ same => Except.ok.inj same ▸ holds, fun holds => holds a rfl⟩
  | .error _ => isTrue fun _ same => by cases same

theorem eachOk {f : α → Except ε β} {xs : List α} {ys : List β} :
    xs.mapM f = .ok ys ↔ List.Forall₂ (fun x y => f x = .ok y) xs ys := by
  induction xs generalizing ys with
  | nil =>
    rw [List.mapM_nil, List.forall₂_nil_left_iff]
    exact ⟨fun same => (Except.ok.inj same).symm, fun same => same ▸ rfl⟩
  | cons x xs ih =>
    simp only [List.mapM_cons, bindOk, ih, pureIsOk]
    constructor
    · rintro ⟨y, first, rest, others, last⟩
      cases last
      exact .cons first others
    · rintro ⟨⟩
      rename_i y ys first others
      exact ⟨y, first, ys, others, rfl⟩

theorem eachMade {f : α → Except ε β} {P : α → β → Prop} {xs : List α}
    (each : ∀ a ∈ xs, ∃ b, f a = .ok b ∧ P a b) :
    ∃ ys, xs.mapM f = .ok ys ∧ List.Forall₂ P xs ys := by
  induction xs with
  | nil => exact ⟨[], rfl, .nil⟩
  | cons x xs ih =>
    obtain ⟨first, others⟩ := List.forall_mem_cons.mp each
    obtain ⟨y, result, related⟩ := first
    obtain ⟨ys, results, along⟩ := ih others
    refine ⟨y :: ys, ?_, .cons related along⟩
    rw [List.mapM_cons, result, okBind, results, okBind, pureIsOk]

theorem alongMember {P : β → Prop} {xs : List α} {ys : List β}
    (along : List.Forall₂ (fun _ b => P b) xs ys) : ∀ b ∈ ys, P b := by
  induction along with
  | nil => simp
  | cons holds _ ih => exact List.forall_mem_cons.mpr ⟨holds, ih⟩

theorem alongSource {R : α → β → Prop} {xs : List α} {ys : List β}
    (along : List.Forall₂ R xs ys) : ∀ a ∈ xs, ∃ b ∈ ys, R a b := by
  induction along with
  | nil => simp
  | cons holds _ ih =>
    rename_i b _ _ _
    refine List.forall_mem_cons.mpr ⟨⟨b, List.mem_cons_self, holds⟩, fun a inside => ?_⟩
    obtain ⟨b, member, related⟩ := ih a inside
    exact ⟨b, List.mem_cons_of_mem _ member, related⟩

theorem alongMap {γ : Type} {f : α → γ} {g : β → γ} {xs : List α} {ys : List β}
    (along : List.Forall₂ (fun x y => g y = f x) xs ys) : ys.map g = xs.map f := by
  induction along with
  | nil => rfl
  | cons same _ ih => rw [List.map_cons, List.map_cons, same, ih]

theorem flatMapAlong {γ : Type} {f : α → List γ} {g : β → List γ} {xs : List α} {ys : List β}
    (along : List.Forall₂ (fun x y => g y = f x) xs ys) : ys.flatMap g = xs.flatMap f := by
  induction along with
  | nil => rfl
  | cons same _ ih => rw [List.flatMap_cons, List.flatMap_cons, same, ih]

theorem eachAlong {γ : Type} {f : α → Except ε γ} {g : β → Except ε γ} {xs : List α} {ys : List β}
    (along : List.Forall₂ (fun x y => g y = f x) xs ys) : ys.mapM g = xs.mapM f := by
  induction along with
  | nil => rfl
  | cons same _ ih => rw [List.mapM_cons, List.mapM_cons, same, ih]

theorem optionOk {f : α → Except ε β} {o : Option α} {made : Option β} :
    o.mapM f = .ok made ↔ Option.Rel (fun a b => f a = .ok b) o made := by
  cases o with
  | none =>
    constructor
    · intro same
      cases same
      exact .none
    · rintro ⟨⟩
      rfl
  | some a =>
    rw [Option.mapM_some, mapOk]
    constructor
    · rintro ⟨b, result, rfl⟩
      exact .some result
    · rintro ⟨⟩
      rename_i b result
      exact ⟨b, result, rfl⟩

theorem relMember {P : β → Prop} {o : Option α} {made : Option β}
    (related : Option.Rel (fun _ b => P b) o made) : ∀ b ∈ made, P b := by
  cases related with
  | none => simp
  | some holds =>
    rintro _ ⟨⟩
    exact holds

theorem relShown {R : α → β → Prop} {o : Option α} {o' : Option β} (related : Option.Rel R o o') :
    o.isSome = o'.isSome := by
  cases related <;> rfl

theorem relValue {R : α → β → Prop} {a : α} {o' : Option β} (related : Option.Rel R (some a) o') :
    ∃ b, o' = some b ∧ R a b := by
  cases related with
  | some holds => exact ⟨_, rfl, holds⟩

theorem optionAlong {γ : Type} {f : α → Except ε β} {g : β → List γ} {h : α → List γ}
    {o : Option α} {made : Option β} (each : ∀ {a b}, f a = .ok b → g b = h a)
    (done : o.mapM f = .ok made) : made.toList.flatMap g = o.toList.flatMap h := by
  rw [optionOk] at done
  cases done with
  | none => rfl
  | some result =>
    simp only [Option.toList_some, List.flatMap_singleton]
    exact each result

end

namespace Logged
variable {ν ε α β : Type}

theorem bindOk {x : Logged ν ε α} {f : α → Logged ν ε β} {b : β} :
    (x >>= f).outcome = .ok b ↔ ∃ a, x.outcome = .ok a ∧ (f a).outcome = .ok b := by
  obtain ⟨notices, outcome⟩ := x
  cases outcome with
  | error e => simp [bind]
  | ok a => simp [bind]

@[simp] theorem pureOutcome (a : α) : (pure a : Logged ν ε α).outcome = .ok a := rfl

@[simp] theorem liftOutcome (x : Except ε α) : (liftM x : Logged ν ε α).outcome = x := rfl

@[simp] theorem mapErrorOutcome {δ : Type} (f : ε → δ) (x : Logged ν ε α) :
    (x.mapError f).outcome = x.outcome.mapError f := rfl

@[simp] theorem ofExceptOutcome (x : Except ε α) : (ofExcept x : Logged ν ε α).outcome = x := rfl

@[simp] theorem noteOutcome (n : Notice ν) : (note n : Logged ν ε Unit).outcome = .ok () := rfl

theorem bindOutcome (x : Logged ν ε α) (f : α → Logged ν ε β) :
    (x >>= f).outcome = x.outcome >>= fun a => (f a).outcome := by
  obtain ⟨notices, outcome⟩ := x
  cases outcome <;> rfl

theorem mapOutcome (x : Logged ν ε α) (f : α → β) : (f <$> x).outcome = f <$> x.outcome :=
  bindOutcome x (pure ∘ f)

theorem optionOutcome (f : α → Logged ν ε β) (o : Option α) :
    (o.mapM f).outcome = o.mapM fun a => (f a).outcome := by
  cases o with
  | none => rfl
  | some a => rw [Option.mapM_some, Option.mapM_some, mapOutcome]

instance : LawfulMonad (Logged ν ε) := by
  refine LawfulMonad.mk' _ ?_ (fun _ _ => rfl) ?_
  · rintro α ⟨notices, _ | a⟩ <;> simp [Functor.map]
  · rintro α β γ ⟨notices, _ | a⟩ f g
    · rfl
    · simp only [bind]
      split <;> simp_all

theorem eachOutcome (f : α → Logged ν ε β) (xs : List α) :
    (xs.mapM f).outcome = xs.mapM fun x => (f x).outcome := by
  induction xs with
  | nil => rfl
  | cons x xs ih => simp only [List.mapM_cons, bindOutcome, ih, pureOutcome, pureIsOk]

theorem foldTotal {f : β → α → Logged ν ε β} {xs : List α}
    (each : ∀ a ∈ xs, ∀ b, ∃ next, (f b a).outcome = .ok next) (b : β) :
    ∃ last, (xs.foldlM f b).outcome = .ok last := by
  induction xs generalizing b with
  | nil => exact ⟨b, rfl⟩
  | cons x xs ih =>
    obtain ⟨first, others⟩ := List.forall_mem_cons.mp each
    obtain ⟨next, made⟩ := first b
    obtain ⟨last, folded⟩ := ih others next
    refine ⟨last, ?_⟩
    rw [List.foldlM_cons]
    exact bindOk.mpr ⟨next, made, folded⟩

end Logged

def FailsAs {ε α : Type} (Q : ε → Prop) (x : Except ε α) : Prop := ∀ e, x = .error e → Q e

namespace FailsAs
variable {ε δ α β : Type} {Q : ε → Prop}

theorem ok {a : α} : FailsAs Q (.ok a) := by
  intro e failed
  contradiction

theorem bind {x : Except ε α} {f : α → Except ε β} (first : FailsAs Q x)
    (next : ∀ a, FailsAs Q (f a)) : FailsAs Q (x >>= f) := by
  cases x with
  | error e =>
    intro e' failed
    cases failed
    exact first e rfl
  | ok a => exact next a

theorem map {x : Except ε α} {f : α → β} (h : FailsAs Q x) : FailsAs Q (f <$> x) := by
  cases x with
  | error e =>
    intro e' failed
    cases failed
    exact h e rfl
  | ok a => exact ok

theorem mapError {x : Except δ α} {f : δ → ε} (kind : ∀ e, Q (f e)) :
    FailsAs Q (x.mapError f) := by
  cases x with
  | error e =>
    intro e' failed
    cases failed
    exact kind e
  | ok a => exact ok

theorem option {f : α → Except ε β} {o : Option α} (h : ∀ a, FailsAs Q (f a)) :
    FailsAs Q (o.mapM f) := by
  cases o with
  | none => exact ok
  | some a =>
    rw [Option.mapM_some]
    exact (h a).map

theorem each {f : α → Except ε β} {xs : List α} (h : ∀ a ∈ xs, FailsAs Q (f a)) :
    FailsAs Q (xs.mapM f) := by
  induction xs with
  | nil => exact ok
  | cons x xs ih =>
    obtain ⟨first, others⟩ := List.forall_mem_cons.mp h
    rw [List.mapM_cons]
    exact first.bind fun _ => (ih others).bind fun _ => ok

theorem fold {ν : Type} {f : β → α → Logged ν ε β} {xs : List α}
    (h : ∀ a ∈ xs, ∀ b, FailsAs Q (f b a).outcome) (b : β) :
    FailsAs Q (xs.foldlM f b).outcome := by
  induction xs generalizing b with
  | nil => exact ok
  | cons x xs ih =>
    obtain ⟨first, others⟩ := List.forall_mem_cons.mp h
    rw [List.foldlM_cons, Logged.bindOutcome]
    exact (first b).bind fun next => ih others next

end FailsAs

def Returns {ε α : Type} (P : α → Prop) (x : Except ε α) : Prop := ∀ a, x = .ok a → P a

namespace Returns
variable {ε δ α β : Type} {P : α → Prop} {Q : β → Prop}

theorem ok {a : α} (holds : P a) : Returns P (.ok a : Except ε α) := by
  intro b same
  cases same
  exact holds

theorem bind {x : Except ε α} {f : α → Except ε β} (first : Returns P x)
    (next : ∀ a, P a → Returns Q (f a)) : Returns Q (x >>= f) := by
  cases x with
  | error e =>
    intro b same
    cases same
  | ok a => exact next a (first a rfl)

theorem after {x : Except ε α} {f : α → Except ε β} (next : ∀ a, Returns Q (f a)) :
    Returns Q (x >>= f) := by
  cases x with
  | error e =>
    intro b same
    cases same
  | ok a => exact next a

theorem map {x : Except ε α} {f : α → β} (holds : ∀ a, Q (f a)) : Returns Q (f <$> x) := by
  cases x with
  | error e =>
    intro b same
    cases same
  | ok a => exact ok (holds a)

theorem mapError {x : Except δ α} {f : δ → ε} (h : Returns P x) :
    Returns P (x.mapError f) := fun a same => h a (mapErrorOk.mp same)

theorem option {f : α → Except ε β} {o : Option α} (each : ∀ a ∈ o, Returns Q (f a)) :
    Returns (fun made : Option β => ∀ b ∈ made, Q b) (o.mapM f) := by
  intro made same
  rw [optionOk] at same
  cases same with
  | none => simp
  | some result =>
    rintro _ ⟨⟩
    exact each _ rfl _ result

theorem each {f : α → Except ε β} {xs : List α} (each : ∀ a ∈ xs, Returns Q (f a)) :
    Returns (fun ys => ∀ b ∈ ys, Q b) (xs.mapM f) := by
  induction xs with
  | nil => exact ok (by simp)
  | cons x xs ih =>
    obtain ⟨first, others⟩ := List.forall_mem_cons.mp each
    rw [List.mapM_cons]
    exact bind first fun b holds => bind (ih others) fun bs rest =>
      ok (List.forall_mem_cons.mpr ⟨holds, rest⟩)

end Returns

def Agree {ε δ α β : Type} (R : α → β → Prop) : Except ε α → Except δ β → Prop
  | .ok a, .ok b => R a b
  | .error _, .error _ => True
  | _, _ => False

section
variable {ε δ α β γ κ : Type} {R : α → β → Prop} {S : γ → κ → Prop}

theorem Agree.bind {x : Except ε α} {y : Except δ β} {f : α → Except ε γ} {g : β → Except δ κ}
    (h : Agree R x y) (next : ∀ {a b}, R a b → Agree S (f a) (g b)) :
    Agree S (x >>= f) (y >>= g) := by
  cases x <;> cases y <;> try contradiction
  · trivial
  · exact next h

theorem Agree.map {x : Except ε α} {y : Except δ β} {f : α → γ} {g : β → κ}
    (h : Agree R x y) (next : ∀ {a b}, R a b → S (f a) (g b)) : Agree S (f <$> x) (g <$> y) := by
  cases x <;> cases y <;> try contradiction
  · trivial
  · exact next h

theorem Agree.mapError {ζ η : Type} {x : Except ε α} {y : Except δ β} (h : Agree R x y)
    (f : ε → ζ) (g : δ → η) : Agree R (x.mapError f) (y.mapError g) := by
  cases x <;> cases y <;> try contradiction
  · trivial
  · exact h

theorem Agree.refl {T : α → α → Prop} (self : ∀ a, T a a) (x : Except ε α) : Agree T x x := by
  cases x with
  | error e => trivial
  | ok a => exact self a

end

end OverlayMotion

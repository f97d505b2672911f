import OverlayMotion.Proofs.Alongside
import OverlayMotion.Proofs.Window

/-! No frame in which a compiled tree has no value. Phases divide by lengths that are
positive wherever a phase shows, easings take whole powers only, and a tree names nothing
but the time and the dimensions that its own symbols bind. So much holds of single trees, and
builders keep it; an overlay without formula text among its coordinates has no other trees. -/
namespace OverlayMotion

section
variable [Reading]

def PowersTotal : Prop := ∀ (x : Rat) (n : Nat), ∃ v, Reading.pow x n = .ok v

namespace Expr

def Definite (scope : Scope Rat) (e : Expr Rat) : Prop := ∃ v, eval scope e = .ok v

section
variable {scope : Scope Rat} {a b : Expr Rat}

theorem Definite.const (c : Rat) : Definite scope (.const c) := ⟨c, rfl⟩

theorem Definite.neg (h : Definite scope a) : Definite scope (.neg a) := by
  obtain ⟨v, value⟩ := h
  exact ⟨-v, evalNeg.mpr ⟨v, value, rfl⟩⟩

theorem Definite.pow (total : PowersTotal) (a : Expr Rat) (n : Nat) :
    ∃ e, a.pow (ofInt n) = .ok e ∧ ∀ scope, Definite scope a → Definite scope e := by
  obtain ⟨e, built, refines⟩ := powRefines a (ofInt n) fun x y _ same => by
    cases same
    exact_mod_cast total x n
  refine ⟨e, built, fun scope h => ?_⟩
  obtain ⟨u, value⟩ := h
  obtain ⟨v, raised⟩ : ∃ v, Reading.pow u ((n : Int) : Rat) = .ok v := by
    exact_mod_cast total u n
  have node : eval scope (.call "pow" [a, ofInt n]) = .ok v := by
    refine (evalTwo (f := .pow) rfl (by decide)).mpr ⟨u, (n : Int), value, rfl, ?_⟩
    simp only [Builtin.apply, power, exactPow, raised]
  exact ⟨v, refines scope v node⟩

theorem Definite.sin (a : Expr Rat) :
    ∃ e, a.sin = .ok e ∧ ∀ scope, Definite scope a → Definite scope e := by
  obtain ⟨e, built, refines⟩ := sinRefines a
  refine ⟨e, built, fun scope h => ?_⟩
  obtain ⟨u, value⟩ := h
  have node : eval scope (.call "sin" [a]) = .ok (Reading.sin u) :=
    (evalOne (f := .sin) rfl (by decide)).mpr ⟨u, value, rfl⟩
  exact ⟨_, refines scope _ node⟩

theorem Definite.clamp (h : Definite scope a) : Definite scope (a.clamp (ofInt 0) (ofInt 1)) := by
  obtain ⟨v, value⟩ := h
  exact ⟨_, clampValue value (evalOfInt scope 0) (evalOfInt scope 1)⟩

theorem Definite.made {op : Rat → Rat → Rat} {make : Expr Rat → Expr Rat → Except Fault (Expr Rat)}
    (makes : ∀ a b, ∃ e, make a b = .ok e ∧ ∀ scope u v, eval scope a = .ok u →
      eval scope b = .ok v → eval scope e = .ok (op u v))
    (ha : Definite scope a) (hb : Definite scope b) (a' b' : Expr Rat) :
    Both (fun e _ => Definite scope e) (make a b) (make a' b') := by
  obtain ⟨u, hu⟩ := ha
  obtain ⟨v, hv⟩ := hb
  obtain ⟨e, built, value⟩ := makes a b
  obtain ⟨e', built', _⟩ := makes a' b'
  exact ⟨e, e', built, built', _, value scope u v hu hv⟩

theorem Definite.choice {now : Rat} (timed : eval scope time = .ok now) (ha : Definite scope a)
    (hb : Definite scope b) (c : Rat) : Definite scope ((time.lt (.const c)).cond a b) := by
  obtain ⟨u, hu⟩ := ha
  obtain ⟨v, hv⟩ := hb
  refine ⟨if now < c then u else v, condBelowValue timed (v := c) rfl ?_⟩
  split_ifs
  · exact hu
  · exact hv

end

theorem definiteKept (total : PowersTotal) {s : Symbols} {scope : Scope Rat} {now : Rat}
    (timed : scope "t" = some now)
    (bound : ∀ name ∈ s.dimensions, ∃ v, eval scope (.var name) = .ok v) :
    Kept s 0 fun e _ => Definite scope e := by
  have clock := evalTime timed
  constructor
  case const => exact .const
  case dimension => exact bound _
  case neg => exact .neg
  case clamp => exact .clamp
  case choice => exact fun c ha hb => ha.choice clock hb c
  case elapsed =>
    exact fun c => Definite.made differenceValue ⟨_, clock⟩ (.const c) time (.const (c + 0))
  case add => exact fun ha hb => Definite.made sumValue ha hb _ _
  case sub => exact fun ha hb => Definite.made differenceValue ha hb _ _
  case mul => exact fun ha hb => Definite.made productValue ha hb _ _
  -- A quotient has a value only off zero, so it is not among the above.
  case div =>
    intro a a' c ha divisor
    obtain ⟨u, hu⟩ := ha
    obtain ⟨e, built, value⟩ := quotientValue a (.const c)
    obtain ⟨e', built', _⟩ := quotientValue a' (.const c)
    exact ⟨e, e', built, built', _, value scope u c hu rfl divisor⟩
  case pow =>
    intro a a' n h
    obtain ⟨e, built, keeps⟩ := Definite.pow total a n
    obtain ⟨e', built', _⟩ := Definite.pow total a' n
    exact ⟨e, e', built, built', keeps scope h⟩
  case sin =>
    intro a a' h
    obtain ⟨e, built, keeps⟩ := Definite.sin a
    obtain ⟨e', built', _⟩ := Definite.sin a'
    exact ⟨e, e', built, built', keeps scope h⟩
  case window => exact fun low high => ⟨_, betweenValue timed low high⟩

end Expr

end

def Compiled.all {ν : Type} (c : Compiled ν) : List (Expr ν) :=
  [c.motion.enable, c.motion.x, c.motion.y, c.height] ++ c.motion.alpha.toList ++ c.size.toList

theorem Compiled.Along.each {P : Expr Rat → Prop} {c c' : Compiled Rat}
    (along : c.Along (fun e _ => P e) c') : ∀ e ∈ c.all, P e := by
  have optional {o o' : Option (Expr Rat)} (related : Option.Rel (fun e _ => P e) o o') :
      ∀ e ∈ o.toList, P e := by
    cases related with
    | none => simp
    | some holds => simpa using holds
  simp only [Compiled.all, List.mem_append, List.mem_cons, List.not_mem_nil, or_false]
  rintro e (((rfl | rfl | rfl | rfl) | faded) | sized)
  · exact along.enable
  · exact along.x
  · exact along.y
  · exact along.height
  · exact optional along.alpha e faded
  · exact optional along.size e sized

section
variable [Reading]

/-- Whatever construction accepts compiles, and every tree has a value in every frame: for
any canvas, any size of the object and any time, also outside of the window, in the names
that the symbols of its own kind bind and the time. -/
theorem Overlay.treesEvaluate (total : PowersTotal) {o : Overlay Rat} (made : o.Constructed)
    (plain : o.placement.formulas = []) :
    ∃ c, o.compiled = .ok c ∧ ∀ (f : Frame) (outer : Expr.Scope Rat), ∀ tree ∈ c.all,
      ∃ v, Expr.eval (f.scope o.isCaption outer) tree = .ok v := by
  have compiled (f : Frame) (outer : Expr.Scope Rat) : ∃ c, o.compiled = .ok c ∧
      ∀ tree ∈ c.all, tree.Definite (f.scope o.isCaption outer) := by
    obtain ⟨_, width, height, across, down⟩ := f.sees o.isCaption outer
    have timed : f.scope o.isCaption outer "t" = some f.time := by cases o <;> rfl
    have kept := Expr.definiteKept total (s := symbolsFor o.isCaption) timed fun name inside => by
      simp only [Symbols.dimensions, List.mem_cons, List.not_mem_nil, or_false] at inside
      obtain rfl | rfl | rfl | rfl := inside
      · exact ⟨_, width⟩
      · exact ⟨_, height⟩
      · exact ⟨_, across⟩
      · exact ⟨_, down⟩
    obtain ⟨c, _, built, _, along⟩ := kept.compiled made.animation (by simp [plain])
    exact ⟨c, built, along.each⟩
  obtain ⟨c, built, _⟩ := compiled ⟨(0, 0), (0, 0), 0⟩ fun _ => none
  refine ⟨c, built, fun f outer => ?_⟩
  obtain ⟨c', built', values⟩ := compiled f outer
  cases built.symm.trans built'
  exact values

omit [Reading] in
theorem PowersExact.total [Reading] (exact : PowersExact) : PowersTotal :=
  fun x n => ⟨x ^ n, exact x n⟩

end

def bouncingCaption : Overlay Rat :=
  .caption ⟨"Hello", ⟨0, 5, some (.number 40), none,
    some ⟨some ⟨.zoom, 1, none, 1 / 5, 1, some (6 / 5)⟩, 1,
      some ⟨.slideLeft, 2, some .easeInOut, 1 / 5, 1, none⟩⟩⟩,
    60, none, "white", some ⟨12, 1 / 2⟩⟩

theorem bouncingCaptionMade : letI := naturalPowers; bouncingCaption.Constructed := by
  let _ := naturalPowers
  refine ⟨?_, ?_⟩
  · rintro _ ⟨⟩
    decide +kernel
  · have window : bouncingCaption.placement.rejection? = none := by
      simp [Placement.rejection?, bouncingCaption, Overlay.placement, firstRejection]
    exact bindOk.mpr ⟨(), acceptOk.mpr window, bindOk.mpr ⟨(), by norm_num [accept], rfl⟩⟩

theorem bouncingCaptionEvaluates :
    letI := naturalPowers
    ∃ c, bouncingCaption.compiled = .ok c ∧ c.all.length = 5 ∧ ∀ time, ∀ tree ∈ c.all,
      ∃ v, Expr.eval ((⟨(1080, 1920), (200, 50), time⟩ : Frame).scope true fun _ => none) tree =
        .ok v := by
  let _ := naturalPowers
  obtain ⟨c, built, values⟩ := Overlay.treesEvaluate naturalPowersExact.total bouncingCaptionMade rfl
  have several : ∀ c, bouncingCaption.compiled = .ok c → c.all.length = 5 := by decide +kernel
  exact ⟨c, built, several c built, fun time => values ⟨_, _, time⟩ _⟩

end OverlayMotion

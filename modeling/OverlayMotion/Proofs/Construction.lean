import OverlayMotion.Timeline
import OverlayMotion.Proofs.Outcome

/-! Descriptors as their constructors leave them. What a constructor accepts is what its
rules pass; nothing is said of descriptors put together by hand. A timeline has no rules; that
its window is cut short is noticed and changes nothing. -/
namespace OverlayMotion

variable {ν : Type} [Number ν]

def Phase.Constructed (p : Phase ν) : Prop := ∃ easing,
  (Phase.make p.effect p.duration easing p.zoomFrom p.zoomTo p.overshoot).outcome = .ok p

structure Animation.Constructed (a : Animation ν) : Prop where
  entry : ∀ p ∈ a.entry, p.Constructed
  exit : ∀ p ∈ a.exit, p.Constructed
  made : Animation.make a.entry a.hold a.exit = .ok a

structure Overlay.Constructed (o : Overlay ν) : Prop where
  animation : ∀ a ∈ o.placement.animation, a.Constructed
  made : match o with
    | .image i => ∃ box fit, Image.make i.path i.placement i.width box fit = .ok i
    | .caption c => Caption.make c.text c.placement c.fontSize c.fontFile c.fontColor c.idle = .ok c

theorem acceptOk {ε : Type} {rejection? : Option ε} {done : Unit} :
    accept rejection? = .ok done ↔ rejection? = none := by
  cases rejection? <;> simp [accept]

omit [Number ν] in
theorem firstRejectionNone {rules : List (Bool × Rejection ν)} :
    firstRejection rules = none ↔ ∀ rule ∈ rules, rule.1 = false := by
  simp [firstRejection, List.find?_eq_none]

omit [Number ν] in
theorem Easing.resolveName {ε : Type} (fallback e : Easing) :
    (Easing.resolve fallback e.name : Logged ν ε Easing) = pure e := by
  cases e <;> rfl

theorem Phase.constructedIff {p : Phase ν} : p.Constructed ↔ p.rejection? = none := by
  rw [Phase.rejection?, Option.or_eq_none_iff]
  constructor
  · rintro ⟨easing, made⟩
    obtain ⟨_, lasting, made⟩ := Logged.bindOk.mp made
    obtain ⟨_, resolved, made⟩ := Logged.bindOk.mp made
    obtain ⟨_, scaled, same⟩ := Logged.bindOk.mp made
    rw [Except.ok.inj same] at scaled
    exact ⟨acceptOk.mp lasting, acceptOk.mp scaled⟩
  · rintro ⟨lasting, scaled⟩
    have named : (p.easing.map Easing.name).mapM
        (Easing.resolve (ν := ν) (ε := Rejection ν) .linear) = pure p.easing := by
      cases h : p.easing with
      | none => rfl
      | some e =>
        rw [Option.map_some, Option.mapM_some, Easing.resolveName]
        rfl
    refine ⟨p.easing.map Easing.name, ?_⟩
    refine Logged.bindOk.mpr ⟨(), acceptOk.mpr lasting, ?_⟩
    rw [named]
    exact Logged.bindOk.mpr ⟨p.easing, rfl, Logged.bindOk.mpr ⟨(), acceptOk.mpr scaled, rfl⟩⟩

theorem Phase.makeConstructs {effect : Effect} {duration zoomFrom zoomTo : ν} {easing : Option String}
    {overshoot : Option ν} {p : Phase ν}
    (made : (make effect duration easing zoomFrom zoomTo overshoot).outcome = .ok p) :
    p.Constructed := by
  have again := made
  obtain ⟨_, _, made⟩ := Logged.bindOk.mp made
  obtain ⟨_, _, made⟩ := Logged.bindOk.mp made
  obtain ⟨_, _, last⟩ := Logged.bindOk.mp made
  cases last
  exact ⟨easing, again⟩

theorem Animation.madeIff {a : Animation ν} :
    Animation.make a.entry a.hold a.exit = .ok a ↔ a.rejection? = none :=
  ⟨fun made => acceptOk.mp (bindOk.mp made).choose_spec.1,
    fun passed => bindOk.mpr ⟨(), acceptOk.mpr passed, rfl⟩⟩

theorem Animation.constructedIff {a : Animation ν} : a.Constructed ↔
    (∀ p ∈ a.entry, p.rejection? = none) ∧ (∀ p ∈ a.exit, p.rejection? = none) ∧
      a.rejection? = none := by
  constructor
  · rintro ⟨entry, exit, made⟩
    exact ⟨fun p given => Phase.constructedIff.mp (entry p given),
      fun p given => Phase.constructedIff.mp (exit p given), madeIff.mp made⟩
  · rintro ⟨entry, exit, made⟩
    exact ⟨fun p given => Phase.constructedIff.mpr (entry p given),
      fun p given => Phase.constructedIff.mpr (exit p given), madeIff.mpr made⟩

instance Animation.decidableConstructed (a : Animation ν) : Decidable a.Constructed :=
  decidable_of_iff _ Animation.constructedIff.symm

theorem Phase.Constructed.duration {p : Phase ν} (made : p.Constructed) :
    Number.isNegative p.duration = false := by
  have passed := (Option.or_eq_none_iff.mp (Phase.constructedIff.mp made)).1
  unfold durationRejection? at passed
  split at passed
  · cases passed
  · rename_i nonnegative
    exact Bool.eq_false_iff.mpr nonnegative

theorem Phase.Constructed.scales {p : Phase ν} (made : p.Constructed) :
    Number.isNonPositive p.zoomFrom = false ∧ Number.isNonPositive p.zoomTo = false ∧
      ∀ peak ∈ p.overshoot, Number.le peak p.zoomTo = false := by
  have passed := firstRejectionNone.mp (Option.or_eq_none_iff.mp (Phase.constructedIff.mp made)).2
  simp only [List.forall_mem_append, List.forall_mem_cons] at passed
  obtain ⟨⟨away, rest, _⟩, peaks⟩ := passed
  refine ⟨away, rest, fun peak given => ?_⟩
  rw [Option.mem_def.mp given] at peaks
  exact peaks _ (List.mem_singleton_self _)

theorem Animation.Constructed.hold {a : Animation ν} (made : a.Constructed) :
    Number.isNegative a.hold = false := by
  have passed := Animation.madeIff.mp made.made
  unfold rejection? at passed
  split at passed
  · cases passed
  · rename_i nonnegative
    exact Bool.eq_false_iff.mpr nonnegative

theorem Image.made {path : Path} {placement : Placement ν} {width : Option Int}
    {box : Option (List Int)} {fit : String} {i : Image ν}
    (made : make path placement width box fit = .ok i) :
    ∃ shape fit', i = ⟨path, placement, width, shape, fit'⟩ := by
  obtain ⟨_, _, made⟩ := bindOk.mp made
  obtain ⟨_, _, made⟩ := bindOk.mp made
  split at made
  · contradiction
  · obtain ⟨shape, _, last⟩ := bindOk.mp made
    cases last
    exact ⟨shape, _, rfl⟩

theorem Caption.made {text : String} {placement : Placement ν} {fontSize : ν}
    {fontFile : Option Path} {fontColor : String} {idle : Option (Idle ν)} {c : Caption ν}
    (made : make text placement fontSize fontFile fontColor idle = .ok c) :
    c = ⟨text, placement, fontSize, fontFile, fontColor, idle⟩ := by
  obtain ⟨_, _, made⟩ := bindOk.mp made
  obtain ⟨_, _, last⟩ := bindOk.mp made
  cases last
  rfl

theorem Overlay.Constructed.passed {o : Overlay ν} (made : o.Constructed) :
    o.placement.rejection? = none := by
  refine acceptOk.mp (?_ : accept _ = .ok ())
  cases o with
  | image i =>
    obtain ⟨box, fit, made⟩ := made.made
    obtain ⟨_, accepted, _⟩ := bindOk.mp made
    exact accepted
  | caption c =>
    obtain ⟨_, accepted, _⟩ := bindOk.mp made.made
    exact accepted

theorem Overlay.Constructed.begins {o : Overlay ν} (made : o.Constructed) :
    Number.isNegative o.placement.start = false :=
  firstRejectionNone.mp made.passed _ List.mem_cons_self

theorem Overlay.Constructed.window {o : Overlay ν} (made : o.Constructed) :
    Number.lt o.placement.finish o.placement.start = false :=
  firstRejectionNone.mp made.passed _ (List.mem_cons_of_mem _ (List.mem_singleton_self _))

theorem Timeline.observedOutcome (start : ν) (finish : Option ν) (animation : Option (Animation ν)) :
    (observed start finish animation).outcome = build start finish animation := by
  rw [observed, Logged.bindOutcome, Logged.liftOutcome]
  cases build start finish animation <;> rfl

end OverlayMotion

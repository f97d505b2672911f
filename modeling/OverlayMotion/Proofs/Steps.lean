import OverlayMotion.Proofs.Filters
import OverlayMotion.Proofs.Labels

/-! The chains of a plan, overlay by overlay. The labels that a chain writes tell which
step it belongs to, so the chains of one overlay can be picked out of the finished plan:
they are what that overlay was composed to, and nothing else. -/
namespace OverlayMotion

variable {ν : Type} [Number ν]

theorem Motion.switchedBy {p : Placement ν} {isCaption : Bool} {m : Motion ν}
    (compiled : (Motion.ofPlacement p isCaption).outcome = .ok m) :
    ∃ t, (Timeline.ofPlacement p).outcome = .ok t ∧ m.enable = t.enable := by
  obtain ⟨x, -, rest⟩ := Logged.bindOk.mp compiled
  obtain ⟨y, -, rest⟩ := Logged.bindOk.mp rest
  obtain ⟨t, built, rest⟩ := Logged.bindOk.mp rest
  refine ⟨t, mapErrorOk.mp built, ?_⟩
  obtain ⟨x, -, rest⟩ := bindOk.mp (mapErrorOk.mp rest)
  obtain ⟨y, -, rest⟩ := bindOk.mp rest
  obtain ⟨alpha, -, same⟩ := bindOk.mp rest
  cases same
  rfl

namespace Graph

def stepLabels (step : Nat) : List String :=
  [(Wire.prepared step).label, (Wire.laid step).label]

def Plan.step (p : Plan) (step : Nat) : List Chain :=
  p.chains.filter fun c => c.produces ∈ stepLabels step

def layer (o : Overlay ν) (step : Nat) (source base : String) : Composing ν (List Chain) :=
  match o with
  | .image i => imageChains i source base (Wire.prepared step).label (Wire.laid step).label
  | .caption c => do return [← captionChain c base (Wire.laid step).label]

theorem stepLabelsApart {l : String} {m n : Nat} (first : l ∈ stepLabels m)
    (second : l ∈ stepLabels n) : m = n := by
  simp only [stepLabels, List.mem_pair] at first second
  rcases first with rfl | rfl <;> rcases second with same | same
  · cases Wire.labelInjective same
    rfl
  · cases Wire.labelInjective same
  · cases Wire.labelInjective same
  · cases Wire.labelInjective same
    rfl

theorem composeLayer {stage next : Stage} {o : Overlay ν}
    (done : (compose stage o).outcome = .ok next) :
    ∃ source chains, (layer o stage.step source stage.label).outcome = .ok chains ∧
      next.chains = stage.chains ++ chains ∧ next.step = stage.step + 1 := by
  cases o with
  | image i =>
    obtain ⟨chains, composed, rest⟩ := Logged.bindOk.mp done
    obtain ⟨_, -, same⟩ := Logged.bindOk.mp rest
    cases same
    exact ⟨_, chains, composed, rfl, rfl⟩
  | caption c =>
    obtain ⟨_, -, rest⟩ := Logged.bindOk.mp done
    obtain ⟨draw, composed, same⟩ := Logged.bindOk.mp rest
    cases same
    exact ⟨stage.label, [draw], Logged.bindOk.mpr ⟨draw, composed, rfl⟩, rfl, rfl⟩

theorem layerLabels {o : Overlay ν} {step : Nat} {source base : String} {chains : List Chain}
    (done : (layer o step source base).outcome = .ok chains) :
    ∀ c ∈ chains, c.produces ∈ stepLabels step := by
  cases o with
  | image i =>
    obtain ⟨_, _, _, _, _, _, -, -, -, -, -, -, rfl⟩ := imageChainsMade done
    simp [stepLabels]
  | caption c =>
    obtain ⟨draw, drawn, same⟩ := Logged.bindOk.mp done
    cases same
    obtain ⟨_, _, _, _, _, _, _, -, -, -, -, -, -, -, rfl⟩ := captionChainMade drawn
    simp [stepLabels]

inductive Layered : Nat → List (Overlay ν) → List (List Chain) → Prop
  | nil {step} : Layered step [] []
  | cons {step o overlays source base chains layers} :
      (layer o step source base).outcome = .ok chains → Layered (step + 1) overlays layers →
      Layered step (o :: overlays) (chains :: layers)

theorem overlaysLayered {overlays : List (Overlay ν)} {stage last : Stage}
    (done : (overlays.foldlM compose stage).outcome = .ok last) :
    ∃ layers, Layered stage.step overlays layers ∧
      last.chains = stage.chains ++ layers.flatten := by
  induction overlays generalizing stage with
  | nil =>
    cases done
    exact ⟨[], .nil, by simp⟩
  | cons o overlays ih =>
    rw [List.foldlM_cons] at done
    obtain ⟨next, first, others⟩ := Logged.bindOk.mp done
    obtain ⟨source, chains, composed, more, counted⟩ := composeLayer first
    obtain ⟨layers, layered, rest⟩ := ih others
    rw [counted] at layered
    exact ⟨chains :: layers, .cons composed layered, by simp [rest, more]⟩

theorem Layered.later {first step : Nat} {overlays : List (Overlay ν)} {layers : List (List Chain)}
    (layered : Layered first overlays layers) (early : step < first) :
    layers.flatten.filter (fun c => c.produces ∈ stepLabels step) = [] := by
  induction layered with
  | nil => rfl
  | cons composed _ ih =>
    have apart := layerLabels composed
    rw [List.flatten_cons, List.filter_append, ih (by omega), List.append_nil,
      List.filter_eq_nil_iff]
    intro c inside here
    have same := stepLabelsApart (apart c inside) (by simpa using here)
    omega

theorem Layered.step {first k : Nat} {overlays : List (Overlay ν)} {layers : List (List Chain)}
    {o : Overlay ν} (layered : Layered first overlays layers) (here : overlays[k]? = some o) :
    ∃ source base, (layer o (first + k) source base).outcome =
      .ok (layers.flatten.filter fun c => c.produces ∈ stepLabels (first + k)) := by
  induction layered generalizing k with
  | nil => cases here
  | @cons first o' overlays source base chains layers composed others ih =>
    have labels := layerLabels composed
    cases k with
    | zero =>
      cases here
      have whole : chains.filter (fun c => c.produces ∈ stepLabels first) = chains :=
        List.filter_eq_self.mpr fun c inside => by simpa using labels c inside
      rw [List.flatten_cons, List.filter_append, Nat.add_zero, whole,
        others.later (Nat.lt_succ_self first), List.append_nil]
      exact ⟨source, base, composed⟩
    | succ k =>
      have foreign : chains.filter (fun c => c.produces ∈ stepLabels (first + (k + 1))) = [] := by
        rw [List.filter_eq_nil_iff]
        intro c inside other
        have same := stepLabelsApart (labels c inside) (by simpa using other)
        omega
      have further := ih here
      rw [Nat.add_right_comm, Nat.add_assoc] at further
      rwa [List.flatten_cons, List.filter_append, foreign, List.nil_append]

def Finishing (c : Chain) : Prop :=
  ∃ w : Wire, c.produces = w.label ∧ ∀ step, w ≠ .prepared step ∧ w ≠ .laid step

theorem finishingNoStep {chains : List Chain} (finishing : ∀ c ∈ chains, Finishing c) (step : Nat) :
    chains.filter (fun c => c.produces ∈ stepLabels step) = [] := by
  rw [List.filter_eq_nil_iff]
  intro c inside here
  obtain ⟨w, named, apart⟩ := finishing c inside
  rw [named, decide_eq_true_eq, stepLabels, List.mem_pair] at here
  rcases here with same | same
  · exact (apart step).1 (Wire.labelInjective same)
  · exact (apart step).2 (Wire.labelInjective same)

theorem pictureFinishing {c : Composition ν} {label : String} {finish : List Filter} {n : Nat}
    {chains : List Chain} {inputs total}
    (done : (finishPicture c label finish n).outcome = .ok (chains, inputs, total)) :
    ∀ c ∈ chains, Finishing c := by
  unfold finishPicture at done
  split at done
  · cases done
    rintro _ (_ | ⟨_, ⟨⟩⟩)
    exact ⟨.video, rfl, by simp⟩
  · simp only [Logged.bindOk, Logged.liftOutcome, Logged.pureOutcome] at done
    obtain ⟨input, -, chain, shown, _, -, _, -, same⟩ := done
    cases same
    obtain ⟨fades, -, same⟩ := bindOk.mp shown
    cases same
    simp only [List.mem_cons, List.not_mem_nil, or_false]
    rintro _ (rfl | rfl | rfl)
    · exact ⟨.main, rfl, by simp⟩
    · exact ⟨.still, rfl, by simp⟩
    · exact ⟨.video, rfl, by simp⟩

theorem soundFinishing {audio : Option (Audio ν)} {n : Nat} {total chains inputs label}
    (done : (finishSound audio n total).outcome = .ok (chains, inputs, label)) :
    ∀ c ∈ chains, Finishing c := by
  cases audio with
  | none =>
    cases done
    simp
  | some audio =>
    obtain ⟨⟨faded, mapped⟩, finished, same⟩ := Logged.bindOk.mp done
    cases same
    obtain ⟨filters, -, chained⟩ := Logged.bindOk.mp finished
    cases filters with
    | nil =>
      cases chained
      simp
    | cons f fs =>
      cases chained
      rintro _ (_ | ⟨_, ⟨⟩⟩)
      exact ⟨.audio, rfl, by simp⟩

theorem planStep {c : Composition ν} {p : Plan} {i : Nat} {o : Overlay ν}
    (planned : (plan c).outcome = .ok p) (here : c.overlays[i]? = some o) :
    ∃ source base, (layer o i source base).outcome = .ok (p.step i) := by
  simp only [plan, Logged.bindOk, Logged.pureOutcome] at planned
  obtain ⟨stage, composed, fades, -, ⟨chains, stillInputs, total⟩, finished,
    ⟨sounds, soundInputs, label⟩, heard, _, -, same⟩ := planned
  cases same
  obtain ⟨layers, layered, collected⟩ := overlaysLayered composed
  obtain ⟨source, base, laid⟩ := layered.step here
  refine ⟨source, base, ?_⟩
  rw [Plan.step, List.filter_append, List.filter_append, collected,
    finishingNoStep (pictureFinishing finished), finishingNoStep (soundFinishing heard)]
  simpa [Stage.first] using laid

end Graph

end OverlayMotion

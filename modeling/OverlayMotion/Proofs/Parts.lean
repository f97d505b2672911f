import OverlayMotion.Proofs.Steps

/-! All filters of a plan, in the order of its chains: those of the overlays, the fades of the
picture, its last size, what a closing still needs, and the fades of the sound. Each filter
comes with the trees and the numbers whose texts it is given. -/
namespace OverlayMotion.Graph

variable {ν : Type} [Number ν]

def Plan.allFilters (p : Plan) : List Filter := p.chains.flatMap Chain.filters

inductive Draws : Overlay ν → Filter → Prop
  | prepared {i m f} (compiled : (Motion.ofPlacement i.placement false).outcome = .ok m)
      (prepares : Prepares i m.alpha f) : Draws (.image i) f
  | laid {i m x y enable} (compiled : (Motion.ofPlacement i.placement false).outcome = .ok m)
      (across : m.x.text = .ok x) (down : m.y.text = .ok y)
      (switched : m.enable.text = .ok enable) : Draws (.image i) (layFilter x y enable)
  | drawn {c m height size x y alpha enable}
      (compiled : (Motion.ofPlacement c.placement true).outcome = .ok m)
      (raised : Expr.ofTrees (floated c.placement.start m.y c.idle) = .ok height)
      (sized : fontSizeArgument c = .ok size) (across : m.x.text = .ok x)
      (down : height.text = .ok y)
      (faded : Option.Rel (fun e text => e.text = .ok text) m.alpha alpha)
      (switched : m.enable.text = .ok enable) :
      Draws (.caption c) (drawFilter c size x y alpha enable)

theorem layerDraws {o : Overlay ν} {step : Nat} {source base : String} {chains : List Chain}
    (done : (layer o step source base).outcome = .ok chains) :
    ∀ f ∈ chains.flatMap Chain.filters, Draws o f := by
  cases o with
  | image i =>
    obtain ⟨scale, m, alpha, x, y, enable, scaled, compiled, faded, across, down, switched, rfl⟩ :=
      imageChainsMade done
    simp only [List.flatMap_cons, List.flatMap_nil, List.append_nil]
    refine List.forall_mem_append.mpr ⟨fun f inside => ?_, ?_⟩
    · exact .prepared compiled (prepares scaled faded f inside)
    · rintro _ (_ | ⟨_, ⟨⟩⟩)
      exact .laid compiled across down switched
  | caption c =>
    obtain ⟨draw, drawn, same⟩ := Logged.bindOk.mp done
    cases same
    obtain ⟨m, height, size, x, y, alpha, enable, compiled, raised, sized, across, down, faded,
      switched, rfl⟩ := captionChainMade drawn
    rintro _ (_ | ⟨_, ⟨⟩⟩)
    exact .drawn compiled raised sized across down faded switched

theorem Layered.draws {first : Nat} {overlays : List (Overlay ν)} {layers : List (List Chain)}
    (layered : Layered first overlays layers) :
    ∀ f ∈ layers.flatten.flatMap Chain.filters, ∃ o ∈ overlays, Draws o f := by
  induction layered with
  | nil => exact nofun
  | cons composed _ ih =>
    rw [List.flatten_cons, List.flatMap_append]
    refine List.forall_mem_append.mpr ⟨fun f inside => ?_, fun f inside => ?_⟩
    · exact ⟨_, List.mem_cons_self, layerDraws composed f inside⟩
    · obtain ⟨o, among, draws⟩ := ih f inside
      exact ⟨o, List.mem_cons_of_mem _ among, draws⟩

def Composition.total (c : Composition ν) : Except Fault (Option ν) :=
  match c.still with
  | none => .ok c.duration
  | some still => c.duration.mapM fun d => Number.add d still.duration

def soundFades (audio : Option (Audio ν)) (total : Option ν) : Composing ν (List Filter) :=
  match audio with
  | some audio => fadeFilters "afade" audio.fadeIn audio.fadeOut total .audioFadeSkipped
  | none => pure []

theorem soundFilters {audio : Option (Audio ν)} {total : Option ν} {sounds : List Filter}
    (done : (soundFades audio total).outcome = .ok sounds) : ∀ f ∈ sounds, Fades "afade" f := by
  unfold soundFades at done
  split at done
  · exact filtersFade done
  · cases done
    exact nofun

def Composition.sizing (c : Composition ν) : Filter :=
  ⟨"scale", [placed (toString c.size.1), placed (toString c.size.2)]⟩

theorem pictureParts {c : Composition ν} {label : String} {finish : List Filter} {n : Nat}
    {chains : List Chain} {inputs total}
    (done : (finishPicture c label finish n).outcome = .ok (chains, inputs, total)) :
    c.total = .ok total ∧ ∃ closing, (∀ f ∈ closing, Closes f) ∧
      chains.flatMap Chain.filters = finish ++ closing := by
  unfold finishPicture at done
  unfold Composition.total
  cases given : c.still with
  | none =>
    simp only [given] at done
    cases done
    exact ⟨rfl, [], nofun, by simp⟩
  | some still =>
    simp only [given, Logged.bindOk, Logged.liftOutcome, Logged.pureOutcome] at done
    obtain ⟨input, -, chain, shrunk, total, summed, _, -, same⟩ := done
    cases same
    refine ⟨?_, joinFilters c.fps ++ chain.filters ++
      [⟨"concat", [named "n" "2", named "v" "1", named "a" "0"]⟩], ?_, by simp⟩
    · rw [Logged.optionOutcome, optionOk] at summed
      refine optionOk.mpr ?_
      generalize c.duration = duration at summed ⊢
      cases summed with
      | none => exact .none
      | some added => exact .some (mapErrorOk.mp added)
    · refine List.forall_mem_append.mpr ⟨List.forall_mem_append.mpr
        ⟨joinCloses c.fps, stillCloses shrunk⟩, ?_⟩
      rintro _ (_ | ⟨_, ⟨⟩⟩)
      exact .joined

theorem soundParts {audio : Option (Audio ν)} {n : Nat} {total chains inputs label}
    (done : (finishSound audio n total).outcome = .ok (chains, inputs, label)) :
    (soundFades audio total).outcome = .ok (chains.flatMap Chain.filters) := by
  cases audio with
  | none =>
    cases done
    rfl
  | some audio =>
    obtain ⟨⟨faded, mapped⟩, finished, same⟩ := Logged.bindOk.mp done
    cases same
    obtain ⟨filters, fading, chained⟩ := Logged.bindOk.mp finished
    cases filters with
    | nil =>
      cases chained
      exact fading
    | cons f fs =>
      cases chained
      rw [List.flatMap_singleton]
      exact fading

structure Parts (c : Composition ν) (layered fades closing sounds : List Filter) : Prop where
  layered : ∀ f ∈ layered, ∃ o ∈ c.overlays, Draws o f
  fades : (pictureFades c).outcome = .ok fades
  closing : ∀ f ∈ closing, Closes f
  sounds : ∃ total, c.total = .ok total ∧ (soundFades c.audio total).outcome = .ok sounds

theorem planParts {c : Composition ν} {p : Plan} (planned : (plan c).outcome = .ok p) :
    ∃ layered fades closing sounds, Parts c layered fades closing sounds ∧
      p.allFilters = layered ++ fades ++ c.sizing :: closing ++ sounds := by
  simp only [plan, Logged.bindOk, Logged.pureOutcome] at planned
  obtain ⟨stage, composed, fades, faded, ⟨chains, stillInputs, total⟩, finished,
    ⟨sounds, soundInputs, label⟩, heard, _, -, same⟩ := planned
  cases same
  obtain ⟨layers, layered, collected⟩ := overlaysLayered composed
  obtain ⟨totalled, closing, closes, pictured⟩ := pictureParts finished
  refine ⟨_, fades, closing, _, ⟨layered.draws, faded, closes, total, totalled, soundParts heard⟩,
    ?_⟩
  simp [Plan.allFilters, collected, Stage.first, pictured, Composition.sizing]

end OverlayMotion.Graph

import Mathlib.Data.List.Count
import OverlayMotion.Number.Scalar
import OverlayMotion.Proofs.Filters
import OverlayMotion.Proofs.Network

/-! The streams of a planned graph. The inputs are counted while the overlays are laid on
and collected on their own afterwards; the fold keeps the counter, the labels and the
chains in step with the collection, so every stream finds the input it is meant for and
no stream is left over. The promises are about the texts of the filters. -/
namespace OverlayMotion.Graph

variable {ν : Type} [Number ν]

def streamsOf (input : Nat) : List String := [s!"{input}:v", s!"{input}:a"]

inductive Stacked (inputs : List MediaInput) :
    Nat → String → List (Overlay ν) → List String → String → Prop
  | nil {n base} : Stacked inputs n base [] [] base
  | image {n base i overlays prepare ready lay out filters top input} :
      inputs[n]? = some input → input.path = i.path →
      consumed prepare = [s!"{n}:v"] → produced? prepare = some ready →
      consumed lay = [base, ready] → produced? lay = some out →
      Stacked inputs (n + 1) out overlays filters top →
      Stacked inputs n base (.image i :: overlays) (prepare :: lay :: filters) top
  | caption {n base c overlays draw out filters top} :
      consumed draw = [base] → produced? draw = some out →
      Stacked inputs n out overlays filters top →
      Stacked inputs n base (.caption c :: overlays) (draw :: filters) top

def imagePaths (overlays : List (Overlay ν)) : List Path :=
  overlays.filterMap fun
    | .image i => some i.path
    | .caption _ => none

structure Wired (c : Composition ν) (p : Plan) : Prop where
  inputs : p.inputs.map MediaInput.path = c.base :: imagePaths c.overlays ++
    (c.still.map Still.path).toList ++ (c.audio.map Audio.path).toList
  available : ∀ before f after, p.filters = before ++ f :: after → ∀ label ∈ consumed f,
    (∃ n < p.inputs.length, label ∈ streamsOf n) ∨
      before.countP (fun g => produced? g = some label) = 1
  labelled : ∀ f ∈ p.filters, (produced? f).isSome
  distinct : (p.filters.map produced?).Nodup
  readOnce : ∀ f ∈ p.filters, ∀ label, produced? f = some label →
    p.video ≠ bracketed label → p.audio ≠ some (bracketed label) →
    (p.filters.flatMap consumed).count label = 1
  inputOnce : ∀ n < p.inputs.length,
    (p.filters.flatMap consumed ++ p.audio.toList).countP (· ∈ streamsOf n) = 1
  stacked : ∃ laid top finish rest, p.filters = laid ++ finish :: rest ∧
    Stacked p.inputs 1 "0:v" c.overlays laid top ∧ consumed finish = [top]

def Joins (filter : String) (l : Link) : Prop :=
  consumed filter = l.reads.map Wire.label ∧ produced? filter = some l.writes.label

theorem joinsText {filters : List Filter} (opens : Opens filters) (reads : List Wire)
    (writes : Wire) :
    Joins (Chain.text ⟨reads.map Wire.label, filters, writes.label⟩) ⟨reads, writes⟩ := by
  refine ⟨consumedOfText _ opens ?_, producedOfText _ writes.labelBare⟩
  intro label inside
  obtain ⟨w, _, rfl⟩ := List.mem_map.mp inside
  exact w.labelBare

theorem Prepares.worded {i : Image ν} {alpha : Option (Expr ν)} {f : Filter}
    (prepares : Prepares i alpha f) : f.Worded := by
  cases prepares <;> simp [Filter.Worded]

theorem Closes.worded {f : Filter} (closes : Closes f) : f.Worded := by
  cases closes with
  | matched value adapts =>
    simp only [List.mem_cons, List.not_mem_nil, or_false] at adapts
    rcases adapts with rfl | rfl | rfl <;> simp [Filter.Worded]
  | _ => simp [Filter.Worded, fadingIn]

theorem imageComposed {stage next : Stage} {i : Image ν} {top : Wire}
    (label : stage.label = top.label) (done : (compose stage (.image i)).outcome = .ok next) :
    ∃ prepare lay : Chain,
      Joins prepare.text ⟨[.picture stage.nextInput], .prepared stage.step⟩ ∧
      Joins lay.text ⟨[top, .prepared stage.step], .laid stage.step⟩ ∧
      next = ⟨(Wire.laid stage.step).label, stage.chains ++ [prepare, lay],
        stage.nextInput + 1, stage.step + 1⟩ := by
  obtain ⟨chains, composed, rest⟩ := Logged.bindOk.mp done
  obtain ⟨_, -, same⟩ := Logged.bindOk.mp rest
  cases same
  obtain ⟨scale, m, alpha, x, y, enable, scaled, -, faded, -, -, -, rfl⟩ :=
    imageChainsMade composed
  refine ⟨_, _, joinsText ⟨by simp [prepareFilters], fun f inside => ?_⟩ [.picture _] (.prepared _),
    label ▸ joinsText ⟨by simp, ?_⟩ [top, .prepared _] (.laid _), rfl⟩
  · exact (prepares scaled faded f inside).worded
  · simp [Filter.Worded, layFilter]

theorem captionComposed {stage next : Stage} {c : Caption ν} {top : Wire}
    (label : stage.label = top.label) (done : (compose stage (.caption c)).outcome = .ok next) :
    ∃ draw : Chain, Joins draw.text ⟨[top], .laid stage.step⟩ ∧
      next = ⟨(Wire.laid stage.step).label, stage.chains ++ [draw],
        stage.nextInput, stage.step + 1⟩ := by
  obtain ⟨_, -, rest⟩ := Logged.bindOk.mp done
  obtain ⟨draw, composed, same⟩ := Logged.bindOk.mp rest
  cases same
  obtain ⟨m, height, size, x, y, alpha, enable, -, -, -, -, -, -, -, rfl⟩ :=
    captionChainMade composed
  exact ⟨_, label ▸ joinsText ⟨by simp, by simp [Filter.Worded, drawFilter]⟩ [top] (.laid _), rfl⟩

def Wire.Before (step : Nat) : Wire → Prop
  | .prepared k | .laid k => k < step
  | _ => False

theorem Wire.Before.mono {w : Wire} {m n : Nat} (before : w.Before m) (more : m ≤ n) :
    w.Before n := by
  cases w <;> first | exact before.elim | exact Nat.lt_of_lt_of_le before more

structure Standing (stage : Stage) (links : List Link) (top : Wire) : Prop where
  label : stage.label = top.label
  joins : List.Forall₂ Joins (stage.chains.map Chain.text) links
  grown : Grown stage.nextInput links [top]
  before : ∀ w ∈ links.map Link.writes, w.Before stage.step

theorem standingFirst : Standing Stage.first [] (.picture 0) :=
  ⟨rfl, .nil, .input .empty rfl, by simp⟩

theorem imageGrown {n step : Nat} {links top} (grown : Grown n links [top])
    (unwritten : ∀ w : Wire, ¬ w.Before step → w ∉ links.map Link.writes) :
    Grown (n + 1) (links ++ [⟨[.picture n], .prepared step⟩, ⟨[top, .prepared step], .laid step⟩])
      [.laid step] := by
  have opened : Grown (n + 1) links [.picture n, top] := .input grown rfl
  have prepared : Grown (n + 1) (links ++ [⟨[.picture n], .prepared step⟩])
      [.prepared step, top] := .link opened (.refl _) rfl (unwritten _ (Nat.lt_irrefl _))
  have laid : Grown (n + 1) (links ++ [⟨[.picture n], .prepared step⟩] ++
      [⟨[top, .prepared step], .laid step⟩]) [.laid step] := by
    refine .link prepared (List.Perm.swap ..) rfl ?_
    simpa using unwritten (.laid step) (Nat.lt_irrefl _)
  simpa using laid

theorem composeStanding {stage next : Stage} {links top} {overlay : Overlay ν}
    (standing : Standing stage links top) (done : (compose stage overlay).outcome = .ok next) :
    ∃ links top, Standing next links top := by
  have unwritten (w : Wire) (late : ¬ w.Before stage.step) : w ∉ links.map Link.writes :=
    fun inside => late (standing.before _ inside)
  cases overlay with
  | image i =>
    obtain ⟨prepare, lay, prepares, lays, rfl⟩ := imageComposed standing.label done
    refine ⟨_, _, rfl, ?_, imageGrown standing.grown unwritten, ?_⟩
    · rw [List.map_append]
      exact List.rel_append standing.joins (.cons prepares (.cons lays .nil))
    · simp only [List.map_append, List.mem_append]
      rintro w (old | new)
      · exact (standing.before w old).mono (Nat.le_succ _)
      · rcases List.mem_pair.mp new with rfl | rfl <;> exact Nat.lt_succ_self _
  | caption c =>
    obtain ⟨draw, draws, rfl⟩ := captionComposed standing.label done
    have laid : Grown stage.nextInput (links ++ [⟨[top], .laid stage.step⟩])
        [.laid stage.step] :=
      .link standing.grown (.refl _) rfl (unwritten _ (Nat.lt_irrefl _))
    refine ⟨_, _, rfl, ?_, laid, ?_⟩
    · rw [List.map_append]
      exact List.rel_append standing.joins (.cons draws .nil)
    · simp only [List.map_append, List.mem_append]
      rintro w (old | new)
      · exact (standing.before w old).mono (Nat.le_succ _)
      · cases List.mem_singleton.mp new
        exact Nat.lt_succ_self _

theorem overlaysStanding {overlays : List (Overlay ν)} {stage next : Stage} {links top}
    (standing : Standing stage links top)
    (done : (overlays.foldlM compose stage).outcome = .ok next) :
    ∃ links top, Standing next links top := by
  induction overlays generalizing stage links top with
  | nil => cases done; exact ⟨_, _, standing⟩
  | cons overlay overlays ih =>
    rw [List.foldlM_cons] at done
    obtain ⟨middle, first, others⟩ := Logged.bindOk.mp done
    obtain ⟨_, _, standing⟩ := composeStanding standing first
    exact ih standing others

theorem overlaysStacked {inputs rest : List MediaInput} {overlays : List (Overlay ν)}
    {stage next : Stage} {top : Wire} (label : stage.label = top.label)
    (done : (overlays.foldlM compose stage).outcome = .ok next)
    (ahead : inputs.drop stage.nextInput = overlayInputs overlays ++ rest) :
    next.nextInput = stage.nextInput + (overlayInputs overlays).length ∧
    ∃ laid, next.chains = stage.chains ++ laid ∧
      Stacked inputs stage.nextInput stage.label overlays (laid.map Chain.text) next.label := by
  -- The inputs ahead are those of the overlays that are still to be laid.
  induction overlays generalizing stage top with
  | nil => cases done; exact ⟨rfl, [], by simp, .nil⟩
  | cons overlay overlays ih =>
    rw [List.foldlM_cons] at done
    obtain ⟨middle, first, others⟩ := Logged.bindOk.mp done
    cases overlay with
    | image i =>
      obtain ⟨prepare, lay, prepares, lays, rfl⟩ := imageComposed label first
      have here : inputs[stage.nextInput]? = some ⟨i.path, ["-loop", "1"]⟩ := by
        rw [← List.head?_drop, ahead]
        rfl
      have further : inputs.drop (stage.nextInput + 1) = overlayInputs overlays ++ rest := by
        rw [← List.tail_drop, ahead]
        rfl
      obtain ⟨count, laid, chains, stacked⟩ :=
        ih (rfl : _ = (Wire.laid stage.step).label) others further
      refine ⟨by simp [count, overlayInputs]; omega, prepare :: lay :: laid, by simp [chains], ?_⟩
      have base := lays.1
      rw [List.map_cons, List.map_cons, ← label] at base
      exact .image here rfl prepares.1 prepares.2 base lays.2 stacked
    | caption c =>
      obtain ⟨draw, draws, rfl⟩ := captionComposed label first
      obtain ⟨count, laid, chains, stacked⟩ :=
        ih (rfl : _ = (Wire.laid stage.step).label) others ahead
      refine ⟨count, draw :: laid, by simp [chains], ?_⟩
      have base := draws.1
      rw [List.map_cons, ← label] at base
      exact .caption base draws.2 stacked

theorem finishOpens {c : Composition ν} {fades filters : List Filter} {scale : List Argument}
    (done : (pictureFades c).outcome = .ok fades) (worded : ∀ f ∈ filters, f.Worded) :
    Opens (fades ++ [⟨"scale", scale⟩] ++ filters) := by
  have fading : ∀ f ∈ fades, f.Worded := fun f inside => by
    simp [Filter.Worded, (pictureFilters done f inside).named]
  refine ⟨by simp, ?_⟩
  simp only [List.mem_append, List.mem_singleton]
  rintro f ((inside | rfl) | inside)
  · exact fading f inside
  · simp [Filter.Worded]
  · exact worded f inside

theorem joinedGrown {n : Nat} {links top} (grown : Grown n links [top])
    (unfinished : ∀ w ∈ [Wire.main, .still, .video], w ∉ links.map Link.writes) :
    Grown (n + 1) (links ++ [⟨[top], .main⟩, ⟨[.picture n], .still⟩, ⟨[.main, .still], .video⟩])
      [.video] := by
  have first : Grown n (links ++ [⟨[top], .main⟩]) [.main] :=
    .link grown (.refl _) rfl (unfinished _ (by simp))
  have second : Grown (n + 1) (links ++ [⟨[top], .main⟩] ++ [⟨[.picture n], .still⟩])
      [.still, .main] :=
    .link (.input first rfl) (.refl _) rfl (by simpa using unfinished .still (by simp))
  have third : Grown (n + 1) (links ++ [⟨[top], .main⟩] ++ [⟨[.picture n], .still⟩] ++
      [⟨[.main, .still], .video⟩]) [.video] :=
    .link second (List.Perm.swap ..) rfl (by simpa using unfinished .video (by simp))
  simpa using third

theorem pictureGrown {c : Composition ν} {label : String} {finish : List Filter} {n : Nat}
    {chains : List Chain} {inputs total links top}
    (opens : ∀ filters : List Filter, (∀ f ∈ filters, f.Worded) → Opens (finish ++ filters))
    (labelled : label = top.label) (grown : Grown n links [top])
    (unfinished : ∀ w ∈ [Wire.main, .still, .video, .audio], w ∉ links.map Link.writes)
    (done : (finishPicture c label finish n).outcome = .ok (chains, inputs, total)) :
    ∃ w more, List.Forall₂ Joins (chains.map Chain.text) (⟨[top], w⟩ :: more) ∧
      Grown (n + inputs.length) (links ++ ⟨[top], w⟩ :: more) [.video] ∧
      Wire.audio ∉ (links ++ ⟨[top], w⟩ :: more).map Link.writes ∧
      inputs.map MediaInput.path = (c.still.map Still.path).toList := by
  subst labelled
  unfold finishPicture at done
  split at done
  case h_1 absent =>
    cases done
    have finished : Joins (Chain.text ⟨[top.label], finish, "vout"⟩) ⟨[top], .video⟩ := by
      have plain := opens [] (by simp)
      rw [List.append_nil] at plain
      exact joinsText plain [top] .video
    refine ⟨.video, [], .cons finished .nil, .link grown (.refl _) rfl (unfinished _ (by simp)),
      ?_, by simp [absent]⟩
    simpa using unfinished .audio (by simp)
  case h_2 still present =>
    simp only [Logged.bindOk, Logged.liftOutcome, Logged.pureOutcome] at done
    obtain ⟨input, looped, chain, shrunk, _, -, _, -, same⟩ := done
    cases same
    have source : input.path = still.path := by
      obtain ⟨_, -, same⟩ := bindOk.mp looped
      cases same
      rfl
    have matched := fun f inside => (joinCloses c.fps f inside).worded
    have finished : Joins (Chain.text ⟨[top.label], finish ++ joinFilters c.fps, "main"⟩)
        ⟨[top], .main⟩ := joinsText (opens _ matched) [top] .main
    have worded := fun f inside => (stillCloses shrunk f inside).worded
    have shown : Joins chain.text ⟨[.picture n], .still⟩ := by
      obtain ⟨fades, -, same⟩ := bindOk.mp shrunk
      cases same
      exact joinsText ⟨by simp, worded⟩ [.picture n] .still
    have joined : Joins (Chain.text ⟨["main", "still"],
        [⟨"concat", [named "n" "2", named "v" "1", named "a" "0"]⟩], "vout"⟩)
        ⟨[.main, .still], .video⟩ :=
      joinsText ⟨by simp, by simp [Filter.Worded]⟩ [.main, .still] .video
    refine ⟨.main, _, .cons finished (.cons shown (.cons joined .nil)),
      joinedGrown grown fun w final => unfinished w (by simp at final ⊢; tauto), ?_, by simp [*]⟩
    simpa using unfinished .audio (by simp)

inductive Mapped : Option String → List Wire → Prop
  | none : Mapped none []
  | direct (n : Nat) : Mapped (some (Wire.sound n).label) [.sound n]
  | written : Mapped (some (bracketed Wire.audio.label)) [.audio]

theorem soundGrown {audio : Option (Audio ν)} {n : Nat} {total chains inputs label links}
    (grown : Grown n links [.video]) (silent : Wire.audio ∉ links.map Link.writes)
    (done : (finishSound audio n total).outcome = .ok (chains, inputs, label)) :
    ∃ more ends, List.Forall₂ Joins (chains.map Chain.text) more ∧ Mapped label ends ∧
      Grown (n + inputs.length) (links ++ more) (ends ++ [.video]) ∧
      inputs.map MediaInput.path = (audio.map Audio.path).toList := by
  cases audio with
  | none =>
    cases done
    exact ⟨[], [], .nil, .none, by simpa using grown, rfl⟩
  | some audio =>
    obtain ⟨⟨faded, mapped⟩, finished, same⟩ := Logged.bindOk.mp done
    cases same
    obtain ⟨filters, fading, chained⟩ := Logged.bindOk.mp finished
    have opened : Grown (n + 1) links [.sound n, .video] := .input grown rfl
    cases filters with
    | nil =>
      cases chained
      exact ⟨[], [.sound n], .nil, .direct n, by simpa using opened, rfl⟩
    | cons f fs =>
      cases chained
      have opens : Opens (f :: fs) :=
        ⟨by simp, fun g inside => by simp [Filter.Worded, (filtersFade fading g inside).named]⟩
      exact ⟨[⟨[.sound n], .audio⟩], [.audio], .cons (joinsText opens [.sound n] .audio) .nil,
        .written, .link opened (.refl _) rfl silent, rfl⟩

omit [Number ν] in
theorem pathsOfInputs (overlays : List (Overlay ν)) :
    (overlayInputs overlays).map MediaInput.path = imagePaths overlays := by
  rw [overlayInputs, imagePaths, List.map_filterMap]
  congr 1
  funext overlay
  cases overlay <;> rfl

theorem planGrown {c : Composition ν} {p : Plan} (done : (plan c).outcome = .ok p) :
    p.video = bracketed Wire.video.label ∧
    p.inputs.map MediaInput.path = c.base :: imagePaths c.overlays ++
      (c.still.map Still.path).toList ++ (c.audio.map Audio.path).toList ∧
    (∃ links ends, List.Forall₂ Joins p.filters links ∧ Mapped p.audio ends ∧
      Grown p.inputs.length links (ends ++ [.video])) ∧
    ∃ laid top finish rest, p.filters = laid ++ finish :: rest ∧
      Stacked p.inputs 1 "0:v" c.overlays laid top ∧ consumed finish = [top] := by
  simp only [plan, Logged.bindOk, Logged.pureOutcome] at done
  obtain ⟨stage, composed, fades, faded, ⟨chains, stillInputs, total⟩, finished,
    ⟨sounds, soundInputs, label⟩, heard, _, -, same⟩ := done
  cases same
  obtain ⟨links, top, standing⟩ := overlaysStanding standingFirst composed
  have ahead : (⟨c.base, []⟩ :: overlayInputs c.overlays ++ stillInputs ++ soundInputs).drop 1 =
      overlayInputs c.overlays ++ (stillInputs ++ soundInputs) := by simp
  obtain ⟨count, laid, laidChains, stacked⟩ :=
    overlaysStacked standingFirst.label composed ahead
  have unfinished : ∀ w ∈ [Wire.main, .still, .video, .audio], w ∉ links.map Link.writes := by
    intro w final inside
    have early := standing.before w inside
    cases w <;> first | exact early | simp at final
  obtain ⟨w, closing, closes, pictured, silent, stillPaths⟩ := pictureGrown
    (fun filters worded => finishOpens faded worded) standing.label
    (by simpa [count, Stage.first, Nat.add_comm] using standing.grown) unfinished finished
  obtain ⟨more, ends, sounding, mapped, whole, soundPaths⟩ :=
    soundGrown (by simpa [Nat.add_right_comm] using pictured) silent heard
  refine ⟨rfl, ?_, ⟨links ++ ⟨[top], w⟩ :: closing ++ more, ends, ?_, mapped, ?_⟩, ?_⟩
  · simp [pathsOfInputs, stillPaths, soundPaths]
  · rw [Plan.filters, List.map_append, List.map_append]
    exact List.rel_append (List.rel_append standing.joins closes) sounding
  · simpa only [List.length_append] using whole
  · cases chains with
    | nil => cases closes
    | cons finish others =>
      obtain ⟨⟨reads, -⟩, -⟩ := List.forall₂_cons.mp closes
      refine ⟨laid.map Chain.text, stage.label, finish.text, (others ++ sounds).map Chain.text,
        ?_, stacked, by rw [reads, standing.label]; rfl⟩
      simp [Plan.filters, laidChains, Stage.first]

section
variable {filters : List String} {links : List Link}

theorem joinsConsumed (joins : List.Forall₂ Joins filters links) :
    filters.flatMap consumed = (links.flatMap Link.reads).map Wire.label := by
  induction joins with
  | nil => rfl
  | cons first _ ih =>
    rw [List.flatMap_cons, List.flatMap_cons, List.map_append, first.1, ih]

theorem joinsProduced (joins : List.Forall₂ Joins filters links) :
    filters.map produced? = (links.map Link.writes).map fun w => some w.label := by
  induction joins with
  | nil => rfl
  | cons first _ ih => rw [List.map_cons, List.map_cons, List.map_cons, first.2, ih]

theorem joinsSplit {before after : List String} {f : String}
    (joins : List.Forall₂ Joins (before ++ f :: after) links) :
    ∃ earlier l later, links = earlier ++ l :: later ∧ List.Forall₂ Joins before earlier ∧
      Joins f l := by
  induction before generalizing links with
  | nil =>
    cases joins with
    | cons first _ => exact ⟨[], _, _, rfl, .nil, first⟩
  | cons g before ih =>
    cases joins with
    | cons first others =>
      obtain ⟨earlier, l, later, rfl, joins, last⟩ := ih others
      exact ⟨_ :: earlier, l, later, rfl, .cons first joins, last⟩

end

theorem producedOnce {filters : List String} {links : List Link} {w : Wire}
    (joins : List.Forall₂ Joins filters links) (distinct : (links.map Link.writes).Nodup)
    (written : w ∈ links.map Link.writes) :
    filters.countP (fun g => produced? g = some w.label) = 1 := by
  have labels : Function.Injective fun w : Wire => some w.label := fun _ _ same =>
    Wire.labelInjective (Option.some.inj same)
  have count : (filters.map produced?).count (some w.label) = 1 := by
    rw [joinsProduced joins, List.count_map_of_injective _ _ labels]
    exact List.count_eq_one_of_mem distinct written
  rw [List.count, List.countP_map] at count
  simpa [Function.comp_def, ← beq_eq_decide] using count

theorem inStreamsOf {w : Wire} {n : Nat} : w.label ∈ streamsOf n ↔ w.input? = some n := by
  have labels : streamsOf n = [(Wire.picture n).label, (Wire.sound n).label] := rfl
  rw [labels, List.mem_pair, Wire.labelInjective.eq_iff, Wire.labelInjective.eq_iff]
  cases w <;> simp [Wire.input?]

theorem streamsCounted (ws : List Wire) (n : Nat) :
    (ws.map Wire.label).countP (· ∈ streamsOf n) = (ws.filterMap Wire.input?).count n := by
  induction ws with
  | nil => rfl
  | cons w ws ih =>
    simp only [List.map_cons, List.countP_cons, ih, inStreamsOf, List.filterMap_cons]
    cases w.input? with
    | none => simp
    | some m => simp [List.count_cons]

theorem mappedCounted {label : Option String} {ends : List Wire} (mapped : Mapped label ends)
    (n : Nat) :
    label.toList.countP (· ∈ streamsOf n) = (ends.filterMap Wire.input?).count n := by
  cases mapped with
  | none => rfl
  | direct m => exact streamsCounted [.sound m] n
  | written =>
    have foreign : ∀ w : Wire, bracketed Wire.audio.label ≠ w.label := by
      intro w same
      apply w.labelBare.1
      rw [← same]
      decide
    have absent : bracketed Wire.audio.label ∉ streamsOf n := by
      intro inside
      rcases List.mem_pair.mp inside with same | same
      · exact foreign (.picture n) same
      · exact foreign (.sound n) same
    have silent : [Wire.audio].filterMap Wire.input? = [] := rfl
    simp [absent, silent]

theorem mappedWritten {label : Option String} {ends : List Wire} {w : Wire}
    (mapped : Mapped label ends) (audible : w ∈ ends) (inner : w.input? = none) :
    label = some (bracketed w.label) := by
  cases mapped with
  | none => cases audible
  | direct n =>
    cases List.mem_singleton.mp audible
    cases inner
  | written => rw [List.mem_singleton.mp audible]

theorem planWired {c : Composition ν} {p : Plan} (done : (plan c).outcome = .ok p) :
    Wired c p := by
  obtain ⟨video, paths, ⟨links, ends, joins, mapped, grown⟩, stacked⟩ := planGrown done
  have written := joinsProduced joins
  have labels : Function.Injective fun w : Wire => some w.label := fun _ _ same =>
    Wire.labelInjective (Option.some.inj same)
  refine ⟨paths, ?_, ?_, ?_, ?_, ?_, stacked⟩
  · intro before f after split label inside
    rw [split] at joins
    obtain ⟨earlier, l, later, rfl, joined, last⟩ := joinsSplit joins
    rw [last.1] at inside
    obtain ⟨w, reads, rfl⟩ := List.mem_map.mp inside
    rcases grown.ordered rfl reads with ⟨n, below, source⟩ | once
    · exact .inl ⟨n, below, inStreamsOf.mpr source⟩
    · have distinct := grown.distinct
      rw [List.map_append] at distinct
      exact .inr (producedOnce joined (List.nodup_append.mp distinct).1 once)
  · intro f inside
    have listed := List.mem_map_of_mem (f := produced?) inside
    rw [written] at listed
    obtain ⟨w, _, named⟩ := List.mem_map.mp listed
    simp [← named]
  · rw [written]
    exact grown.distinct.map labels
  · intro f inside label named unseen unheard
    have listed := List.mem_map_of_mem (f := produced?) inside
    rw [written, named] at listed
    obtain ⟨w, writes, same⟩ := List.mem_map.mp listed
    cases same
    have closed : w ∉ ends ++ [.video] := by
      intro kept
      rcases List.mem_append.mp kept with audible | visible
      · exact unheard (mappedWritten mapped audible (grown.written _ writes))
      · cases List.mem_singleton.mp visible
        exact unseen video
    rw [joinsConsumed joins, List.count_map_of_injective _ _ Wire.labelInjective]
    exact grown.readOnce writes closed
  · intro n below
    have once := grown.inputOnce below
    rw [List.filterMap_append, List.filterMap_append, List.count_append, List.count_append] at once
    rw [joinsConsumed joins, List.countP_append, streamsCounted, mappedCounted mapped]
    have visible : ([Wire.video].filterMap Wire.input?).count n = 0 := rfl
    omega

def mixedOverlays : Composition Scalar where
  base := ⟨0, ["base.mp4"]⟩
  overlays :=
    let placement := ⟨Number.ofInt 0, Number.ofInt 5, none, none, none⟩
    [.image ⟨⟨0, ["a.png"]⟩, placement, some 480, none, .contain⟩,
      .caption ⟨"Hello", placement, Number.ofInt 60, none, "white", none⟩,
      .image ⟨⟨0, ["b.png"]⟩, placement, none, none, .contain⟩]
  size := (1080, 1920)
  audio := some ⟨⟨0, ["music.mp3"]⟩, Number.ofInt 0, Number.ofInt 1⟩
  duration := some (Number.ofInt 10)
  fade := some ⟨Number.ofInt 1, Number.ofInt 1⟩
  still := some ⟨⟨0, ["end.png"]⟩, Number.ofInt 3, Number.ofInt 1, "black"⟩
  fps := some 30

theorem mixedOverlaysWired :
    ∃ p, (plan mixedOverlays).outcome = .ok p ∧ Wired mixedOverlays p := by
  have succeeds : (plan mixedOverlays).outcome.isOk = true := by rfl
  cases done : (plan mixedOverlays).outcome with
  | error e => simp [done, Except.isOk, Except.toBool] at succeeds
  | ok p => exact ⟨p, rfl, planWired done⟩

end OverlayMotion.Graph

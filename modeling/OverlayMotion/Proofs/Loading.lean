import OverlayMotion.Proofs.Legibility
import OverlayMotion.Proofs.Preparation

/-! When the formulas of a job are read. Preparing the job reads none of them. A preview and a
plan read them overlay by overlay, and while the numbers are bounded a formula that cannot be
read is the only thing that either of them can complain about. -/
namespace OverlayMotion
open Scalar (Within)

def Blames (sources : List String) (e : Expr.Error Scalar) : Prop :=
  ∃ source ∈ sources, ∃ reason,
    (Expr.parse source : Except Malformed (Expr Scalar)) = .error reason ∧
      e = .malformed reason source

def Decided {α : Type} (sources : List String) (x : Except Failure α) : Prop :=
  (Readable sources → ∃ a, x = .ok a) ∧
    (¬ Readable sources → ∃ e, Blames sources e ∧ x = .error (.formula e))

structure Job.Bounded (k : Nat) (job : Job) : Prop where
  numbers : ∀ v ∈ job.numbers, Within k v
  constants : ∀ source ∈ job.formulas, ∀ e, Expr.parse source = .ok e → Expr.Every (Within k) e

variable {sources : List String} {k : Nat} {o : Overlay Scalar}

theorem Job.Bounded.part {job : Job} (bounded : job.Bounded k) {α : Type} {part : Option α}
    {numbers : α → List Scalar} {written : List Scalar} {a : α} (given : a ∈ part)
    (kept : part.toList.flatMap numbers = written) (among : written ⊆ job.numbers) :
    ∀ v ∈ numbers a, Within k v := by
  intro v inside
  have listed : v ∈ part.toList.flatMap numbers :=
    List.mem_flatMap.mpr ⟨a, Option.mem_toList.mpr given, inside⟩
  exact bounded.numbers v (among (kept ▸ listed))

theorem Blames.mono {wider : List String} {e : Expr.Error Scalar} (blames : Blames sources e)
    (subset : sources ⊆ wider) : Blames wider e := by
  obtain ⟨source, inside, reason, failed, same⟩ := blames
  exact ⟨source, subset inside, reason, failed, same⟩

theorem unreadable (h : ¬ Readable sources) : ∃ source ∈ sources, ∃ reason,
    (Expr.parse source : Except Malformed (Expr Scalar)) = .error reason := by
  by_contra none
  refine h fun source inside => ?_
  cases parsed : (Expr.parse source : Except Malformed (Expr Scalar)) with
  | ok e => exact ⟨e, rfl⟩
  | error reason => exact absurd ⟨source, inside, reason, parsed⟩ none

def Coordinate.read (c : Option (Coordinate Scalar)) : List String :=
  c.toList.flatMap Coordinate.formulas

section
variable {c : Option (Coordinate Scalar)}

theorem restingReads {centered : Except Fault (Expr Scalar)} (middle : ∃ e, centered = .ok e)
    (h : Readable (Coordinate.read c)) :
    ∃ e, Motion.restingAt (c.map Coordinate.operand) centered = .ok e := by
  cases c with
  | none =>
    obtain ⟨e, built⟩ := middle
    exact ⟨e, by rw [Option.map_none, Motion.restingAt, built]; rfl⟩
  | some coordinate =>
    cases coordinate with
    | number v => exact ⟨.const v, rfl⟩
    | formula source =>
      obtain ⟨e, parsed⟩ := h source (by simp [Coordinate.read, Coordinate.formulas])
      exact ⟨e, congrArg (Except.mapError _) parsed⟩

theorem restingBlames (centered : Except Fault (Expr Scalar))
    (h : ¬ Readable (Coordinate.read c)) : ∃ e,
    Blames (Coordinate.read c) e ∧
      Motion.restingAt (c.map Coordinate.operand) centered = .error e := by
  obtain ⟨source, inside, reason, failed⟩ := unreadable h
  refine ⟨.malformed reason source, ⟨source, inside, reason, failed, rfl⟩, ?_⟩
  cases c with
  | none => cases inside
  | some coordinate =>
    cases coordinate with
    | number v => cases inside
    | formula given =>
      obtain rfl : source = given := by simpa [Coordinate.read, Coordinate.formulas] using inside
      exact congrArg (Except.mapError _) failed

end

theorem Motion.placementBlames {p : Placement Scalar} (isCaption : Bool)
    (h : ¬ Readable p.formulas) :
    ∃ e, Blames p.formulas e ∧ (ofPlacement p isCaption).outcome = .error e := by
  have split : p.formulas = Coordinate.read p.x ++ Coordinate.read p.y := List.flatMap_append
  -- The second coordinate is reached only past the first.
  by_cases first : Readable (Coordinate.read p.x)
  · have second : ¬ Readable (Coordinate.read p.y) := by
      intro readable
      refine h fun source inside => ?_
      rw [split, List.mem_append] at inside
      exact inside.elim (first source) (readable source)
    have middle : ∃ e, (symbolsFor isCaption).centeredX = (.ok e : Except Fault (Expr Scalar)) := by
      cases isCaption <;> exact ⟨_, rfl⟩
    obtain ⟨x, resting⟩ := restingReads middle first
    obtain ⟨e, blames, failed⟩ := restingBlames (symbolsFor isCaption).centeredY second
    refine ⟨e, blames.mono (split ▸ List.subset_append_right _ _), ?_⟩
    simp only [ofPlacement, ofWindow, ofOperands, Logged.bindOutcome, Logged.liftOutcome, resting,
      failed, okBind, errorBind]
  · obtain ⟨e, blames, failed⟩ := restingBlames (symbolsFor isCaption).centeredX first
    refine ⟨e, blames.mono (split ▸ List.subset_append_left _ _), ?_⟩
    simp only [ofPlacement, ofWindow, ofOperands, Logged.bindOutcome, Logged.liftOutcome, failed,
      errorBind]

theorem Preview.overlayBlames (h : ¬ Readable o.formulas) :
    ∃ e, Blames o.formulas e ∧ (ofOverlay o).outcome = .error e := by
  obtain ⟨e, blames, failed⟩ := Motion.placementBlames o.isCaption h
  refine ⟨e, blames, ?_⟩
  simp only [ofOverlay, Logged.bindOutcome, failed, errorBind]

theorem Graph.composeReads {stage next : Stage} (made : (compose stage o).outcome = .ok next) :
    Readable o.formulas := by
  by_contra h
  cases o with
  | image i =>
    obtain ⟨e, _, failed⟩ := Motion.placementBlames false h
    obtain ⟨chains, made, _⟩ := Logged.bindOk.mp made
    obtain ⟨scale, _, made⟩ := Logged.bindOk.mp made
    obtain ⟨motion, moved, _⟩ := Logged.bindOk.mp made
    cases failed.symm.trans moved
  | caption c =>
    obtain ⟨e, _, failed⟩ := Motion.placementBlames true h
    obtain ⟨_, _, made⟩ := Logged.bindOk.mp made
    obtain ⟨chain, made, _⟩ := Logged.bindOk.mp made
    obtain ⟨motion, moved, _⟩ := Logged.bindOk.mp made
    cases failed.symm.trans moved

theorem Graph.composeBlames (few : k ≤ 300) (bounded : o.Compilable ∅ k)
    (h : ¬ Readable o.formulas) (stage : Stage) :
    ∃ e, Blames o.formulas e ∧ (compose stage o).outcome = .error e := by
  cases o with
  | image i =>
    obtain ⟨e, blames, failed⟩ := Motion.placementBlames false h
    obtain ⟨scale, scaled⟩ := scaleHolds few bounded
    refine ⟨e, blames, ?_⟩
    simp only [compose, imageChains, Logged.bindOutcome, Logged.liftOutcome, scaled, okBind]
    rw [show (Motion.ofPlacement i.placement false).outcome = .error e from failed]
    rfl
  | caption c =>
    obtain ⟨e, blames, failed⟩ := Motion.placementBlames true h
    refine ⟨e, blames, ?_⟩
    simp only [compose, captionChain, Logged.bindOutcome, Logged.noteOutcome, okBind]
    rw [show (Motion.ofPlacement c.placement true).outcome = .error e from failed]
    rfl

section
variable {os : List (Overlay Scalar)}

theorem readableEach : Readable (os.flatMap Overlay.formulas) ↔ ∀ o ∈ os, Readable o.formulas := by
  constructor
  · intro readable o inside source given
    exact readable source (List.mem_flatMap.mpr ⟨o, inside, given⟩)
  · intro each source given
    obtain ⟨o, inside, given⟩ := List.mem_flatMap.mp given
    exact each o inside source given

theorem failsBlaming {ε α : Type} {Q : ε → Prop} {x : Except ε α} (h : ∃ e, Q e ∧ x = .error e) :
    FailsAs Q x := by
  obtain ⟨e, kind, failed⟩ := h
  intro e' failed'
  cases failed.symm.trans failed'
  exact kind

theorem blamesAmong (inside : o ∈ os) (e : Expr.Error Scalar) (h : Blames o.formulas e) :
    Blames (os.flatMap Overlay.formulas) e :=
  h.mono fun _ given => List.mem_flatMap.mpr ⟨o, inside, given⟩

theorem previewsRead {previews : List Preview}
    (made : (os.mapM Preview.ofOverlay).outcome = .ok previews) : ∀ o ∈ os, Readable o.formulas := by
  rw [Logged.eachOutcome, eachOk] at made
  induction made with
  | nil => simp
  | cons shown _ ih =>
    refine List.forall_mem_cons.mpr ⟨?_, ih⟩
    by_contra h
    obtain ⟨e, _, failed⟩ := Preview.overlayBlames h
    cases failed.symm.trans shown

theorem stagesRead {first last : Graph.Stage}
    (made : (os.foldlM Graph.compose first).outcome = .ok last) : ∀ o ∈ os, Readable o.formulas := by
  induction os generalizing first with
  | nil => simp
  | cons o os ih =>
    rw [List.foldlM_cons] at made
    obtain ⟨next, composed, rest⟩ := Logged.bindOk.mp made
    exact List.forall_mem_cons.mpr ⟨Graph.composeReads composed, ih rest⟩

section
variable (few : k ≤ 300) (bounded : ∀ o ∈ os, o.Compilable ∅ k)
include few bounded

theorem previewsBlame :
    FailsAs (Blames (os.flatMap Overlay.formulas)) (os.mapM Preview.ofOverlay).outcome := by
  rw [Logged.eachOutcome]
  refine FailsAs.each fun o inside => ?_
  by_cases readable : Readable o.formulas
  · obtain ⟨p, shown, _⟩ := Preview.ofOverlayHolds few (bounded o inside) (by simp) readable
    rw [shown]
    exact FailsAs.ok
  · exact fun e failed => blamesAmong inside e (failsBlaming (Preview.overlayBlames readable) e failed)

theorem stagesBlame (first : Graph.Stage) :
    FailsAs (Blames (os.flatMap Overlay.formulas)) (os.foldlM Graph.compose first).outcome := by
  refine FailsAs.fold (fun o inside stage => ?_) first
  by_cases readable : Readable o.formulas
  · obtain ⟨next, made⟩ := Graph.composeHolds few (bounded o inside) readable stage
    rw [made]
    exact FailsAs.ok
  · exact fun e failed => blamesAmong inside e
      (failsBlaming (Graph.composeBlames few (bounded o inside) readable stage) e failed)

end

end

theorem Graph.planBlames {c : Composition Scalar} (few : k ≤ 300) (h : c.Plannable k) :
    FailsAs (Blames (c.overlays.flatMap Overlay.formulas)) (Graph.plan c).outcome := by
  by_cases readable : ∀ o ∈ c.overlays, Readable o.formulas
  · obtain ⟨plan, planned⟩ := planHolds few h readable
    rw [planned]
    exact FailsAs.ok
  · intro e failed
    rw [Graph.plan, Logged.bindOutcome] at failed
    cases staged : (c.overlays.foldlM compose Stage.first).outcome with
    | ok last => exact absurd (stagesRead staged) readable
    | error e' =>
      rw [staged, errorBind] at failed
      cases failed
      exact stagesBlame few h.overlays .first _ staged

theorem Graph.planReads {c : Composition Scalar} {plan : Plan}
    (planned : (Graph.plan c).outcome = .ok plan) : ∀ o ∈ c.overlays, Readable o.formulas := by
  obtain ⟨last, staged, _⟩ := Logged.bindOk.mp planned
  exact stagesRead staged

theorem decided {α : Type} {x : Except (Expr.Error Scalar) α}
    (succeeds : Readable sources → ∃ a, x = .ok a) (blames : FailsAs (Blames sources) x)
    (reads : ∀ a, x = .ok a → Readable sources) : Decided sources (x.mapError .formula) := by
  constructor
  · intro readable
    obtain ⟨a, result⟩ := succeeds readable
    exact ⟨a, mapErrorOk.mpr result⟩
  · intro unread
    cases result : x with
    | ok a => exact absurd (reads a result) unread
    | error e => exact ⟨e, blames e result, rfl⟩

def KeepsHomes {ε α : Type} (x : Session ε α) : Prop := ∀ h, (x h).2.homes = h.homes

theorem KeepsHomes.bind {ε α β : Type} {x : Session ε α} {f : α → Session ε β}
    (first : KeepsHomes x) (next : ∀ a, KeepsHomes (f a)) : KeepsHomes (x >>= f) := by
  intro h
  have kept := first h
  simp only [Bind.bind]
  cases known : x h with
  | mk outcome after =>
    rw [known] at kept
    cases outcome with
    | error e => exact kept
    | ok a => exact (next a after).trans kept

namespace Rendering

def measured? (r : Rendering) (h : Host) (base : Path) : Option Scalar :=
  match r.job.duration with
  | some seconds => some seconds
  | none =>
    if r.job.needsDuration then (probeDuration r.encoding.ffprobe base h).1.toOption.map .float
    else none

def measure (r : Rendering) : Session Failure (Option Scalar) :=
  if r.job.needsDuration then r.baseDuration else pure r.job.duration

theorem probeHomes (binary : String) (video : Path) : KeepsHomes (probeDuration binary video) := by
  intro h
  have started : (probeDuration binary video h).2 = (h.start (probeCommand binary video)).2 := rfl
  rw [started, Host.start]
  split <;> rfl

theorem measureHomes (r : Rendering) : KeepsHomes r.measure := by
  unfold measure
  split
  · unfold baseDuration
    split
    · exact fun h => rfl
    · refine KeepsHomes.bind (fun h => rfl) fun host => KeepsHomes.bind (fun h => rfl) fun base => ?_
      refine KeepsHomes.bind (probeHomes _ base) fun outcome => ?_
      split <;> exact fun h => rfl
  · exact fun h => rfl

theorem measureOutcome (r : Rendering) (h : Host) :
    (∃ e, r.job.baseVideoPath h.homes = .error e ∧ (r.measure h).1 = .error e) ∨
      ∃ d, (r.measure h).1 = .ok d ∧
        ∀ base, r.job.baseVideoPath h.homes = .ok base → d = r.measured? h base := by
  cases known : r.job.duration with
  | some seconds =>
    right
    refine ⟨some seconds, ?_, fun base _ => by simp only [measured?, known]⟩
    simp only [measure, baseDuration, known]
    split <;> rfl
  | none =>
    by_cases needed : r.job.needsDuration
    · simp only [measure, if_pos needed, baseDuration, known, Session.bindOutcome, Session.host,
        Session.liftOutcome, okBind]
      cases located : r.job.baseVideoPath h.homes with
      | error e => exact .inl ⟨e, rfl, rfl⟩
      | ok base =>
        right
        have told : ((probeDuration r.encoding.ffprobe base).attempt h :
            Except Failure (Except ToolError Float) × Host).1 =
              .ok (probeDuration r.encoding.ffprobe base h).1 := rfl
        refine ⟨r.measured? h base, ?_, fun _ same => Except.ok.inj same ▸ rfl⟩
        simp only [told, okBind, measured?, known, if_pos needed]
        cases (probeDuration r.encoding.ffprobe base h).1 <;> rfl
    · right
      refine ⟨none, ?_, fun base _ => by simp only [measured?, known, if_neg needed]⟩
      simp only [measure, if_neg needed, known]
      rfl

theorem planSteps (r : Rendering) : r.plan = (do
    let duration ← r.measure
    let base ← r.job.baseVideoPath (← Session.host).homes
    (Session.ofLogged (Graph.plan (r.composition base duration))).mapError .formula) := by
  unfold plan measure
  split <;> rfl

theorem planOutcome (r : Rendering) (h : Host) :
    (r.plan h).1 = (r.job.baseVideoPath h.homes >>= fun base =>
      (Graph.plan (r.composition base (r.measured? h base))).outcome.mapError .formula) := by
  have unfolded : (r.plan h).1 = ((r.measure h).1 >>= fun duration =>
      r.job.baseVideoPath (r.measure h).2.homes >>= fun base =>
        (Graph.plan (r.composition base duration)).outcome.mapError .formula) := by
    simp only [planSteps, Session.bindOutcome, Session.host, Session.liftOutcome, okBind]
    rfl
  rw [unfolded, r.measureHomes h]
  obtain ⟨e, located, failed⟩ | ⟨d, measured, known⟩ := r.measureOutcome h
  · rw [located, failed]
    rfl
  · rw [measured, okBind]
    cases located : r.job.baseVideoPath h.homes with
    | error e => rfl
    | ok base => rw [okBind, okBind, known base located]

section
variable {job : Job} {r : Rendering}

theorem Keeps.compilable (kept : r.Keeps job) (bounded : job.Bounded k) :
    ∀ o ∈ r.overlays, o.Compilable ∅ k := by
  intro o inside
  refine ⟨fun v given => bounded.numbers v (kept.numberAmong inside given), ?_, by simp⟩
  exact fun source given => ⟨rfl, bounded.constants source (kept.formulaAmong inside given)⟩

theorem Keeps.plannable (kept : r.Keeps job) (bounded : job.Bounded k) (base : Path)
    {duration : Option Scalar} (measured : ∀ d ∈ duration, Within k d) :
    (r.composition base duration).Plannable k where
  overlays := kept.compilable bounded
  duration := measured
  audio a given := by
    have numbers := bounded.part given kept.audio fun v inside => by
      simp only [Job.numbers, List.mem_append, inside, or_true, true_or]
    exact ⟨numbers _ (by simp), numbers _ (by simp)⟩
  fade f given := by
    have numbers := bounded.part given kept.fade fun v inside => by
      simp only [Job.numbers, List.mem_append, inside, or_true, true_or]
    exact ⟨numbers _ (by simp), numbers _ (by simp)⟩
  still s given := by
    have numbers := bounded.part given kept.still fun v inside => by
      simp only [Job.numbers, List.mem_append, inside, or_true]
    exact ⟨numbers _ (by simp), numbers _ (by simp)⟩

theorem Keeps.measuredWithin (kept : r.Keeps job) (bounded : job.Bounded k) {h : Host} {base : Path}
    (probed : ∀ seconds, (probeDuration r.encoding.ffprobe base h).1 = .ok seconds →
      Within k (.float seconds)) : ∀ d ∈ r.measured? h base, Within k d := by
  intro d given
  unfold measured? at given
  split at given
  · rename_i seconds known
    cases given
    rw [kept.source] at known
    exact bounded.numbers _ (by simp [Job.numbers, known])
  · split at given
    · obtain ⟨seconds, told, rfl⟩ := Option.map_eq_some_iff.mp given
      refine probed seconds ?_
      cases result : (probeDuration r.encoding.ffprobe base h).1 with
      | error e => simp [result, Except.toOption] at told
      | ok x => simpa [result, Except.toOption] using told
    · cases given

end

theorem previewDecided {job : Job} {r : Rendering} (few : k ≤ 300) (kept : r.Keeps job)
    (bounded : job.Bounded k) (h : Host) : Decided job.formulas (r.preview h).1 := by
  have compilable := kept.compilable bounded
  rw [← kept.formulas]
  refine decided (fun readable => ?_) (previewsBlame few compilable) fun previews shown =>
    readableEach.mpr (previewsRead shown)
  obtain ⟨previews, shown, _⟩ := eachMade (f := fun o => (Preview.ofOverlay o).outcome)
    (P := fun _ _ => True) fun o inside => by
      obtain ⟨p, made, _⟩ := Preview.ofOverlayHolds few (compilable o inside) (by simp)
        (readableEach.mp readable o inside)
      exact ⟨p, made, trivial⟩
  exact ⟨previews, by rw [Logged.eachOutcome]; exact shown⟩

theorem planDecided {job : Job} {r : Rendering} (few : k ≤ 300) (kept : r.Keeps job)
    (bounded : job.Bounded k) {h : Host} {base : Path}
    (located : job.baseVideoPath h.homes = .ok base)
    (probed : ∀ seconds, (probeDuration r.encoding.ffprobe base h).1 = .ok seconds →
      Within k (.float seconds)) : Decided job.formulas (r.plan h).1 := by
  have plannable := kept.plannable bounded base (kept.measuredWithin bounded probed)
  rw [planOutcome, kept.source, located, okBind, ← kept.formulas]
  exact decided (fun readable => Graph.planHolds few plannable (readableEach.mp readable))
    (Graph.planBlames few plannable) fun plan planned => readableEach.mpr (Graph.planReads planned)

/-- Preparing a job never complains about a formula. Where one of its formulas cannot be read
neither a preview nor a plan is made; with bounded numbers that is the one complaint there is. -/
theorem formulasReadLate (job : Job) (s : Settings) (values : Entries String) (host : Host) :
    (∀ e, (prepare job s values host).1 ≠ .error (.formula e)) ∧
      ∀ r, (prepare job s values host).1 = .ok r → ∀ h : Host,
        (¬ Readable job.formulas →
          (∀ previews, (r.preview h).1 ≠ .ok previews) ∧ ∀ plan, (r.plan h).1 ≠ .ok plan) ∧
        (job.Bounded 300 →
          Decided job.formulas (r.preview h).1 ∧
          ∀ base, job.baseVideoPath h.homes = .ok base →
            (∀ seconds, (probeDuration r.encoding.ffprobe base h).1 = .ok seconds →
              Within 300 (.float seconds)) →
            Decided job.formulas (r.plan h).1) := by
  refine ⟨fun e failed => prepareUnformulated job s values host _ failed e rfl, ?_⟩
  intro r prepared h
  have kept := preparedKeeps prepared
  refine ⟨fun unread => ⟨fun previews shown => ?_, fun plan planned => ?_⟩, fun bounded => ?_⟩
  · rw [← kept.formulas, readableEach] at unread
    exact unread (previewsRead (mapErrorOk.mp shown))
  · rw [← kept.formulas, readableEach] at unread
    rw [planOutcome] at planned
    obtain ⟨base, _, planned⟩ := bindOk.mp planned
    exact unread (Graph.planReads (mapErrorOk.mp planned))
  · exact ⟨previewDecided le_rfl kept bounded h, fun base located probed =>
      planDecided le_rfl kept bounded located probed⟩

theorem dollarSignReadLate :
    let job (source : String) : Job :=
      { baseVideo := "base.mp4", duration := some (.int 10), output := Job.noOutput, images := []
        captions := [⟨"Hello", .int 0, .int 5, .int 60, none, "white", some (.formula source), none,
          none, none⟩]
        audio := none, fade := none, still := none, values := [], directory := none }
    let host : Host := ⟨.empty, [], fun _ => none, [], [], []⟩
    (∃ r, (prepare (job "$") .standard [] host).1 = .ok r ∧
      (r.preview host).1 = .error (.formula (.malformed (.character 0) "$")) ∧
      (r.plan host).1 = .error (.formula (.malformed (.character 0) "$"))) ∧
    ∃ r, (prepare (job "t") .standard [] host).1 = .ok r ∧
      (∃ previews, (r.preview host).1 = .ok previews) ∧ ∃ plan, (r.plan host).1 = .ok plan := by
  intro job host
  have unread : (Expr.parse "$" : Except Malformed (Expr Scalar)) = .error (.character 0) := rfl
  have read : (Expr.parse "t" : Except Malformed (Expr Scalar)) = .ok .time := rfl
  have small (n : Nat) (few : n ≤ 2 ^ 6) : Within 300 (.int n) :=
    (Within.ofNat few).mono (by omega)
  have bounded (source : String) (constants : ∀ e, Expr.parse source = .ok e →
      Expr.Every (Within 300) e) : (job source).Bounded 300 := by
    constructor
    · change ∀ v ∈ [Scalar.int 10, .int 0, .int 5, .int 60], Within 300 v
      simp only [List.forall_mem_cons, List.not_mem_nil, false_implies, implies_true, and_true]
      exact ⟨small 10 (by omega), small 0 (by omega), small 5 (by omega), small 60 (by omega)⟩
    · intro given inside
      obtain rfl : given = source := List.mem_singleton.mp inside
      exact constants
  have home : (Path.ofString "base.mp4").resolveHome (fun _ => none) =
      .ok (Path.ofString "base.mp4") := by rfl
  have located (source : String) :
      (job source).baseVideoPath host.homes = .ok (Path.ofString "base.mp4") := by
    change ((Path.ofString "base.mp4").resolveHome (fun _ => none) >>= fun path => .ok path) = _
    rw [home, okBind]
  have prepared (source : String) : ∃ r, (prepare (job source) .standard [] host).1 = .ok r := by
    exact ⟨_, rfl⟩
  have silent (r : Rendering) (seconds : Float)
      (told : (probeDuration r.encoding.ffprobe (Path.ofString "base.mp4") host).1 = .ok seconds) :
      Within 300 (.float seconds) := by cases told
  constructor
  · obtain ⟨r, ready⟩ := prepared "$"
    obtain ⟨_, decides⟩ := (formulasReadLate (job "$") .standard [] host).2 r ready host
    obtain ⟨preview, plan⟩ := decides (bounded "$" fun e parsed => by cases unread.symm.trans parsed)
    have malformed : ¬ Readable (job "$").formulas := by
      intro readable
      obtain ⟨e, parsed⟩ := readable "$" (List.mem_singleton_self _)
      cases unread.symm.trans parsed
    have only {e : Expr.Error Scalar} (blames : Blames (job "$").formulas e) :
        e = .malformed (.character 0) "$" := by
      obtain ⟨source, inside, reason, failed, rfl⟩ := blames
      obtain rfl : source = "$" := List.mem_singleton.mp inside
      cases unread.symm.trans failed
      rfl
    obtain ⟨e, blames, previewed⟩ := preview.2 malformed
    obtain ⟨e', blames', planned⟩ := (plan _ (located "$") (silent r)).2 malformed
    exact ⟨r, ready, only blames ▸ previewed, only blames' ▸ planned⟩
  · obtain ⟨r, ready⟩ := prepared "t"
    obtain ⟨_, decides⟩ := (formulasReadLate (job "t") .standard [] host).2 r ready host
    obtain ⟨preview, plan⟩ := decides (bounded "t" fun e parsed => by
      cases read.symm.trans parsed
      trivial)
    have readable : Readable (job "t").formulas := by
      intro source inside
      obtain rfl : source = "t" := List.mem_singleton.mp inside
      exact ⟨_, read⟩
    exact ⟨r, ready, preview.1 readable, (plan _ (located "t") (silent r)).1 readable⟩

end Rendering

end OverlayMotion

import OverlayMotion.Proofs.Probing
import OverlayMotion.Proofs.ShellLine

/-! What a run starts and what it tells. Once its command is built, a run ends with a report,
whatever the programs do: the command it tells is the one that it starts, or would have started. -/
namespace OverlayMotion

def Host.ending (h : Host) (others : Nat) : ProcessOutcome := h.outcomes.getD others .missing

theorem Started.next {programs : List (List String)} {h after : Host}
    (started : Started programs h after) : after.next = h.ending programs.length := by
  rw [Host.next, started.outcomes, Host.ending, List.headD_eq_head?_getD, List.head?_drop,
    List.getD_eq_getElem?_getD]

namespace Session
variable {ε δ α β : Type}

theorem finished {x : Session ε α} {h : Host} {a : α} (ok : (x h).1 = .ok a) :
    x h = (.ok a, (x h).2) := Prod.ext ok rfl

theorem thenOk {x : Session ε α} {f : α → Session ε β} {h after : Host} {a : α}
    (done : x h = (.ok a, after)) : (x >>= f) h = f a after := by simp only [bind, done]

theorem attemptThen (x : Session δ α) (f : Except δ α → Session ε β) (h : Host) :
    (x.attempt >>= f) h = f (x h).1 (x h).2 := rfl

end Session

namespace Command

def complaint? : Except ToolError Finished → Option ToolError
  | .ok _ => none
  | .error e => some e

theorem judgedWell {c : Command} {ending : ProcessOutcome} :
    complaint? (c.judge ending) = none ↔ ∃ stdout stderr, ending = .ended 0 stdout stderr := by
  cases ending with
  | missing => simp [judge, complaint?]
  | ended code stdout stderr => by_cases well : code = 0 <;> simp [judge, complaint?, well]

theorem runOutcome (c : Command) (h : Host) : (c.run h).1 = c.judge h.next := by
  rw [run, Session.bindOutcome, Session.note, Session.ofLogged, Session.bindOutcome]
  change ((Session.start c.arguments >>= fun outcome => liftM (c.judge outcome)) _).1 = _
  rw [Session.bindOutcome, Session.startOutcome]
  rfl

theorem runStarts (c : Command) (h : Host) : Started [c.arguments] h (c.run h).2 := by
  have started := Session.startedThen (f := fun ending => liftM (c.judge ending))
    (Session.startStarts (ε := ToolError) c.arguments
      { h with
        notices := h.notices ++ [.renderStarted c.output.toString] ++ [.commandIssued c.line] })
    fun ending => Session.quietExcept (c.judge ending)
  exact ⟨started.commands, started.outcomes, started.files⟩

end Command

namespace Rendering
variable {r : Rendering} {output : Path} {h : Host} {c : Command}

theorem commandOk :
    (r.command output h).1 = .ok c ↔ ∃ p, (r.plan h).1 = .ok p ∧ r.encode output p = c := by
  rw [command, Session.bindOutcome, bindOk]
  refine exists_congr fun p => and_congr_right fun _ => ?_
  exact ⟨Except.ok.inj, congrArg _⟩

theorem encoded (r : Rendering) (output : Path) (p : Graph.Plan) : r.encode output p =
    ⟨r.encoding.ffmpeg, output, p.inputs, p.graph, [p.video, p.audio.getD "0:a?"],
      (if p.audio.isSome then [("shortest", "")] else []) ++
        [("c:v", "libx264"), ("crf", toString r.encoding.crf), ("preset", r.encoding.preset),
          ("pix_fmt", "yuv420p"), ("r", toString r.encoding.fps), ("c:a", "aac"),
          ("movflags", "+faststart")]⟩ := by
  unfold encode Command.usePlan
  cases p.audio <;> rfl

theorem commandStarts (r : Rendering) (output : Path) (h : Host) :
    Started (r.probes h.homes) h (r.command output h).2 :=
  Session.startedThen (r.planStarts h) fun _ => Session.quietPure _

theorem probesLocated {homes : String → Option Path} {base : Path}
    (located : r.job.baseVideoPath homes = .ok base) : r.probes homes =
      if r.job.duration = none ∧ r.job.FadesOut then [probeCommand r.encoding.ffprobe base]
      else [] := by
  simp only [probes, located, Option.isNone_iff_eq_none, Job.needsDurationIff]
  rfl

theorem planAlike {other : Host} (homes : other.homes = h.homes)
    (ending : r.probes h.homes ≠ [] → other.next = h.next) : (r.plan other).1 = (r.plan h).1 := by
  rw [planOutcome, planOutcome, homes]
  refine bindCongr fun base located => ?_
  have measured : r.measured? other base = r.measured? h base := by
    cases known : r.job.duration with
    | some seconds => simp only [measured?, known]
    | none =>
      by_cases needed : r.job.needsDuration
      · have probed : r.probes h.homes ≠ [] := by
          rw [probesLocated located, if_pos ⟨known, r.job.needsDurationIff.mp needed⟩]
          exact List.cons_ne_nil _ _
        rw [measuredSeconds known needed, measuredSeconds known needed, ending probed]
      · simp only [measured?, known, if_neg needed]
  rw [measured]

def report (r : Rendering) (output : Path) (c : Command) (complaint : Option ToolError) :
    RunResult :=
  ⟨complaint.isNone, output, c.line, r.overlays.length, complaint.map ToolError.message⟩

def conclude (r : Rendering) (output : Path) (c : Command) :
    Except ToolError Command.Finished → Session Failure RunResult
  | .ok _ => do
    Session.note (.rendered output.toString)
    return r.report output c none
  | .error e => do
    Session.note (.renderFailed e.message)
    Session.note (.commandFailed e.commandLine)
    return r.report output c (some e)

theorem concludeOutcome (r : Rendering) (output : Path) (c : Command)
    (ending : Except ToolError Command.Finished) (h : Host) :
    (r.conclude output c ending h).1 = .ok (r.report output c (Command.complaint? ending)) := by
  cases ending <;> rfl

theorem concludeQuiet (r : Rendering) (output : Path) (c : Command)
    (ending : Except ToolError Command.Finished) : Session.Quiet (r.conclude output c ending) := by
  cases ending with
  | ok _ => exact (Session.quietLogged _).bind fun _ => Session.quietPure _
  | error e =>
    exact (Session.quietLogged _).bind fun _ => (Session.quietLogged _).bind fun _ =>
      Session.quietPure _

theorem runDry (built : (r.command output h).1 = .ok c) :
    r.run output true h = (.ok (r.report output c none), (r.command output h).2) :=
  Session.thenOk (Session.finished built)

theorem runReal {files : Files} (built : (r.command output h).1 = .ok c)
    (creatable : h.files.makeDirectory output.parent = .ok files) :
    r.run output false h = (c.run.attempt >>= r.conclude output c)
      { (r.command output h).2 with files := files } := by
  have made : makeDirectory output.parent (r.command output h).2 =
      (.ok (), { (r.command output h).2 with files := files }) := by
    simp only [makeDirectory, (r.commandStarts output h).files, creatable]
  have steps : r.run output false = (do
      let c ← r.command output
      makeDirectory output.parent
      c.run.attempt >>= r.conclude output c) := by
    unfold run
    refine bind_congr fun c => bind_congr fun _ => bind_congr fun ending => ?_
    cases ending <;> rfl
  rw [steps, Session.thenOk (Session.finished built), Session.thenOk made]

theorem runReported {files : Files} (built : (r.command output h).1 = .ok c)
    (creatable : h.files.makeDirectory output.parent = .ok files) (dryRun : Bool) :
    ∃ complaint, (r.run output dryRun h).1 = .ok (r.report output c complaint) ∧
      (r.run output dryRun h).2.commands =
        h.commands ++ r.probes h.homes ++ (if dryRun then [] else [c.arguments]) ∧
      (complaint = none ↔ dryRun = true ∨ ∃ stdout stderr,
        h.ending (r.probes h.homes).length = .ended 0 stdout stderr) := by
  have prepared := r.commandStarts output h
  cases dryRun with
  | true =>
    rw [runDry built]
    exact ⟨none, rfl, by simpa using prepared.commands, by simp⟩
  | false =>
    let ready : Host := { (r.command output h).2 with files := files }
    have ending : (c.run ready).1 = c.judge (h.ending (r.probes h.homes).length) := by
      rw [Command.runOutcome, ← prepared.next]
      rfl
    have started := (c.runStarts ready).trans (r.concludeQuiet output c (c.run ready).1 _)
    rw [runReal built creatable, Session.attemptThen, concludeOutcome, ending]
    refine ⟨_, rfl, ?_, by simp [Command.judgedWell]⟩
    rw [← ending, started.commands, List.append_nil]
    exact congrArg (· ++ [c.arguments]) prepared.commands

/-- A command was built, and the directory of its output can be made. Then a run ends with a
report. It measures the base video if something fades out and nobody said how long the base video
is, and unless it is a dry run it starts the command, which is the one that it tells. It fails if
that one was not found or did not end well. A dry run tells the same where measuring does. -/
theorem runTold {files : Files} (built : (r.command output h).1 = .ok c)
    (creatable : h.files.makeDirectory output.parent = .ok files) (dryRun : Bool) :
    ∃ base result, r.job.baseVideoPath h.homes = .ok base ∧
      (r.run output dryRun h).1 = .ok result ∧
      let measuring := if r.job.duration = none ∧ r.job.FadesOut then
        [probeCommand r.encoding.ffprobe base] else []
      (r.run output dryRun h).2.commands =
        h.commands ++ measuring ++ (if dryRun then [] else [c.arguments]) ∧
      c.arguments.head? = some r.encoding.ffmpeg ∧
      Text.shellWords? result.command = some c.arguments ∧
      (result.success = true ↔ dryRun = true ∨ ∃ stdout stderr,
        h.ending measuring.length = .ended 0 stdout stderr) ∧
      (result.error.isSome ↔ result.success = false) ∧
      ∀ other : Host, other.homes = h.homes → (measuring ≠ [] → other.next = h.next) →
        ∃ dry, (r.run output true other).1 = .ok dry ∧ dry.command = result.command := by
  obtain ⟨p, planned, rfl⟩ := commandOk.mp built
  obtain ⟨base, located, -⟩ := bindOk.mp (r.planOutcome h ▸ planned)
  obtain ⟨complaint, reported, started, well⟩ := runReported built creatable dryRun
  rw [probesLocated located] at started well
  refine ⟨base, _, located, reported, started,
    ?_, Text.shellLineRead _, ?_, ?_, ?_⟩
  · rw [encoded]
    rfl
  · exact Option.isNone_iff_eq_none.trans well
  · cases complaint <;> simp [report]
  · intro other homes ending
    have alike := planAlike homes (probesLocated located ▸ ending)
    have again : (r.command output other).1 = .ok (r.encode output p) :=
      commandOk.mpr ⟨p, alike.trans planned, rfl⟩
    exact ⟨_, congrArg Prod.fst (runDry again), rfl⟩

theorem quietEndingTold :
    let host : Host := ⟨.empty, [], fun _ => none,
      [.ended 0 "15\n" "", .ended 1 "" "Conversion failed!"], [], []⟩
    let output := Path.ofString "out/video.mp4"
    ∃ r c base files result, (prepare quietEnding .standard [] host).1 = .ok r ∧
      (r.command output host).1 = .ok c ∧
      host.files.makeDirectory output.parent = .ok files ∧
      (r.run output false host).1 = .ok result ∧ result.success = false ∧
      (r.run output false host).2.commands =
        [probeCommand r.encoding.ffprobe base, c.arguments] ∧
      Text.shellWords? result.command = some c.arguments := by
  intro host output
  have fades : quietEnding.FadesOut := .inl ⟨_, rfl, by decide +kernel⟩
  have succeeds : (prepare quietEnding .standard [] host).1.isOk = true ∧
      ∀ r, (prepare quietEnding .standard [] host).1 = .ok r →
        (r.command output host).1.isOk = true := by decide +kernel
  obtain ⟨r, prepared⟩ := succeeded succeeds.1
  obtain ⟨c, built⟩ := succeeded (succeeds.2 r prepared)
  have source : r.job = quietEnding := (prepareOk.mp prepared).1
  have measures : r.job.duration = none ∧ r.job.FadesOut := source ▸ ⟨rfl, fades⟩
  obtain ⟨base, result, -, ran, started, -, told, well, -, -⟩ := runTold built rfl false
  rw [if_pos measures] at started well
  refine ⟨r, c, base, _, result, prepared, built, rfl, ran, ?_, started, told⟩
  have failed : ¬ result.success = true := by
    rw [well]
    simp [Host.ending, host]
  exact Bool.eq_false_iff.mpr failed

end Rendering

end OverlayMotion

import OverlayMotion.Proofs.Parts
import OverlayMotion.Proofs.Processes

/-! Measured lengths. A base video that is measured is planned for as if the job had said its
length, and one that cannot be measured as if nothing faded out. Where nothing does, no program
is started to find out. -/
namespace OverlayMotion

namespace Graph
variable {ν : Type} [Number ν]

def Composition.fadingOut (c : Composition ν) (sound picture : ν) : Composition ν :=
  { c with
    audio := c.audio.map fun a => { a with fadeOut := sound }
    fade := c.fade.map fun f => { f with fadeOut := picture } }

theorem fadesUnknown (filter : String) (fadeIn fadeOut : ν) (skipped : Notice ν) :
    (fadeFilters filter fadeIn fadeOut none skipped).outcome = fadeInFilters filter fadeIn := by
  rw [fadeFilters, Logged.bindOutcome, Logged.liftOutcome]
  cases fadeInFilters filter fadeIn with
  | error e => rfl
  | ok entering =>
    rw [okBind]
    split <;> rfl

theorem pictureUnknown {c : Composition ν} (unknown : c.duration = none) (sound picture : ν) :
    (pictureFades (c.fadingOut sound picture)).outcome = (pictureFades c).outcome := by
  cases given : c.fade with
  | none => simp [pictureFades, Composition.fadingOut, given]
  | some fade => simp [pictureFades, Composition.fadingOut, given, unknown, fadesUnknown]

theorem soundUnknown (audio : Option (Audio ν)) (index : Nat) (fadeOut : ν) :
    (finishSound (audio.map fun a => { a with fadeOut := fadeOut }) index none).outcome =
      (finishSound audio index none).outcome := by
  cases audio with
  | none => rfl
  | some a => simp [finishSound, finishAudio, Logged.bindOutcome, fadesUnknown]

theorem totalUnknown {c : Composition ν} (unknown : c.duration = none) : c.total = .ok none := by
  cases given : c.still <;> simp [Composition.total, given, unknown]

theorem planUnknown {c : Composition ν} (unknown : c.duration = none) (sound picture : ν) :
    (plan (c.fadingOut sound picture)).outcome = (plan c).outcome := by
  simp only [plan, Logged.bindOutcome]
  refine bindCongr fun stage _ => ?_
  rw [pictureUnknown unknown]
  refine bindCongr fun fades _ => bindCongr fun finished done => ?_
  obtain ⟨chains, inputs, total⟩ := finished
  have unsummed : total = none := by
    have totalled := (pictureParts done).1
    rw [totalUnknown (c := c.fadingOut sound picture) unknown] at totalled
    exact (Except.ok.inj totalled).symm
  subst unsummed
  simp only [Composition.fadingOut, soundUnknown]

end Graph

namespace Job

def FadesOut (job : Job) : Prop :=
  (∃ e ∈ job.audio, Number.isPositive e.fadeOut) ∨ ∃ e ∈ job.fade, Number.isPositive e.fadeOut

theorem needsDurationIff (job : Job) : job.needsDuration = true ↔ job.FadesOut := by
  simp [needsDuration, FadesOut, Option.any_eq_true]

instance (job : Job) : Decidable job.FadesOut := decidable_of_iff _ job.needsDurationIff

def lasting (job : Job) (seconds : Float) : Job := { job with duration := some (.float seconds) }

def stayingOn (job : Job) : Job :=
  { job with
    audio := job.audio.map fun e => { e with fadeOut := noSeconds }
    fade := job.fade.map fun e => { e with fadeOut := noSeconds } }

end Job

theorem Job.stayingOnIdle (job : Job) : job.stayingOn.needsDuration = false := by
  have idle : Number.isPositive noSeconds = false := by decide +kernel
  cases sound : job.audio <;> cases picture : job.fade <;>
    simp [needsDuration, stayingOn, sound, picture, idle]

theorem fadesStayOn {fadeIn fadeOut : Scalar} {done : Unit}
    (passed : accept (firstRejection [fadeRule "fade_in" fadeIn, fadeRule "fade_out" fadeOut]) =
      .ok done) :
    accept (firstRejection [fadeRule "fade_in" fadeIn, fadeRule "fade_out" Job.noSeconds]) =
      .ok () := by
  rw [acceptOk, firstRejectionNone] at passed ⊢
  exact List.forall_mem_cons.mpr ⟨passed _ List.mem_cons_self,
    List.forall_mem_singleton.mpr (by decide +kernel)⟩

theorem Job.audioStaysOn {job : Job} {homes : String → Option Path} {audio : Option (Audio Scalar)}
    (made : job.audioTrack homes = .ok audio) : job.stayingOn.audioTrack homes =
      .ok (audio.map fun a => { a with fadeOut := noSeconds }) := by
  unfold audioTrack at made ⊢
  rw [optionOk] at made ⊢
  change Option.Rel _ (job.audio.map _) _
  generalize job.audio = entry at made ⊢
  cases made with
  | none => exact .none
  | some made =>
    refine .some ?_
    obtain ⟨path, located, made⟩ := bindOk.mp made
    obtain ⟨_, accepted, same⟩ := bindOk.mp (mapErrorOk.mp made)
    cases same
    exact bindOk.mpr ⟨path, located, mapErrorOk.mpr (bindOk.mpr ⟨(), fadesStayOn accepted, rfl⟩)⟩

theorem Job.pictureStaysOn {job : Job} {fade : Option (PictureFade Scalar)}
    (made : job.pictureFade = .ok fade) : job.stayingOn.pictureFade =
      .ok (fade.map fun f => { f with fadeOut := noSeconds }) := by
  unfold pictureFade at made ⊢
  rw [optionOk] at made ⊢
  change Option.Rel _ (job.fade.map _) _
  generalize job.fade = entry at made ⊢
  cases made with
  | none => exact .none
  | some made =>
    refine .some ?_
    obtain ⟨_, accepted, same⟩ := bindOk.mp (mapErrorOk.mp made)
    cases same
    exact mapErrorOk.mpr (bindOk.mpr ⟨(), fadesStayOn accepted, rfl⟩)

namespace Rendering

def lasting (r : Rendering) (seconds : Float) : Rendering :=
  { r with job := r.job.lasting seconds }

def stayingOn (r : Rendering) : Rendering :=
  { r with
    job := r.job.stayingOn
    audio := r.audio.map fun a => { a with fadeOut := Job.noSeconds }
    fade := r.fade.map fun f => { f with fadeOut := Job.noSeconds } }

variable {job : Job} {s : Settings} {values : Entries String} {first : Host} {r : Rendering}

theorem prepareLasting (prepared : (prepare job s values first).1 = .ok r) (seconds : Float) :
    (prepare (job.lasting seconds) s values first).1 = .ok (r.lasting seconds) := by
  obtain ⟨rfl, encoded, made, audible, faded, stilled⟩ := prepareOk.mp prepared
  exact prepareOk.mpr ⟨rfl, encoded, made, audible, faded, stilled⟩

theorem prepareStayingOn (prepared : (prepare job s values first).1 = .ok r) :
    (prepare job.stayingOn s values first).1 = .ok r.stayingOn := by
  obtain ⟨rfl, encoded, made, audible, faded, stilled⟩ := prepareOk.mp prepared
  exact prepareOk.mpr
    ⟨rfl, encoded, made, Job.audioStaysOn audible, Job.pictureStaysOn faded, stilled⟩

theorem measuredSeconds {r : Rendering} (undeclared : r.job.duration = none)
    (needed : r.job.needsDuration = true) (h : Host) (base : Path) :
    r.measured? h base = h.next.seconds?.map .float := by
  simp only [measured?, undeclared, needed, if_true, probeOutcome, readProbeSeconds]

theorem planLasting {r : Rendering} {h : Host} {seconds : Float}
    (undeclared : r.job.duration = none) (needed : r.job.needsDuration = true)
    (told : h.next.seconds? = some seconds) (outcomes : List ProcessOutcome) :
    ((r.lasting seconds).plan { h with outcomes := outcomes }).1 = (r.plan h).1 := by
  rw [planOutcome, planOutcome]
  refine bindCongr fun base _ => ?_
  rw [measuredSeconds undeclared needed, told]
  rfl

theorem planStayingOn {r : Rendering} {h : Host}
    (undeclared : r.job.duration = none) (needed : r.job.needsDuration = true)
    (silent : h.next.seconds? = none) (outcomes : List ProcessOutcome) :
    (r.stayingOn.plan { h with outcomes := outcomes }).1 = (r.plan h).1 := by
  rw [planOutcome, planOutcome]
  refine bindCongr fun base _ => ?_
  have unmeasured : r.stayingOn.measured? { h with outcomes := outcomes } base = none := by
    have idle : r.stayingOn.job.needsDuration = false := r.job.stayingOnIdle
    have unknown : r.stayingOn.job.duration = none := undeclared
    simp [measured?, unknown, idle]
  rw [measuredSeconds undeclared needed, silent, unmeasured]
  exact congrArg (Except.mapError _) (Graph.planUnknown (c := r.composition base none) rfl
    Job.noSeconds Job.noSeconds)

/-- A job does not say how long its base video is. Where it fades something out, a program is
asked: with an answer the plan is that of the job which says so, and without one that of the job
which never fades out, whatever programs would do for these. Otherwise no program is started. -/
theorem measuredAsDeclared (undeclared : job.duration = none)
    (prepared : (prepare job s values first).1 = .ok r) (h : Host) :
    (∀ video, (probeDuration r.encoding.ffprobe video h).1.toOption = h.next.seconds?) ∧
    (job.FadesOut →
      (∀ seconds, h.next.seconds? = some seconds → ∃ declared : Rendering,
        (prepare (job.lasting seconds) s values first).1 = .ok declared ∧
          ∀ outcomes, (declared.plan { h with outcomes := outcomes }).1 = (r.plan h).1) ∧
      (h.next.seconds? = none → ∃ staying : Rendering,
        (prepare job.stayingOn s values first).1 = .ok staying ∧
          ∀ outcomes, (staying.plan { h with outcomes := outcomes }).1 = (r.plan h).1)) ∧
    (¬ job.FadesOut → (r.plan h).2.commands = h.commands) := by
  have source : r.job = job := (prepareOk.mp prepared).1
  have unknown : r.job.duration = none := source ▸ undeclared
  have asked (video : Path) : (probeDuration r.encoding.ffprobe video h).1.toOption =
      h.next.seconds? := by rw [probeOutcome, readProbeSeconds]
  refine ⟨asked, fun fades => ⟨?_, ?_⟩, fun idle => ?_⟩
  · intro seconds told
    have needed : r.job.needsDuration = true := source ▸ job.needsDurationIff.mpr fades
    exact ⟨_, prepareLasting prepared seconds, planLasting unknown needed told⟩
  · intro silent
    have needed : r.job.needsDuration = true := source ▸ job.needsDurationIff.mpr fades
    exact ⟨_, prepareStayingOn prepared, planStayingOn unknown needed silent⟩
  · have unneeded : r.probes h.homes = [] := by
      rw [← job.needsDurationIff, ← source] at idle
      simp [probes, idle]
    have started := r.planStarts h
    rw [unneeded] at started
    exact started.commands.trans (List.append_nil _)

def quietEnding : Job :=
  { baseVideo := "base.mp4", duration := none, output := Job.noOutput, images := [], captions := []
    audio := some ⟨"music.mp3", .float 0, .float 2⟩, fade := some ⟨.float 1, .float 1⟩
    still := some ⟨"end.png", .float 4, .float 1, "black"⟩, values := [], directory := none }

theorem quietEndingMeasured :
    let host (outcome : ProcessOutcome) : Host := ⟨.empty, [], fun _ => none, [outcome], [], []⟩
    let told := host (.ended 0 "15\n" "")
    let silent := host (.ended 0 "N/A\n" "")
    quietEnding.duration = none ∧ quietEnding.FadesOut ∧
      ∃ r, (prepare quietEnding .standard [] told).1 = .ok r ∧
        (r.plan told).1.isOk = true ∧ (r.plan silent).1.isOk = true ∧
        (∃ declared, (prepare (quietEnding.lasting 15) .standard [] told).1 = .ok declared ∧
          (declared.plan (host .missing)).1 = (r.plan told).1) ∧
        ∃ staying, (prepare quietEnding.stayingOn .standard [] told).1 = .ok staying ∧
          (staying.plan (host .missing)).1 = (r.plan silent).1 := by
  intro host told silent
  have fades : quietEnding.FadesOut := .inl ⟨_, rfl, by decide +kernel⟩
  have succeeds : (prepare quietEnding .standard [] told).1.isOk = true ∧
      ∀ r, (prepare quietEnding .standard [] told).1 = .ok r →
        (r.plan told).1.isOk = true ∧ (r.plan silent).1.isOk = true := by decide +kernel
  obtain ⟨r, prepared⟩ := succeeded succeeds.1
  obtain ⟨measured, unmeasured⟩ := succeeds.2 r prepared
  have answered : told.next.seconds? = some 15 := by decide +kernel
  have unanswered : silent.next.seconds? = none := by decide +kernel
  obtain ⟨-, whenTold, -⟩ := measuredAsDeclared rfl prepared told
  obtain ⟨declared, ready, alike⟩ := (whenTold fades).1 15 answered
  obtain ⟨-, whenSilent, -⟩ := measuredAsDeclared rfl prepared silent
  obtain ⟨staying, ready', alike'⟩ := (whenSilent fades).2 unanswered
  exact ⟨rfl, fades, r, prepared, measured, unmeasured,
    ⟨declared, ready, alike [.missing]⟩, staying, ready', alike' [.missing]⟩

end Rendering

end OverlayMotion

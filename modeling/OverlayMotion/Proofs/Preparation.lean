import OverlayMotion.Rendering.Preview
import OverlayMotion.Proofs.Quantities

/-! What the preparation of a job comes to. It asks the host for homes and files and reports
what it loads; beyond that it is a computation that can only fail before any formula is read. -/
namespace OverlayMotion

namespace Session
variable {ε α β : Type}

theorem bindOutcome (x : Session ε α) (f : α → Session ε β) (h : Host) :
    ((x >>= f) h).1 = (x h).1 >>= fun a => (f a (x h).2).1 := by
  simp only [bind]
  cases known : x h with
  | mk outcome after => cases outcome <;> rfl

@[simp] theorem liftOutcome (x : Except ε α) (h : Host) : (liftM x : Session ε α) h = (x, h) := rfl

@[simp] theorem ofExceptOutcome (x : Except ε α) (h : Host) : ofExcept x h = (x, h) := rfl

@[simp] theorem loggedOutcome (x : Logged Scalar ε α) (h : Host) :
    ((liftM x : Session ε α) h).1 = x.outcome := rfl

instance : LawfulMonad (Session ε) := by
  refine LawfulMonad.mk' _ ?_ (fun _ _ => rfl) ?_
  · intro α x
    funext h
    simp only [Functor.map]
    cases x h with
    | mk outcome after => cases outcome <;> rfl
  · intro α β γ x f g
    funext h
    simp only [bind]
    cases x h with
    | mk outcome after => cases outcome <;> rfl

theorem eachExcept (f : α → Except ε β) (xs : List α) (h : Host) :
    (xs.mapM fun x => (ofExcept (f x) : Session ε β)) h = (xs.mapM f, h) := by
  induction xs with
  | nil => rfl
  | cons x xs ih =>
    rw [List.mapM_cons, List.mapM_cons]
    simp only [bind, ofExcept] at ih ⊢
    cases f x with
    | error e => rfl
    | ok y =>
      simp only [ih]
      cases xs.mapM f <;> rfl

theorem notesOutcome (note : α → Notice Scalar) (xs : List α) (h : Host) :
    ((xs.forM fun x => (Session.note (note x) : Session ε Unit)) h).1 = .ok () := by
  induction xs generalizing h with
  | nil => rfl
  | cons x xs ih =>
    change ((Session.note (note x) >>= fun _ => xs.forM fun x => Session.note (note x)) h).1 = _
    rw [bindOutcome]
    exact ih _

end Session

theorem Rendering.prepareOutcome (job : Job) (s : Settings) (values : Entries String) (h : Host) :
    (prepare job s values h).1 = do
      let bare ← (job.overlays h.homes values).outcome
      let overlays ← bare.mapM (withFont s h)
      let audio ← job.audioTrack h.homes
      let fade ← job.pictureFade
      let still ← job.closingStill h.homes
      return ⟨job, .ofSettings s job.output, overlays, audio, fade, still⟩ := by
  simp only [prepare, Session.bindOutcome, Session.eachExcept, Session.notesOutcome,
    Session.liftOutcome, Session.loggedOutcome, okBind]
  rfl

theorem Rendering.prepareOk {job : Job} {s : Settings} {values : Entries String} {h : Host}
    {r : Rendering} : (prepare job s values h).1 = .ok r ↔
      r.job = job ∧ r.encoding = .ofSettings s job.output ∧
      (∃ bare, (job.overlays h.homes values).outcome = .ok bare ∧
        bare.mapM (withFont s h) = .ok r.overlays) ∧
      job.audioTrack h.homes = .ok r.audio ∧ job.pictureFade = .ok r.fade ∧
      job.closingStill h.homes = .ok r.still := by
  rw [prepareOutcome]
  simp only [bindOk, pureIsOk]
  constructor
  · rintro ⟨bare, made, overlays, fonted, audio, audible, fade, faded, still, stilled, same⟩
    cases same
    exact ⟨rfl, rfl, ⟨bare, made, fonted⟩, audible, faded, stilled⟩
  · rintro ⟨rfl, encoded, ⟨bare, made, fonted⟩, audible, faded, stilled⟩
    exact ⟨bare, made, _, fonted, _, audible, _, faded, _, stilled, by rw [← encoded]⟩

structure Rendering.Keeps (job : Job) (r : Rendering) : Prop where
  source : r.job = job
  overlayNumbers : r.overlays.flatMap Overlay.numbers = job.overlayNumbers
  formulas : r.overlays.flatMap Overlay.formulas = job.formulas
  audio : (r.audio.toList.flatMap fun a => [a.fadeIn, a.fadeOut]) =
    job.audio.toList.flatMap fun e => [e.fadeIn, e.fadeOut]
  fade : (r.fade.toList.flatMap fun f => [f.fadeIn, f.fadeOut]) =
    job.fade.toList.flatMap fun e => [e.fadeIn, e.fadeOut]
  still : (r.still.toList.flatMap fun s => [s.duration, s.fadeIn]) =
    job.still.toList.flatMap fun e => [e.duration, e.fadeIn]

theorem Rendering.fontKept {s : Settings} {h : Host} {o o' : Overlay Scalar}
    (fonted : withFont s h o = .ok o') : o'.numbers = o.numbers ∧ o'.formulas = o.formulas := by
  cases o with
  | image i =>
    cases fonted
    exact ⟨rfl, rfl⟩
  | caption c =>
    obtain ⟨font, _, last⟩ := bindOk.mp fonted
    cases last
    exact ⟨rfl, rfl⟩

theorem Rendering.preparedKeeps {job : Job} {s : Settings} {values : Entries String} {h : Host}
    {r : Rendering} (prepared : (prepare job s values h).1 = .ok r) : r.Keeps job := by
  obtain ⟨source, -, ⟨bare, made, fonted⟩, audible, faded, stilled⟩ := prepareOk.mp prepared
  obtain ⟨numbers, formulas⟩ := Job.overlaysKeep made
  rw [eachOk] at fonted
  refine ⟨source, ?_, ?_, ?_, ?_, ?_⟩
  · rw [flatMapAlong (fonted.imp fun _ _ same => (fontKept same).1), numbers]
  · rw [flatMapAlong (fonted.imp fun _ _ same => (fontKept same).2), formulas]
  · refine optionAlong (fun made => ?_) audible
    obtain ⟨_, _, made⟩ := bindOk.mp made
    obtain ⟨_, _, last⟩ := bindOk.mp (mapErrorOk.mp made)
    cases last
    rfl
  · refine optionAlong (fun made => ?_) faded
    obtain ⟨_, _, last⟩ := bindOk.mp (mapErrorOk.mp made)
    cases last
    rfl
  · refine optionAlong (fun made => ?_) stilled
    obtain ⟨_, _, made⟩ := bindOk.mp made
    obtain ⟨_, _, last⟩ := bindOk.mp (mapErrorOk.mp made)
    cases last
    rfl

section
variable {job : Job} {r : Rendering} {o : Overlay Scalar}

theorem Rendering.Keeps.numberAmong (kept : r.Keeps job) (inside : o ∈ r.overlays) {v : Scalar}
    (given : v ∈ o.numbers) : v ∈ job.numbers := by
  have overlays : v ∈ job.overlayNumbers :=
    kept.overlayNumbers ▸ List.mem_flatMap.mpr ⟨o, inside, given⟩
  simp only [Job.numbers, List.mem_append]
  exact .inl (.inl (.inl (.inr overlays)))

theorem Rendering.Keeps.formulaAmong (kept : r.Keeps job) (inside : o ∈ r.overlays)
    {source : String} (given : source ∈ o.formulas) : source ∈ job.formulas :=
  kept.formulas ▸ List.mem_flatMap.mpr ⟨o, inside, given⟩

end

def Unformulated {α : Type} : Except Failure α → Prop := FailsAs fun f => ∀ e, f ≠ .formula e

theorem homeUnformulated (path : Path) (homes : String → Option Path) :
    Unformulated (path.resolveHome homes) := by
  intro f failed e same
  unfold Path.resolveHome at failed
  split at failed
  · contradiction
  · cases failed
    cases same

theorem resolveUnformulated (job : Job) (homes : String → Option Path) (path : String) :
    Unformulated (job.resolve homes path) :=
  FailsAs.bind (homeUnformulated _ homes) fun _ => FailsAs.ok

theorem rejectedUnformulated {α : Type} (x : Except (Rejection Scalar) α) :
    Unformulated (x.mapError .rejected) :=
  FailsAs.mapError fun _ _ same => by cases same

theorem Job.overlaysUnformulated (job : Job) (homes : String → Option Path)
    (given : Entries String) : Unformulated (job.overlays homes given).outcome := by
  rw [overlays, Logged.bindOutcome, Logged.eachOutcome]
  refine FailsAs.bind (FailsAs.each fun e _ => ?_) fun images => ?_
  · rw [image, Logged.bindOutcome]
    refine FailsAs.bind (resolveUnformulated job homes e.path) fun path => ?_
    rw [Logged.mapOutcome]
    exact FailsAs.map (rejectedUnformulated _)
  · rw [Logged.bindOutcome, Logged.eachOutcome]
    refine FailsAs.bind (FailsAs.each fun e _ => ?_) fun captions => FailsAs.ok
    rw [caption, Logged.bindOutcome]
    refine FailsAs.bind ?_ fun font => ?_
    · exact FailsAs.option fun name => resolveUnformulated job homes name
    · rw [Logged.mapOutcome]
      exact FailsAs.map (rejectedUnformulated _)

theorem Rendering.fontUnformulated (s : Settings) (h : Host) (o : Overlay Scalar) :
    Unformulated (withFont s h o) := by
  cases o with
  | image i => exact FailsAs.ok
  | caption c =>
    refine FailsAs.bind ?_ fun font => FailsAs.ok
    unfold chooseFont
    split
    · exact FailsAs.ok
    · refine FailsAs.bind (FailsAs.option fun name => ?_) fun found => FailsAs.ok
      exact FailsAs.bind (homeUnformulated _ h.homes) fun path => FailsAs.ok

theorem Rendering.prepareUnformulated (job : Job) (s : Settings) (values : Entries String)
    (h : Host) : Unformulated (prepare job s values h).1 := by
  rw [prepareOutcome]
  refine FailsAs.bind (job.overlaysUnformulated h.homes values) fun bare => ?_
  refine FailsAs.bind (FailsAs.each fun o _ => fontUnformulated s h o) fun overlays => ?_
  refine FailsAs.bind (FailsAs.option fun e => ?_) fun audio => ?_
  · exact FailsAs.bind (resolveUnformulated job h.homes e.path) fun _ => rejectedUnformulated _
  refine FailsAs.bind (FailsAs.option fun e => rejectedUnformulated _) fun fade => ?_
  refine FailsAs.bind (FailsAs.option fun e => ?_) fun still => FailsAs.ok
  exact FailsAs.bind (resolveUnformulated job h.homes e.path) fun _ => rejectedUnformulated _

end OverlayMotion

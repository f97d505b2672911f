import OverlayMotion.Proofs.Loading

/-! The programs that a session starts. A session that plans starts one at most, to measure
the base video, and leaves the files as they were. How a program ends is up to the host. -/
namespace OverlayMotion

def Host.next (h : Host) : ProcessOutcome := h.outcomes.headD .missing

structure Started (programs : List (List String)) (h after : Host) : Prop where
  commands : after.commands = h.commands ++ programs
  outcomes : after.outcomes = h.outcomes.drop programs.length
  files : after.files = h.files

theorem Started.refl (h : Host) : Started [] h h := ⟨(List.append_nil _).symm, rfl, rfl⟩

theorem Started.trans {first second : List (List String)} {h middle after : Host}
    (before : Started first h middle) (later : Started second middle after) :
    Started (first ++ second) h after where
  commands := by rw [later.commands, before.commands, List.append_assoc]
  outcomes := by rw [later.outcomes, before.outcomes, List.drop_drop, List.length_append]
  files := later.files.trans before.files

namespace Session
variable {ε α β : Type}

theorem startOutcome (command : List String) (h : Host) :
    (start command h : Except ε ProcessOutcome × Host).1 = .ok h.next := by
  unfold start Host.start Host.next
  cases h.outcomes <;> rfl

theorem startStarts (command : List String) (h : Host) :
    Started [command] h (start command h : Except ε ProcessOutcome × Host).2 := by
  unfold start Host.start
  cases given : h.outcomes <;> exact ⟨rfl, by simp [given], rfl⟩

def Quiet (x : Session ε α) : Prop := ∀ h, Started [] h (x h).2

theorem quietPure (a : α) : Quiet (pure a : Session ε α) := Started.refl

theorem quietHost : Quiet (host : Session ε Host) := Started.refl

theorem quietExcept (x : Except ε α) : Quiet (liftM x : Session ε α) := Started.refl

theorem quietLogged (x : Logged Scalar ε α) : Quiet (ofLogged x) :=
  fun _ => ⟨(List.append_nil _).symm, rfl, rfl⟩

theorem hostThen (f : Host → Session ε β) (h : Host) : (host >>= f) h = f h h := rfl

theorem exceptThen (x : Except ε α) (f : α → Session ε β) (h : Host) :
    ((liftM x : Session ε α) >>= f) h = match x with
      | .ok a => f a h
      | .error e => (.error e, h) := by
  cases x <;> rfl

theorem startedThen {x : Session ε α} {f : α → Session ε β} {h : Host}
    {programs : List (List String)} (before : Started programs h (x h).2)
    (later : ∀ a, Quiet (f a)) : Started programs h ((x >>= f) h).2 := by
  simp only [bind]
  cases known : x h with
  | mk outcome after =>
    rw [known] at before
    cases outcome with
    | ok a => simpa using before.trans (later a after)
    | error e => exact before

theorem Quiet.bind {x : Session ε α} {f : α → Session ε β} (first : Quiet x)
    (later : ∀ a, Quiet (f a)) : Quiet (x >>= f) := fun h => startedThen (first h) later

end Session

def ProcessOutcome.seconds? : ProcessOutcome → Option Float
  | .missing => none
  | .ended code stdout _ =>
    if code = 0 then Decimal.readFloat? (Text.trim stdout.toList) else none

theorem readProbeSeconds (binary : String) (video : Path) (outcome : ProcessOutcome) :
    (readProbe binary video outcome).toOption = outcome.seconds? := by
  cases outcome with
  | missing => rfl
  | ended code stdout stderr =>
    by_cases well : code = 0
    · simp only [readProbe, ProcessOutcome.seconds?, well, ne_eq, not_true_eq_false, if_false,
        if_true]
      cases Decimal.readFloat? (Text.trim stdout.toList) <;> rfl
    · simp only [readProbe, ProcessOutcome.seconds?, well, ne_eq, not_false_eq_true, if_true,
        if_false]
      rfl

theorem probeOutcome (binary : String) (video : Path) (h : Host) :
    (probeDuration binary video h).1 = readProbe binary video h.next := by
  rw [probeDuration, Session.bindOutcome, Session.startOutcome]
  rfl

theorem probeStarts (binary : String) (video : Path) (h : Host) :
    Started [probeCommand binary video] h (probeDuration binary video h).2 :=
  Session.startedThen (Session.startStarts _ h) fun outcome =>
    Session.quietExcept (readProbe binary video outcome)

namespace Rendering

def probes (r : Rendering) (homes : String → Option Path) : List (List String) :=
  if r.job.duration.isNone ∧ r.job.needsDuration then
    (r.job.baseVideoPath homes).toOption.toList.map (probeCommand r.encoding.ffprobe)
  else []

theorem measureStarts (r : Rendering) (h : Host) :
    Started (r.probes h.homes) h (r.measure h).2 := by
  unfold probes measure
  cases known : r.job.duration with
  | some seconds =>
    rw [if_neg (by simp)]
    simp only [baseDuration, known]
    split <;> exact Started.refl h
  | none =>
    by_cases needed : r.job.needsDuration
    · simp only [baseDuration, known, needed, Option.isNone_none, and_self, if_true,
        Session.hostThen, Session.exceptThen]
      cases located : r.job.baseVideoPath h.homes with
      | error e => exact Started.refl h
      | ok base =>
        refine Session.startedThen (probeStarts r.encoding.ffprobe base h) fun told => ?_
        cases told with
        | ok seconds => exact Session.quietPure _
        | error e => exact (Session.quietLogged _).bind fun _ => Session.quietPure _
    · simp only [needed, Bool.false_eq_true, and_false, if_false]
      exact Started.refl h

theorem planStarts (r : Rendering) (h : Host) : Started (r.probes h.homes) h (r.plan h).2 := by
  rw [planSteps]
  refine Session.startedThen (r.measureStarts h) fun duration => ?_
  refine Session.quietHost.bind fun host => (Session.quietExcept _).bind fun base => ?_
  exact Session.quietLogged (Graph.plan (r.composition base duration))

end Rendering

end OverlayMotion

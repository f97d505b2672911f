import OverlayMotion.Job.File
import OverlayMotion.Proofs.Ordered

/-! What a job file leads to. A check of a document gives doubles wherever a number is asked
for, and descriptors that are built from them were accepted by their constructors, so all that
can be wrong with the order of an accepted overlay is that one of its doubles is undefined. -/
namespace OverlayMotion
open Scalar (Double)

namespace Check
variable {α β : Type}

theorem mapOk {f : α → β} {x : Check α} {b : β} : f <$> x = .ok b ↔ ∃ a, x = .ok a ∧ f a = b := by
  cases x <;> simp [Functor.map]

theorem seqOk {f : Check (α → β)} {x : Check α} {b : β} :
    f <*> x = .ok b ↔ ∃ g a, f = .ok g ∧ x = .ok a ∧ g a = b := by
  cases f <;> cases x <;> simp [Seq.seq]

theorem withinOk {key : String} {x : Check α} {a : α} : x.within key = .ok a ↔ x = .ok a := by
  cases x <;> simp [within]

def Gives (P : α → Prop) (x : Check α) : Prop := ∀ a, x = .ok a → P a

theorem recordGives {P : α → Prop} {name : String} {fields : Table → Check α}
    (gives : ∀ t, Gives P (fields t)) (d : Datum) : Gives P (record name fields d) := by
  intro a read
  cases d with
  | table t => exact gives t a read
  | _ => cases read

theorem closedRecordGives {P : α → Prop} {name : String} {known : List Field}
    {fields : Table → Check α} (gives : ∀ t, Gives P (fields t)) (d : Datum) :
    Gives P (closedRecord name known fields d) := by
  refine recordGives (fun t a read => ?_) d
  obtain ⟨_, _, first, _, rfl⟩ := seqOk.mp read
  obtain ⟨b, passed, rfl⟩ := mapOk.mp first
  exact gives t b passed

end Check

namespace Field
open Check (Gives)
variable {α : Type} {P : α → Prop}

theorem requiredGives {check : Datum → Check α} (gives : ∀ d, Gives P (check d)) (f : Field)
    (t : Table) : Gives P (f.required check t) := by
  intro a read
  unfold required at read
  split at read
  · exact gives _ a (Check.withinOk.mp read)
  · cases read

theorem optionalGives {default : α} {check : Datum → Check α} (otherwise : P default)
    (gives : ∀ d, Gives P (check d)) (f : Field) (t : Table) :
    Gives P (f.optional default check t) := by
  intro a read
  unfold optional at read
  split at read
  · exact gives _ a (Check.withinOk.mp read)
  · cases read
    exact otherwise

end Field

theorem Datum.checkItemsGives {α : Type} {P : α → Prop} {check : Datum → Check α}
    (gives : ∀ d, (check d).Gives P) (ds : List Datum) :
    ∀ i, (checkItems check i ds).Gives fun as => ∀ a ∈ as, P a := by
  induction ds with
  | nil =>
    rintro i as ⟨⟩
    simp
  | cons d ds ih =>
    intro i as read
    obtain ⟨_, rest, first, others, rfl⟩ := Check.seqOk.mp read
    obtain ⟨a, item, rfl⟩ := Check.mapOk.mp first
    exact List.forall_mem_cons.mpr ⟨gives d a (Check.withinOk.mp item), ih _ rest others⟩

theorem Datum.checkListGives {α : Type} {P : α → Prop} {check : Datum → Check α}
    (gives : ∀ d, (check d).Gives P) (d : Datum) :
    (checkList check d).Gives fun as => ∀ a ∈ as, P a := by
  cases d with
  | list items => exact checkItemsGives gives items 0
  | _ => exact nofun

namespace Job
open Check (Gives)

theorem checkScalarGives (d : Datum) : Gives Double (checkScalar d) := by
  intro v read
  obtain ⟨x, _, rfl⟩ := Check.mapOk.mp read
  exact ⟨x, rfl⟩

theorem scalarOrGives {default : Scalar} (double : default.Double) (f : Field) (t : Table) :
    Gives Double (scalarOr default f t) := Field.optionalGives double checkScalarGives f t

theorem nullableGives {α : Type} {P : α → Prop} {check : Datum → Check α}
    (gives : ∀ d, Gives P (check d)) (f : Field) (t : Table) :
    Gives (fun o : Option α => ∀ a ∈ o, P a) (nullable f check t) := by
  refine Field.optionalGives (by simp) (fun d o read => ?_) f t
  unfold Datum.checkOptional at read
  split at read
  · cases read
    simp
  · obtain ⟨a, passed, rfl⟩ := Check.mapOk.mp read
    rintro _ ⟨⟩
    exact gives _ a passed

theorem PhaseEntry.checkGives (d : Datum) :
    Gives (fun e => ∀ v ∈ e.numbers, v.Double) (PhaseEntry.check d) := by
  refine Check.closedRecordGives (fun t e read => ?_) d
  simp only [Check.seqOk, Check.mapOk] at read
  obtain ⟨_, overshoot, ⟨_, zoomTo, ⟨_, zoomFrom, ⟨_, _, ⟨_, duration, ⟨_, _, rfl⟩, lasts, rfl⟩,
    _, rfl⟩, leaves, rfl⟩, rests, rfl⟩, peaks, rfl⟩ := read
  have lasts := Field.requiredGives checkScalarGives _ _ _ lasts
  have leaves := scalarOrGives ⟨_, rfl⟩ _ _ _ leaves
  have rests := scalarOrGives ⟨_, rfl⟩ _ _ _ rests
  have peaks := nullableGives checkScalarGives _ _ _ peaks
  simp only [numbers, List.forall_mem_append, List.forall_mem_cons, Option.mem_toList]
  exact ⟨⟨lasts, leaves, rests, nofun⟩, peaks⟩

theorem AnimationEntry.checkGives (d : Datum) :
    Gives (fun e => ∀ v ∈ e.numbers, v.Double) (AnimationEntry.check d) := by
  refine Check.closedRecordGives (fun t e read => ?_) d
  simp only [Check.seqOk, Check.mapOk] at read
  obtain ⟨_, exit, ⟨_, hold, ⟨entry, enters, rfl⟩, holds, rfl⟩, exits, rfl⟩ := read
  have enters := nullableGives PhaseEntry.checkGives _ _ _ enters
  have holds := scalarOrGives ⟨_, rfl⟩ _ _ _ holds
  have exits := nullableGives PhaseEntry.checkGives _ _ _ exits
  simp only [numbers, List.forall_mem_append, List.forall_mem_cons,
    List.forall_mem_flatMap, Option.mem_toList]
  exact ⟨holds, enters, exits⟩

theorem timingDoubles {default start finish : Scalar} {animation : Option AnimationEntry}
    {began ended animated : Field} {t : Table} (double : default.Double)
    (begins : scalarOr default began t = .ok start)
    (ends : ended.required checkScalar t = .ok finish)
    (animates : nullable animated AnimationEntry.check t = .ok animation) :
    ∀ v ∈ [start, finish] ++ animation.toList.flatMap AnimationEntry.numbers, v.Double := by
  have begins := scalarOrGives double _ _ _ begins
  have ends := Field.requiredGives checkScalarGives _ _ _ ends
  have animates := nullableGives AnimationEntry.checkGives _ _ _ animates
  simp only [List.forall_mem_append, List.forall_mem_cons, List.forall_mem_flatMap,
    Option.mem_toList]
  exact ⟨⟨begins, ends, nofun⟩, animates⟩

def ImageEntry.timing (e : ImageEntry) : List Scalar :=
  [e.start, e.finish] ++ e.animation.toList.flatMap AnimationEntry.numbers

def CaptionEntry.timing (e : CaptionEntry) : List Scalar :=
  [e.start, e.finish] ++ e.animation.toList.flatMap AnimationEntry.numbers

theorem ImageEntry.checkGives (d : Datum) :
    Gives (fun e => ∀ v ∈ e.timing, v.Double) (ImageEntry.check d) := by
  refine Check.closedRecordGives (fun t e read => ?_) d
  simp only [Check.seqOk, Check.mapOk] at read
  obtain ⟨_, animation, ⟨_, _, ⟨_, _, ⟨_, _, ⟨_, _, ⟨_, _, ⟨_, finish, ⟨_, start, ⟨_, _, rfl⟩,
    begins, rfl⟩, ends, rfl⟩, _, rfl⟩, _, rfl⟩, _, rfl⟩, _, rfl⟩, _, rfl⟩, animates, rfl⟩ := read
  exact timingDoubles ⟨_, rfl⟩ begins ends animates

theorem CaptionEntry.checkGives (d : Datum) :
    Gives (fun e => ∀ v ∈ e.timing, v.Double) (CaptionEntry.check d) := by
  refine Check.closedRecordGives (fun t e read => ?_) d
  simp only [Check.seqOk, Check.mapOk] at read
  obtain ⟨_, _, ⟨_, animation, ⟨_, _, ⟨_, _, ⟨_, _, ⟨_, _, ⟨_, _, ⟨_, finish, ⟨_, start, ⟨_, _, rfl⟩,
    begins, rfl⟩, ends, rfl⟩, _, rfl⟩, _, rfl⟩, _, rfl⟩, _, rfl⟩, _, rfl⟩, animates, rfl⟩,
    _, rfl⟩ := read
  exact timingDoubles ⟨_, rfl⟩ begins ends animates

structure Timed (job : Job) : Prop where
  images : ∀ e ∈ job.images, ∀ v ∈ e.timing, v.Double
  captions : ∀ e ∈ job.captions, ∀ v ∈ e.timing, v.Double

theorem checkTimed (d : Datum) : Gives Timed (check d) := by
  refine Check.recordGives (fun t job read => ?_) d
  simp only [Check.seqOk, Check.mapOk] at read
  obtain ⟨_, _, ⟨_, _, ⟨_, _, ⟨_, _, ⟨_, _, ⟨_, captions, ⟨_, images, ⟨_, _, ⟨_, _, ⟨_, _, rfl⟩,
    _, rfl⟩, _, rfl⟩, pictures, rfl⟩, texts, rfl⟩, _, rfl⟩, _, rfl⟩, _, rfl⟩, _, rfl⟩, _, rfl⟩ := read
  exact ⟨Field.optionalGives (by simp) (Datum.checkListGives ImageEntry.checkGives) _ _ _ pictures,
    Field.optionalGives (by simp) (Datum.checkListGives CaptionEntry.checkGives) _ _ _ texts⟩

theorem AnimationEntry.constructs {e : AnimationEntry} {a : Animation Scalar}
    (made : e.toAnimation.outcome = .ok a) : a.Constructed := by
  obtain ⟨entry, first, made⟩ := Logged.bindOk.mp made
  obtain ⟨exit, second, made⟩ := Logged.bindOk.mp made
  rw [Logged.optionOutcome] at first second
  have phase {e : PhaseEntry} {p : Phase Scalar} (made : e.toPhase.outcome = .ok p) :
      p.Constructed := by
    obtain ⟨_, _, made⟩ := Logged.bindOk.mp made
    exact Phase.makeConstructs made
  have again := made
  obtain ⟨_, _, last⟩ := bindOk.mp made
  cases last
  exact ⟨Returns.option (fun _ _ _ => phase) _ first, Returns.option (fun _ _ _ => phase) _ second,
    again⟩

structure Accepted (o : Overlay Scalar) : Prop where
  constructed : o.Constructed
  idle : ∀ i ∈ Preview.idle? o, i.rejection? = none
  doubles : ∀ v ∈ o.placement.timing, v.Double

theorem ImageEntry.accepts {e : ImageEntry} (doubles : ∀ v ∈ e.timing, v.Double) {path : Path}
    {i : Image Scalar} (made : (e.toImage path).outcome = .ok i) : Accepted (.image i) := by
  obtain ⟨animation, animated, made⟩ := e.described made
  have constructed := Returns.option (fun _ _ _ => AnimationEntry.constructs) _ animated
  have numbers := optionAlong AnimationEntry.keepsNumbers animated
  obtain ⟨_, _, rfl⟩ := Image.made made
  refine ⟨⟨constructed, _, _, made⟩, by simp [Preview.idle?], ?_⟩
  rw [Placement.timing]
  exact numbers ▸ doubles

theorem CaptionEntry.accepts {e : CaptionEntry} (doubles : ∀ v ∈ e.timing, v.Double) {text : String}
    {font : Option Path} {c : Caption Scalar} (made : (e.toCaption text font).outcome = .ok c) :
    Accepted (.caption c) := by
  obtain ⟨animation, idle, animated, idled, made⟩ := e.described made
  have constructed := Returns.option (fun _ _ _ => AnimationEntry.constructs) _ animated
  have numbers := optionAlong AnimationEntry.keepsNumbers animated
  have swings : ∀ i ∈ idle, i.rejection? = none := by
    refine Returns.option (fun e _ i made => ?_) _ idled
    obtain ⟨_, passed, last⟩ := bindOk.mp made
    cases last
    exact acceptOk.mp passed
  obtain rfl := Caption.made made
  refine ⟨⟨constructed, made⟩, swings, ?_⟩
  rw [Placement.timing]
  exact numbers ▸ doubles

theorem overlaysAccepted {job : Job} (timed : job.Timed) {homes : String → Option Path}
    {given : Entries String} {os : List (Overlay Scalar)}
    (made : (job.overlays homes given).outcome = .ok os) : ∀ o ∈ os, Accepted o := by
  obtain ⟨images, imaged, made⟩ := Logged.bindOk.mp made
  obtain ⟨captions, captioned, last⟩ := Logged.bindOk.mp made
  cases last
  rw [Logged.eachOutcome] at imaged captioned
  have image (e : ImageEntry) (inside : e ∈ job.images) :
      Returns Accepted (job.image homes e).outcome := by
    intro o made
    obtain ⟨path, _, made⟩ := Logged.bindOk.mp made
    rw [Logged.mapOutcome, mapOk] at made
    obtain ⟨i, described, rfl⟩ := made
    exact ImageEntry.accepts (timed.images e inside) (mapErrorOk.mp described)
  have caption (e : CaptionEntry) (inside : e ∈ job.captions) :
      Returns Accepted (job.caption homes (job.values.update given) e).outcome := by
    intro o made
    obtain ⟨font, _, made⟩ := Logged.bindOk.mp made
    rw [Logged.mapOutcome, mapOk] at made
    obtain ⟨c, described, rfl⟩ := made
    exact CaptionEntry.accepts (timed.captions e inside) (mapErrorOk.mp described)
  exact List.forall_mem_append.mpr ⟨Returns.each image _ imaged, Returns.each caption _ captioned⟩

theorem ofBytesTimed {path : Path} {content : ByteArray} : Returns Timed (ofBytes path content) := by
  intro job read
  unfold ofBytes at read
  split at read
  · cases read
  · split at read
    · cases read
    · cases read
    · split at read
      · rename_i checked
        cases read
        have timed := checkTimed _ _ checked
        exact ⟨timed.images, timed.captions⟩
      · cases read

/-- An overlay that a job file leads to is in order exactly if no number is undefined that its
rules are about, and its timeline exactly if none is that it is built from. -/
theorem orderedWhereDefined {path : Path} {content : ByteArray} {job : Job}
    (read : ofBytes path content = .ok job) {homes : String → Option Path} {given : Entries String}
    {os : List (Overlay Scalar)} (made : (job.overlays homes given).outcome = .ok os) :
    ∀ o ∈ os, ∃ t, (Timeline.ofPlacement o.placement).outcome = .ok t ∧
      (o.InOrder ↔ ∀ v ∈ o.ruled, v.Defined) ∧
      (t.InOrder o.placement.finish ↔ ∀ v ∈ o.placement.times, v.Defined) ∧
      (o.InOrder → t.InOrder o.placement.finish) := by
  intro o inside
  obtain ⟨constructed, idle, doubles⟩ := overlaysAccepted (ofBytesTimed _ read) made o inside
  have descriptor := constructed.ordered idle
  obtain ⟨t, built, timeline⟩ := Timeline.ordered (Placement.timesGiven ⟨_, rfl⟩ doubles)
    constructed.begins constructed.window constructed.animation
  refine ⟨t, built, descriptor, timeline, fun order => timeline.mpr ?_⟩
  have defined := descriptor.mp order
  have none : (Number.ofDecimal 0 0 : Scalar).Defined := by decide +kernel
  exact Placement.timesGiven none fun v given => defined v (List.mem_append_left _ given)

def unevenDocument : String :=
  "\x7b\"base_video\":\"a\",\"texts\":[" ++
  "\x7b\"text\":\"b\",\"end\":Infinity,\"animation\":\x7b\"hold\":1e308,\"in\":" ++
  "\x7b\"kind\":\"zoom\",\"duration\":1e308,\"overshoot\":2\x7d\x7d\x7d," ++
  "\x7b\"text\":\"c\",\"end\":3,\"animation\":\x7b\"hold\":NaN\x7d\x7d]\x7d"

theorem unevenDocumentOrdered : ∃ job o o',
    ofBytes (.ofString "j.json") unevenDocument.toUTF8 = .ok job ∧
      (job.overlays (fun _ => none) []).outcome = .ok [o, o'] ∧
      (o.InOrder ∧ ∃ t, (Timeline.ofPlacement o.placement).outcome = .ok t ∧
        t.InOrder o.placement.finish) ∧
      ¬ o'.InOrder ∧ ∃ t, (Timeline.ofPlacement o'.placement).outcome = .ok t ∧
        ¬ t.InOrder o'.placement.finish := by
  have text : String.fromUTF8? unevenDocument.toUTF8 = some unevenDocument :=
    dif_pos unevenDocument.isValidUTF8
  have evaluated : (ofBytes (.ofString "j.json") unevenDocument.toUTF8).isOk = true ∧
      ∀ job, ofBytes (.ofString "j.json") unevenDocument.toUTF8 = .ok job →
        (job.overlays (fun _ => none) []).outcome.isOk = true ∧
        ∀ os, (job.overlays (fun _ => none) []).outcome = .ok os →
          os.map (fun o => (decide (∀ v ∈ o.ruled, v.Defined),
            decide (∀ v ∈ o.placement.times, v.Defined))) = [(true, true), (false, false)] := by
    rw [ofBytes, text]
    decide +kernel
  obtain ⟨job, read⟩ := succeeded evaluated.1
  obtain ⟨accepted, verdicts⟩ := evaluated.2 job read
  obtain ⟨os, made⟩ := succeeded accepted
  obtain ⟨o, _, rfl, lasting, verdict⟩ := List.map_eq_cons_iff.mp (verdicts os made)
  obtain ⟨o', _, rfl, undefined, verdict⟩ := List.map_eq_cons_iff.mp verdict
  obtain rfl := List.map_eq_nil_iff.mp verdict
  simp only [Prod.mk.injEq, decide_eq_true_iff, decide_eq_false_iff_not] at lasting undefined
  obtain ⟨t, built, descriptor, timeline, _⟩ := orderedWhereDefined read made o (by simp)
  obtain ⟨t', built', descriptor', timeline', _⟩ := orderedWhereDefined read made o' (by simp)
  exact ⟨job, o, o', read, made,
    ⟨descriptor.mpr lasting.1, t, built, timeline.mpr lasting.2⟩,
    fun order => undefined.1 (descriptor'.mp order), t', built',
    fun order => undefined.2 (timeline'.mp order)⟩

end Job

end OverlayMotion

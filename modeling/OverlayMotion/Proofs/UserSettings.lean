import OverlayMotion.Settings.File
import OverlayMotion.Proofs.Preparation

/-! Where a user's settings come from. Of the files only the first that is there counts, and it
gives all of its settings or none: a file that cannot be read, or is no TOML, leaves what is built
in, and one setting that cannot be read leaves no settings at all. The environment has the last
word. -/
namespace OverlayMotion

section
variable {ε : Type} {e : ε} {r : Except ε Unit} {rest : List (Except ε Unit)}

def FailsFirst (outcomes : List (Except ε Unit)) (e : ε) : Prop :=
  ∃ earlier later, outcomes = earlier ++ .error e :: later ∧ ∀ r ∈ earlier, r = .ok ()

theorem noneFailsFirst : ¬FailsFirst [] e := by
  rintro ⟨earlier, later, same, -⟩
  exact List.append_ne_nil_of_right_ne_nil earlier (List.cons_ne_nil _ _) same.symm

theorem nextFailsFirst :
    FailsFirst (r :: rest) e ↔ r = .error e ∨ (r = .ok () ∧ FailsFirst rest e) := by
  constructor
  · rintro ⟨earlier, later, same, fine⟩
    cases earlier with
    | nil => exact .inl (List.cons.inj same).1
    | cons r' earlier =>
      obtain ⟨rfl, continued⟩ := List.cons.inj same
      obtain ⟨first, others⟩ := List.forall_mem_cons.mp fine
      exact .inr ⟨first, earlier, later, continued, others⟩
  · rintro (rfl | ⟨rfl, earlier, later, rfl, fine⟩)
    · exact ⟨[], rest, rfl, nofun⟩
    · exact ⟨.ok () :: earlier, later, rfl, List.forall_mem_cons.mpr ⟨rfl, fine⟩⟩

theorem allSucceed (fine : ∀ r ∈ rest, r = .ok ()) : ¬FailsFirst rest e := by
  rintro ⟨earlier, later, rfl, -⟩
  cases fine (.error e) (List.mem_append_right _ List.mem_cons_self)

end

namespace Settings

section
variable {α : Type} {part : Datum} {key : String} {read : Datum → Except Failure α}
variable {set : Settings → α → Settings} {s s' : Settings} {e : Failure}

def said (part : Datum) (key : String) (read : Datum → Except Failure α) :
    Except Failure (Option α) := do
  (← find? part key).mapM read

def readable (part : Datum) (key : String) (read : Datum → Except Failure α) :
    Except Failure Unit :=
  (fun _ => ()) <$> said part key read

theorem changeSaid : change part key read set s =
    (fun value => value.elim s (set s)) <$> said part key read := by
  unfold change said
  cases find? part key with
  | error e => rfl
  | ok known =>
    cases known with
    | none => rfl
    | some d =>
      simp only [okBind, Option.mapM_some]
      cases read d <;> rfl

theorem changed (done : change part key read set s = .ok s') (get : Settings → α)
    (kept : ∀ s, set s (get s) = s) :
    ∃ value, said part key read = .ok value ∧ s' = set s (value.getD (get s)) := by
  rw [changeSaid, mapOk] at done
  obtain ⟨value, told, rfl⟩ := done
  refine ⟨value, told, ?_⟩
  cases value with
  | none => rw [Option.elim_none, Option.getD_none, kept]
  | some v => rfl

theorem changeFails :
    change part key read set s = .error e ↔ FailsFirst [readable part key read] e := by
  rw [changeSaid, nextFailsFirst, readable]
  cases said part key read <;> simp [noneFailsFirst]

theorem changeThenFails {next : Settings → Except Failure Settings}
    {rest : List (Except Failure Unit)} (others : ∀ s, next s = .error e ↔ FailsFirst rest e) :
    (change part key read set s >>= next) = .error e ↔
      FailsFirst (readable part key read :: rest) e := by
  rw [changeSaid, nextFailsFirst, readable, bindFails]
  cases said part key read <;> simp [others]

def Follows (told : Except Failure (Option α)) (builtIn value : α) : Prop :=
  ∃ given, told = .ok given ∧ value = given.getD builtIn

theorem Follows.unique {told : Except Failure (Option α)} {builtIn value value' : α}
    (first : Follows told builtIn value) (second : Follows told builtIn value') :
    value = value' := by
  obtain ⟨given, told, rfl⟩ := first
  obtain ⟨given', told', rfl⟩ := second
  rw [Except.ok.inj (told.symm.trans told')]

end

def readings (homes : String → Option Path) (document : Datum) : List (Except Failure Unit) :=
  let tools := sectionOf document "ffmpeg"
  let output := sectionOf document "output"
  let fonts := sectionOf document "fonts"
  [readable tools "binary" readText, readable tools "ffprobe" readText,
    readable tools "crf" readInteger, readable tools "preset" readText,
    readable output "width" readInteger, readable output "height" readInteger,
    readable output "fps" readInteger,
    readable fonts "font_dir" (readDirectory homes), readable fonts "default_font" readText]

structure Described (homes : String → Option Path) (path : Path) (document : Datum)
    (s : Settings) : Prop where
  ffmpeg : Follows (said (sectionOf document "ffmpeg") "binary" readText) standard.ffmpeg s.ffmpeg
  ffprobe : Follows (said (sectionOf document "ffmpeg") "ffprobe" readText) standard.ffprobe
    s.ffprobe
  crf : Follows (said (sectionOf document "ffmpeg") "crf" readInteger) standard.crf s.crf
  preset : Follows (said (sectionOf document "ffmpeg") "preset" readText) standard.preset s.preset
  width : Follows (said (sectionOf document "output") "width" readInteger) standard.width s.width
  height : Follows (said (sectionOf document "output") "height" readInteger) standard.height
    s.height
  fps : Follows (said (sectionOf document "output") "fps" readInteger) standard.fps s.fps
  fontDirectory : said (sectionOf document "fonts") "font_dir" (readDirectory homes) =
    .ok s.fontDirectory
  defaultFont : said (sectionOf document "fonts") "default_font" readText = .ok s.defaultFont
  source : s.source = some path

section
variable {homes : String → Option Path} {path : Path} {document : Datum} {s s' : Settings}
variable {e : Failure}

theorem changeAllFails : changeAll homes document s = .error e ↔
    FailsFirst (readings homes document) e := by
  simp only [changeAll, changeTools, changeOutput, changeFonts, bind_assoc]
  iterate 8 refine changeThenFails fun s => ?_
  exact changeFails

theorem changeAllDescribes (done : changeAll homes document standard = .ok s) :
    Described homes path document { s with source := some path } := by
  simp only [changeAll, changeTools, changeOutput, changeFonts, bindOk] at done
  obtain ⟨_, ⟨_, binary, _, probe, _, crf, preset⟩, _, ⟨_, width, _, height, fps⟩, done⟩ := done
  -- Every change sets one field and keeps the others, so each field is what its own change left.
  obtain ⟨_, toldBinary, rfl⟩ := changed binary (·.ffmpeg) fun _ => rfl
  obtain ⟨_, toldProbe, rfl⟩ := changed probe (·.ffprobe) fun _ => rfl
  obtain ⟨_, toldCrf, rfl⟩ := changed crf (·.crf) fun _ => rfl
  obtain ⟨_, toldPreset, rfl⟩ := changed preset (·.preset) fun _ => rfl
  obtain ⟨_, toldWidth, rfl⟩ := changed width (·.width) fun _ => rfl
  obtain ⟨_, toldHeight, rfl⟩ := changed height (·.height) fun _ => rfl
  obtain ⟨_, toldFps, rfl⟩ := changed fps (·.fps) fun _ => rfl
  simp only [changeSaid, mapOk] at done
  obtain ⟨_, ⟨directory, toldDirectory, rfl⟩, font, toldFont, rfl⟩ := done
  cases directory <;> cases font <;>
    exact ⟨⟨_, toldBinary, rfl⟩, ⟨_, toldProbe, rfl⟩, ⟨_, toldCrf, rfl⟩, ⟨_, toldPreset, rfl⟩,
      ⟨_, toldWidth, rfl⟩, ⟨_, toldHeight, rfl⟩, ⟨_, toldFps, rfl⟩, toldDirectory, toldFont, rfl⟩

theorem describedReadable (described : Described homes path document s) :
    ∀ r ∈ readings homes document, r = .ok () := by
  have good {α : Type} {part : Datum} {key : String} {read : Datum → Except Failure α}
      {given : Option α} (told : said part key read = .ok given) :
      readable part key read = .ok () := by
    rw [readable, told, okMap]
  obtain ⟨⟨_, binary, -⟩, ⟨_, probe, -⟩, ⟨_, crf, -⟩, ⟨_, preset, -⟩, ⟨_, width, -⟩,
    ⟨_, height, -⟩, ⟨_, fps, -⟩, directory, font, -⟩ := described
  simp only [readings, List.forall_mem_cons]
  exact ⟨good binary, good probe, good crf, good preset, good width, good height, good fps,
    good directory, good font, nofun⟩

theorem describedOnce (first : Described homes path document s)
    (second : Described homes path document s') : s = s' := by
  cases s
  cases s'
  rw [Settings.mk.injEq]
  exact ⟨first.ffmpeg.unique second.ffmpeg, first.ffprobe.unique second.ffprobe,
    first.crf.unique second.crf, first.preset.unique second.preset,
    first.width.unique second.width, first.height.unique second.height,
    first.fps.unique second.fps,
    Except.ok.inj (first.fontDirectory.symm.trans second.fontDirectory),
    Except.ok.inj (first.defaultFont.symm.trans second.defaultFont),
    first.source.trans second.source.symm⟩

theorem changeAllOk : (∃ done, changeAll homes document standard = .ok done ∧
    { done with source := some path } = s) ↔ Described homes path document s := by
  constructor
  · rintro ⟨done, given, rfl⟩
    exact changeAllDescribes given
  · intro described
    -- Nothing fails where all can be read, and the settings that are given are described as well.
    cases given : changeAll homes document standard with
    | error e => exact absurd (changeAllFails.mp given) (allSucceed (describedReadable described))
    | ok done => exact ⟨done, rfl, describedOnce (changeAllDescribes given) described⟩

end

def firstFile? (paths : List Path) (h : Host) : Option (Path × Except FileFault ByteArray) :=
  (paths.find? h.files.has).map fun path => (path, h.files.read path)

inductive Leaves (homes : String → Option Path) :
    Option (Path × Except FileFault ByteArray) → Settings → Prop
  | absent : Leaves homes none standard
  | unreadable {path fault} : Leaves homes (some (path, .error fault)) standard
  | malformed {path content source} (text : String.fromUTF8? content = some source)
      (broken : Toml.read source.toList = .error .malformed) :
      Leaves homes (some (path, .ok content)) standard
  | document {path content source document s} (text : String.fromUTF8? content = some source)
      (parsed : Toml.read source.toList = .ok document)
      (described : Described homes path document s) :
      Leaves homes (some (path, .ok content)) s

inductive Spoils (homes : String → Option Path) :
    Option (Path × Except FileFault ByteArray) → Failure → Prop
  | noText {path content} (broken : String.fromUTF8? content = none) :
      Spoils homes (some (path, .ok content)) .notText
  | overlong {path content source} (text : String.fromUTF8? content = some source)
      (long : Toml.read source.toList = .error .integerTooLong) :
      Spoils homes (some (path, .ok content)) .unreadableNumber
  | setting {path content source document e} (text : String.fromUTF8? content = some source)
      (parsed : Toml.read source.toList = .ok document)
      (first : FailsFirst (readings homes document) e) : Spoils homes (some (path, .ok content)) e

section
variable {homes : String → Option Path} {path : Path} {content : ByteArray} {s : Settings}
variable {e : Failure} {paths : List Path} {h : Host}

theorem ofBytesOutcome : (ofBytes homes path content s).outcome =
    match String.fromUTF8? content with
    | none => .error .notText
    | some source => match Toml.read source.toList with
      | .error .malformed => .ok s
      | .error .integerTooLong => .error .unreadableNumber
      | .ok document =>
        (fun s => { s with source := some path }) <$> changeAll homes document s := by
  unfold ofBytes
  cases String.fromUTF8? content with
  | none => rfl
  | some source =>
    dsimp only
    cases Toml.read source.toList with
    | error fault => cases fault <;> rfl
    | ok document =>
      dsimp only
      cases changeAll homes document s <;> rfl

theorem ofBytesLeaves : (ofBytes homes path content standard).outcome = .ok s ↔
    Leaves homes (some (path, .ok content)) s := by
  rw [ofBytesOutcome]
  constructor
  · intro done
    split at done
    · cases done
    · rename_i source text
      split at done
      · rename_i broken
        cases done
        exact .malformed text broken
      · cases done
      · rename_i document parsed
        exact .document text parsed (changeAllOk.mp (mapOk.mp done))
  · rintro (⟨⟩ | ⟨⟩ | ⟨text, broken⟩ | ⟨text, parsed, described⟩)
    · simp only [text, broken]
    · simp only [text, parsed]
      exact mapOk.mpr (changeAllOk.mpr described)

theorem ofBytesSpoils : (ofBytes homes path content standard).outcome = .error e ↔
    Spoils homes (some (path, .ok content)) e := by
  rw [ofBytesOutcome]
  constructor
  · intro failed
    split at failed
    · rename_i broken
      cases failed
      exact .noText broken
    · rename_i source text
      split at failed
      · cases failed
      · rename_i long
        cases failed
        exact .overlong text long
      · rename_i document parsed
        exact .setting text parsed (changeAllFails.mp (mapFails.mp failed))
  · rintro (broken | ⟨text, long⟩ | ⟨text, parsed, first⟩)
    · simp only [broken]
    · simp only [text, long]
    · simp only [text, parsed]
      exact mapFails.mpr (changeAllFails.mpr first)

example (homes : String → Option Path) (path : Path) :
    (ofBytes homes path ⟨#[0xff]⟩ standard).outcome = .error .notText :=
  ofBytesSpoils.mpr (.noText (by decide +kernel))

theorem loadFileOutcome : (loadFile paths s h).1 =
    match firstFile? paths h with
    | some (path, .ok content) => (ofBytes h.homes path content s).outcome
    | _ => .ok s := by
  unfold loadFile
  rw [Session.bindOutcome]
  simp only [Session.host, okBind, firstFile?]
  cases paths.find? h.files.has with
  | none => rfl
  | some path =>
    simp only [Option.map_some]
    cases h.files.read path <;> rfl

theorem loadFileKeeps : (loadFile paths s h).2.environment = h.environment := by
  unfold loadFile
  simp only [bind, Session.host]
  cases paths.find? h.files.has with
  | none => rfl
  | some path =>
    dsimp only
    cases h.files.read path <;> rfl

theorem loadOutcome : (load paths h).1 =
    (changeByEnvironment h.setting?) <$> (loadFile paths standard h).1 := by
  have same : (loadFile paths standard h).2.setting? = h.setting? := by
    funext name
    rw [Host.setting?, loadFileKeeps, Host.setting?]
  unfold load
  rw [Session.bindOutcome, ← same]
  cases (loadFile paths standard h).1 <;> rfl

theorem loadFileLeaves :
    (loadFile paths standard h).1 = .ok s ↔ Leaves h.homes (firstFile? paths h) s := by
  rw [loadFileOutcome]
  rcases firstFile? paths h with _ | ⟨path, _ | content⟩
  · constructor
    · rintro ⟨⟩
      exact .absent
    · rintro ⟨⟩
      rfl
  · constructor
    · rintro ⟨⟩
      exact .unreadable
    · rintro ⟨⟩
      rfl
  · exact ofBytesLeaves

theorem loadFileSpoils :
    (loadFile paths standard h).1 = .error e ↔ Spoils h.homes (firstFile? paths h) e := by
  rw [loadFileOutcome]
  rcases firstFile? paths h with _ | ⟨path, _ | content⟩
  · exact ⟨nofun, nofun⟩
  · exact ⟨nofun, nofun⟩
  · exact ofBytesSpoils

end

theorem environmentPrevails (environment : String → Option String) (s : Settings) :
    s.changeByEnvironment environment = { s with
      ffmpeg := (environment "GREETMOTION_FFMPEG").getD s.ffmpeg,
      fontDirectory :=
        ((environment "GREETMOTION_FONT_DIR").map Path.ofString).or s.fontDirectory } := by
  unfold changeByEnvironment
  cases environment "GREETMOTION_FFMPEG" <;> cases environment "GREETMOTION_FONT_DIR" <;> rfl

/-- Settings are loaded unless the first file that is there spoils them, and only that file has a
part in it: settings are what it says, all of them or none, and what is built in where it says
nothing or cannot be read at all. Where the environment says something, that is the setting. -/
theorem loadReadsFirstFile (paths : List Path) (h : Host) :
    (∀ e, (load paths h).1 = .error e ↔ Spoils h.homes (firstFile? paths h) e) ∧
    (∀ s, (load paths h).1 = .ok s ↔ ∃ left, Leaves h.homes (firstFile? paths h) left ∧
      s = { left with
        ffmpeg := (h.setting? "GREETMOTION_FFMPEG").getD left.ffmpeg
        fontDirectory :=
          ((h.setting? "GREETMOTION_FONT_DIR").map Path.ofString).or left.fontDirectory }) ∧
    ∀ paths' h', firstFile? paths' h' = firstFile? paths h → h'.homes = h.homes →
      h'.environment = h.environment → (load paths' h').1 = (load paths h).1 := by
  refine ⟨fun e => ?_, fun s => ?_, fun paths' h' file homes environment => ?_⟩
  · rw [loadOutcome, mapFails, loadFileSpoils]
  · simp only [loadOutcome, mapOk, loadFileLeaves, environmentPrevails, eq_comm (a := s)]
  · have same : h'.setting? = h.setting? := by
      funext name
      rw [Host.setting?, environment, Host.setting?]
    rw [loadOutcome, loadOutcome, loadFileOutcome, loadFileOutcome, file, homes, same]

end Settings

end OverlayMotion

import OverlayMotion.Proofs.Runs

/-! How the arguments of a command are read again. An option takes the argument behind it as its
value, whatever that is, unless it is one of the two that stand alone; an input takes the options
before it. A command comes back from its arguments, unless its preset is empty, so that the option
stands there without its value and takes the next one, or its output has the name of an option. -/
namespace OverlayMotion

structure Invocation where
  binary : String
  flags : List String
  inputs : List (List (String × String) × String)
  options : List (String × String)
  operands : List String
  deriving DecidableEq, Repr

def isOption (argument : String) : Bool :=
  match argument.toList with
  | '-' :: _ :: _ => true
  | _ => false

def standsAlone (argument : String) : Bool := argument = "-y" || argument = "-shortest"

def takesValue (argument : String) : Bool := isOption argument && !standsAlone argument

def Invocation.take (i : Invocation) (option value : String) : Invocation :=
  if option = "-i" then { i with inputs := i.inputs ++ [(i.options, value)], options := [] }
  else { i with options := i.options ++ [(option, value)] }

structure ArgumentReader where
  read : Invocation
  waiting : Option String

namespace ArgumentReader

def next (s : ArgumentReader) (argument : String) : ArgumentReader :=
  match s.waiting with
  | some option => ⟨s.read.take option argument, none⟩
  | none =>
    if standsAlone argument then ⟨{ s.read with flags := s.read.flags ++ [argument] }, none⟩
    else if isOption argument then ⟨s.read, some argument⟩
    else ⟨{ s.read with operands := s.read.operands ++ [argument] }, none⟩

def after (s : ArgumentReader) (arguments : List String) : ArgumentReader := arguments.foldl next s

def result? (s : ArgumentReader) : Option Invocation :=
  if s.waiting.isNone then some s.read else none

end ArgumentReader

def readArguments : List String → Option Invocation
  | [] => none
  | binary :: arguments =>
    (ArgumentReader.after ⟨⟨binary, [], [], [], []⟩, none⟩ arguments).result?

def written (options : List (String × String)) : List String :=
  options.flatMap fun option => [option.1, option.2]

def paired : List String → List (String × String)
  | option :: value :: rest => (option, value) :: paired rest
  | _ => []

theorem pairedWritten (options : List (String × String)) : paired (written options) = options := by
  induction options with
  | nil => rfl
  | cons option rest ih =>
    change option :: paired (written rest) = _
    rw [ih]

def Keyed (options : List (String × String)) : Prop :=
  ∀ option ∈ options, takesValue option.1 ∧ option.1 ≠ "-i"

def valuedOptions : List String :=
  ["-loop", "-framerate", "-t", "-filter_complex", "-map", "-c:v", "-crf", "-preset", "-pix_fmt",
    "-r", "-c:a", "-movflags"]

theorem keyedByName {options : List (String × String)}
    (named : ∀ option ∈ options, option.1 ∈ valuedOptions) : Keyed options := by
  have known : ∀ name ∈ valuedOptions, takesValue name ∧ name ≠ "-i" := by decide +kernel
  exact fun option among => known option.1 (named option among)

namespace ArgumentReader

theorem afterAppend (s : ArgumentReader) (as bs : List String) :
    s.after (as ++ bs) = (s.after as).after bs := List.foldl_append

theorem valueRead (i : Invocation) {option : String} (takes : takesValue option) (value : String) :
    after ⟨i, none⟩ [option, value] = ⟨i.take option value, none⟩ := by
  obtain ⟨dashed, company⟩ := Bool.and_eq_true_iff.mp takes
  have joined : standsAlone option = false := by simpa using company
  have waits : next ⟨i, none⟩ option = ⟨i, some option⟩ := by
    simp only [next, joined, dashed, Bool.false_eq_true, if_false, if_true]
  simp only [after, List.foldl_cons, List.foldl_nil, waits]
  rfl

theorem writtenRead (i : Invocation) {options : List (String × String)} (keyed : Keyed options) :
    after ⟨i, none⟩ (written options) = ⟨{ i with options := i.options ++ options }, none⟩ := by
  induction options generalizing i with
  | nil => simp [written, after]
  | cons option rest ih =>
    obtain ⟨⟨takes, inner⟩, others⟩ := List.forall_mem_cons.mp keyed
    have parts : written (option :: rest) = [option.1, option.2] ++ written rest := rfl
    rw [parts, afterAppend, valueRead i takes, Invocation.take, if_neg inner, ih _ others]
    simp

theorem flagRead (i : Invocation) {flag : String} (alone : standsAlone flag) :
    after ⟨i, none⟩ [flag] = ⟨{ i with flags := i.flags ++ [flag] }, none⟩ := by
  simp only [after, List.foldl_cons, List.foldl_nil, next, alone, if_true]

theorem aloneDashed {argument : String} (alone : standsAlone argument) : isOption argument := by
  obtain same | same := Bool.or_eq_true_iff.mp alone
  · rw [of_decide_eq_true same]
    decide +kernel
  · rw [of_decide_eq_true same]
    decide +kernel

theorem operandRead (i : Invocation) {operand : String} (plain : isOption operand = false) :
    after ⟨i, none⟩ [operand] = ⟨{ i with operands := i.operands ++ [operand] }, none⟩ := by
  have joined : standsAlone operand = false := by
    rw [Bool.eq_false_iff]
    intro alone
    rw [aloneDashed alone] at plain
    contradiction
  simp only [after, List.foldl_cons, List.foldl_nil, next, joined, plain, Bool.false_eq_true,
    if_false]

theorem lastRead {i j : Invocation} {last : String}
    (done : (after ⟨i, none⟩ [last]).result? = some j) :
    j.options = i.options ∧ (isOption last → j.operands = i.operands) := by
  by_cases alone : standsAlone last
  · rw [flagRead i alone] at done
    cases done
    exact ⟨rfl, fun _ => rfl⟩
  · by_cases dashed : isOption last
    · simp [after, next, alone, dashed, result?] at done
    · rw [operandRead i (Bool.eq_false_iff.mpr dashed)] at done
      cases done
      exact ⟨rfl, fun named => absurd named dashed⟩

theorem inputRead (i : Invocation) {options : List (String × String)} (keyed : Keyed options)
    (fresh : i.options = []) (file : String) :
    after ⟨i, none⟩ (written options ++ ["-i", file]) =
      ⟨{ i with inputs := i.inputs ++ [(options, file)] }, none⟩ := by
  have takes : takesValue "-i" := by decide +kernel
  rw [afterAppend, writtenRead i keyed, valueRead _ takes, Invocation.take, if_pos rfl]
  simp [fresh]

end ArgumentReader

def Graph.MediaInput.Keyed (m : MediaInput) : Prop :=
  ∃ options, m.options = written options ∧ OverlayMotion.Keyed options

def Graph.MediaInput.read (m : MediaInput) : List (String × String) × String :=
  (paired m.options, m.path.toString)

theorem ArgumentReader.inputsRead (i : Invocation) {inputs : List Graph.MediaInput}
    (keyed : ∀ m ∈ inputs, m.Keyed) (fresh : i.options = []) :
    after ⟨i, none⟩ (inputs.flatMap Command.inputArguments) =
      ⟨{ i with inputs := i.inputs ++ inputs.map Graph.MediaInput.read }, none⟩ := by
  induction inputs generalizing i with
  | nil => simp [after]
  | cons m rest ih =>
    obtain ⟨⟨options, own, first⟩, others⟩ := List.forall_mem_cons.mp keyed
    rw [List.flatMap_cons, afterAppend, Command.inputArguments, own, inputRead i first fresh,
      ih _ others (by exact fresh), List.map_cons, Graph.MediaInput.read, own, pairedWritten]
    simp

namespace Graph
variable {ν : Type} [Number ν]

theorem bareKeyed (path : Path) : MediaInput.Keyed ⟨path, []⟩ := ⟨[], rfl, nofun⟩

theorem loopedKeyed (path : Path) (options : List (String × String))
    (named : ∀ option ∈ options, option.1 ∈ valuedOptions) :
    MediaInput.Keyed ⟨path, ["-loop", "1"] ++ written options⟩ := by
  refine ⟨("-loop", "1") :: options, rfl, keyedByName (List.forall_mem_cons.mpr ⟨?_, named⟩)⟩
  exact List.mem_cons_self

theorem stillKeyed {s : Still ν} {fps : Option Int} {m : MediaInput}
    (made : stillInput s fps = .ok m) : m.Keyed := by
  obtain ⟨seconds, -, same⟩ := bindOk.mp made
  cases same
  cases effectiveRate fps with
  | none => exact loopedKeyed s.path [("-t", seconds)] (by simp [valuedOptions])
  | some fps =>
    exact loopedKeyed s.path [("-framerate", toString fps), ("-t", seconds)]
      (by simp [valuedOptions])

omit [Number ν] in
theorem overlaysKeyed (overlays : List (Overlay ν)) : ∀ m ∈ overlayInputs overlays, m.Keyed := by
  intro m among
  obtain ⟨o, -, made⟩ := List.mem_filterMap.mp among
  cases o with
  | caption c => cases made
  | image i =>
    cases made
    exact loopedKeyed i.path [] nofun

theorem closingKeyed {c : Composition ν} {label : String} {finish : List Filter} {n : Nat}
    {chains inputs total}
    (done : (finishPicture c label finish n).outcome = .ok (chains, inputs, total)) :
    ∀ m ∈ inputs, m.Keyed := by
  unfold finishPicture at done
  split at done
  · cases done
    exact nofun
  · simp only [Logged.bindOk, Logged.liftOutcome, Logged.pureOutcome] at done
    obtain ⟨input, made, _, -, _, -, _, -, same⟩ := done
    cases same
    exact List.forall_mem_singleton.mpr (stillKeyed made)

theorem soundKeyed {audio : Option (Audio ν)} {n : Nat} {total chains inputs label}
    (done : (finishSound audio n total).outcome = .ok (chains, inputs, label)) :
    ∀ m ∈ inputs, m.Keyed := by
  cases audio with
  | none =>
    cases done
    exact nofun
  | some audio =>
    obtain ⟨_, -, same⟩ := Logged.bindOk.mp done
    cases same
    exact List.forall_mem_singleton.mpr (bareKeyed audio.path)

theorem planKeyed {c : Composition ν} {p : Plan} (planned : (plan c).outcome = .ok p) :
    ∀ m ∈ p.inputs, m.Keyed := by
  simp only [plan, Logged.bindOk, Logged.pureOutcome] at planned
  obtain ⟨_, -, _, -, ⟨_, stillInputs, _⟩, finished, ⟨_, soundInputs, _⟩, heard, _, -, same⟩ :=
    planned
  cases same
  have pictured : ∀ m ∈ ⟨c.base, []⟩ :: overlayInputs c.overlays, m.Keyed :=
    List.forall_mem_cons.mpr ⟨bareKeyed c.base, overlaysKeyed c.overlays⟩
  exact List.forall_mem_append.mpr
    ⟨List.forall_mem_append.mpr ⟨pictured, closingKeyed finished⟩, soundKeyed heard⟩

theorem chainWritten (c : Chain) : c.text ≠ "" := by
  simp [Chain.text, bracketed]

theorem planDrawn {c : Composition ν} {p : Plan} (planned : (plan c).outcome = .ok p) :
    p.graph ≠ "" := by
  obtain ⟨layered, fades, closing, sounds, -, parted⟩ := planParts planned
  have drawn : p.chains ≠ [] := by
    intro none
    simp [Plan.allFilters, none] at parted
  rw [Plan.graph, Plan.filters]
  cases chained : p.chains with
  | nil => exact absurd chained drawn
  | cons first rest =>
    cases rest with
    | nil => simpa using chainWritten first
    | cons second rest => simp [String.intercalate_cons_cons]

end Graph

theorem wholeGiven (n : Int) : n.repr ≠ "" := by
  cases n with
  | ofNat n => exact Nat.repr_ne_empty
  | negSucc n => simp [Int.repr]

namespace Rendering

def streamOptions (p : Graph.Plan) : List (String × String) :=
  [("-filter_complex", p.graph), ("-map", p.video), ("-map", p.audio.getD "0:a?")]

def codingOptions (e : Encoding) : List (String × String) :=
  [("-c:v", "libx264"), ("-crf", toString e.crf)]

def formatOptions (e : Encoding) : List (String × String) :=
  [("-pix_fmt", "yuv420p"), ("-r", toString e.fps), ("-c:a", "aac"), ("-movflags", "+faststart")]

def invocation (r : Rendering) (output : Path) (p : Graph.Plan) : Invocation where
  binary := r.encoding.ffmpeg
  flags := ["-y"] ++ if p.audio.isSome then ["-shortest"] else []
  inputs := p.inputs.map Graph.MediaInput.read
  options := streamOptions p ++ codingOptions r.encoding ++
    ("-preset", r.encoding.preset) :: formatOptions r.encoding
  operands := [output.toString]

def leadingArguments (r : Rendering) (p : Graph.Plan) : List String :=
  ["-y"] ++ p.inputs.flatMap Command.inputArguments ++ written (streamOptions p) ++
    (if p.audio.isSome then ["-shortest"] else []) ++ written (codingOptions r.encoding)

theorem encodedArguments (r : Rendering) (output : Path) {p : Graph.Plan} (drawn : p.graph ≠ "") :
    (r.encode output p).arguments = r.encoding.ffmpeg :: (r.leadingArguments p ++
      (Command.optionArguments ("preset", r.encoding.preset) ++
        written (formatOptions r.encoding) ++ [output.toString])) := by
  rw [encoded, Command.arguments, leadingArguments]
  cases audio : p.audio <;>
    simp [audio, drawn, Command.optionArguments, written, wholeGiven, streamOptions, codingOptions,
      formatOptions]

theorem optionsKeyed (r : Rendering) (p : Graph.Plan) (preset : String) :
    Keyed (streamOptions p) ∧ Keyed (codingOptions r.encoding) ∧
      Keyed (("-preset", preset) :: formatOptions r.encoding) :=
  ⟨keyedByName (by simp [streamOptions, valuedOptions]),
    keyedByName (by simp [codingOptions, valuedOptions]),
    keyedByName (by simp [formatOptions, valuedOptions])⟩

theorem leadingRead (r : Rendering) (output : Path) {p : Graph.Plan}
    (keyed : ∀ m ∈ p.inputs, m.Keyed) :
    ArgumentReader.after ⟨⟨r.encoding.ffmpeg, [], [], [], []⟩, none⟩ (r.leadingArguments p) =
      ⟨{ r.invocation output p with
        options := streamOptions p ++ codingOptions r.encoding, operands := [] }, none⟩ := by
  obtain ⟨streams, coding, -⟩ := r.optionsKeyed p ""
  have flagged (i : Invocation) :
      ArgumentReader.after ⟨i, none⟩ (if p.audio.isSome then ["-shortest"] else []) =
        ⟨{ i with flags := i.flags ++ if p.audio.isSome then ["-shortest"] else [] }, none⟩ := by
    split
    · exact ArgumentReader.flagRead i (by decide +kernel)
    · simp [ArgumentReader.after]
  have forced : standsAlone "-y" := by decide +kernel
  simp only [leadingArguments, ArgumentReader.afterAppend]
  rw [ArgumentReader.flagRead _ forced, ArgumentReader.inputsRead _ keyed rfl,
    ArgumentReader.writtenRead _ streams, flagged, ArgumentReader.writtenRead _ coding]
  rfl

theorem presetRead (r : Rendering) (output : Path) {p : Graph.Plan} (drawn : p.graph ≠ "")
    (keyed : ∀ m ∈ p.inputs, m.Keyed) (given : r.encoding.preset ≠ "") :
    readArguments (r.encode output p).arguments = (ArgumentReader.after
      ⟨{ r.invocation output p with operands := [] }, none⟩ [output.toString]).result? := by
  obtain ⟨-, -, rest⟩ := r.optionsKeyed p r.encoding.preset
  have valued : Command.optionArguments ("preset", r.encoding.preset) ++
      written (formatOptions r.encoding) =
        written (("-preset", r.encoding.preset) :: formatOptions r.encoding) := by
    simp [Command.optionArguments, given, written]
  rw [encodedArguments r output drawn, valued, readArguments, ArgumentReader.afterAppend,
    leadingRead r output keyed, ArgumentReader.afterAppend, ArgumentReader.writtenRead _ rest]
  rfl

theorem presetMissed (r : Rendering) (output : Path) {p : Graph.Plan} (drawn : p.graph ≠ "")
    (keyed : ∀ m ∈ p.inputs, m.Keyed) (empty : r.encoding.preset = "") {i : Invocation}
    (read : readArguments (r.encode output p).arguments = some i) :
    i.options = streamOptions p ++ codingOptions r.encoding ++
      ("-preset", "-pix_fmt") :: (formatOptions r.encoding).tail := by
  obtain ⟨-, -, rest⟩ := r.optionsKeyed p "-pix_fmt"
  obtain ⟨taken, rest⟩ := List.forall_mem_cons.mp rest
  have others : Keyed (formatOptions r.encoding).tail :=
    fun option among => rest option (List.mem_of_mem_tail among)
  have swallowed : Command.optionArguments ("preset", r.encoding.preset) ++
      written (formatOptions r.encoding) = written [("-preset", "-pix_fmt")] ++
        (["yuv420p"] ++ written (formatOptions r.encoding).tail) := by
    simp [Command.optionArguments, empty, written, formatOptions]
  have stray : isOption "yuv420p" = false := by decide +kernel
  rw [encodedArguments r output drawn, swallowed, readArguments, ArgumentReader.afterAppend,
    leadingRead r output keyed, ArgumentReader.afterAppend, ArgumentReader.afterAppend,
    ArgumentReader.writtenRead _ (List.forall_mem_singleton.mpr taken), ArgumentReader.afterAppend,
    ArgumentReader.operandRead _ stray, ArgumentReader.writtenRead _ others] at read
  rw [(ArgumentReader.lastRead read).1]
  simp

/-- Whoever reads the arguments of a command finds the program, its inputs with their options, the
filter graph, the streams, the encoding and the output, exactly if the preset is not empty and the
output does not look like an option. -/
theorem argumentsRead {r : Rendering} {output : Path} {h : Host} {c : Command}
    (built : (r.command output h).1 = .ok c) :
    ∃ p, (r.plan h).1 = .ok p ∧
      (readArguments c.arguments = some (r.invocation output p) ↔
        r.encoding.preset ≠ "" ∧ isOption output.toString = false) ∧
      (∀ m ∈ p.inputs, written (paired m.options) = m.options) ∧
      ("-shortest" ∈ (r.invocation output p).flags ↔ p.audio.isSome) := by
  obtain ⟨p, planned, rfl⟩ := commandOk.mp built
  obtain ⟨base, -, composed⟩ := bindOk.mp (r.planOutcome h ▸ planned)
  have drawn := Graph.planDrawn (mapErrorOk.mp composed)
  have keyed := Graph.planKeyed (mapErrorOk.mp composed)
  refine ⟨p, planned, ⟨fun read => ?_, fun ⟨given, plain⟩ => ?_⟩, fun m among => ?_, ?_⟩
  · have given : r.encoding.preset ≠ "" := by
      intro empty
      have missed := r.presetMissed output drawn keyed empty read
      simp [invocation, formatOptions] at missed
    refine ⟨given, Bool.eq_false_iff.mpr fun dashed => ?_⟩
    rw [r.presetRead output drawn keyed given] at read
    have lost := (ArgumentReader.lastRead read).2 dashed
    simp [invocation] at lost
  · rw [r.presetRead output drawn keyed given, ArgumentReader.operandRead _ plain]
    rfl
  · obtain ⟨options, own, -⟩ := keyed m among
    rw [own, pairedWritten]
  · cases audio : p.audio <;> simp [invocation, audio]

theorem quietEndingRead :
    let host : Host := ⟨.empty, [], fun _ => none, [.ended 0 "15\n" ""], [], []⟩
    let output := Path.ofString "out/video.mp4"
    (∃ r c p, (prepare quietEnding { Settings.standard with preset := "slow" } [] host).1 = .ok r ∧
      (r.command output host).1 = .ok c ∧ (r.plan host).1 = .ok p ∧
      readArguments c.arguments = some (r.invocation output p)) ∧
    ∃ r c p, (prepare quietEnding { Settings.standard with preset := "" } [] host).1 = .ok r ∧
      (r.command output host).1 = .ok c ∧ (r.plan host).1 = .ok p ∧
      readArguments c.arguments ≠ some (r.invocation output p) := by
  intro host output
  have succeeds : ∀ preset ∈ ["slow", ""],
      (prepare quietEnding { Settings.standard with preset := preset } [] host).1.isOk = true ∧
      ∀ r, (prepare quietEnding { Settings.standard with preset := preset } [] host).1 = .ok r →
        (r.command output host).1.isOk = true := by decide +kernel
  have read : ∀ preset ∈ ["slow", ""], ∃ r c p,
      (prepare quietEnding { Settings.standard with preset := preset } [] host).1 = .ok r ∧
      (r.command output host).1 = .ok c ∧ (r.plan host).1 = .ok p ∧
      (readArguments c.arguments = some (r.invocation output p) ↔ preset ≠ "") := by
    intro preset among
    obtain ⟨r, prepared⟩ := succeeded (succeeds preset among).1
    obtain ⟨c, built⟩ := succeeded ((succeeds preset among).2 r prepared)
    obtain ⟨p, planned, told, -⟩ := argumentsRead built
    have chosen : r.encoding.preset = preset := by
      rw [(prepareOk.mp prepared).2.1]
      rfl
    have plain : isOption output.toString = false := by decide +kernel
    exact ⟨r, c, p, prepared, built, planned, by rw [told, chosen]; simp [plain]⟩
  obtain ⟨r, c, p, prepared, built, planned, told⟩ := read "slow" (by simp)
  obtain ⟨r', c', p', prepared', built', planned', told'⟩ := read "" (by simp)
  exact ⟨⟨r, c, p, prepared, built, planned, told.mpr (by simp)⟩,
    r', c', p', prepared', built', planned', fun read => told'.mp read rfl⟩

end Rendering

end OverlayMotion

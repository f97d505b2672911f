import OverlayMotion.CommandLine.Arguments
import OverlayMotion.Job.File
import OverlayMotion.Journal.Logbook
import OverlayMotion.Rendering.Preview
/-! The command line: `render` makes the video of a job file, `inspect` shows what its
overlays will do, and `sample` shows it at one frame time. On a plain terminal printed things
stand line by line, misuse is answered with the usage, and reports are shown from the level
that was asked for. -/
namespace OverlayMotion
namespace CommandLine

inductive Printed
  | markup (text : String)
  | table (title : String) (columns : List String) (rows : List (List String))
  | panel (title text : String)
  deriving DecidableEq, Repr

structure Reporting where
  verbose : Bool
  directory : Option Path
  asRecords : Bool
  deriving DecidableEq, Repr

inductive Stop
  | answered
  | misused (reason : Misuse)
  | failed (text : String)
  | crashed (failure : Failure)

structure Outcome where
  printed : List Printed
  reporting : Option Reporting
  stop : Option Stop

namespace Outcome

def exitCode (o : Outcome) : Nat :=
  match o.stop with
  | none | some .answered => 0
  | some (.misused _) => 2
  | some (.failed _) | some (.crashed _) => 1

def crash? (o : Outcome) : Option Failure :=
  match o.stop with
  | some (.crashed failure) => some failure
  | _ => none

end Outcome

def find (files : Files) (word : String) : Except FileFault Entry :=
  if word.isEmpty then .error .notFound
  else match files.lookup (.ofString word) with
    | .ok (.file content) =>
      if word.endsWith "/" || word.endsWith "/." then .error .notDirectory else .ok (.file content)
    | other => other

def existingFile (files : Files) (word : String) : Except Stop Path :=
  match find files word with
  | .ok (.file _) => .ok (.ofString word)
  | _ => .error (.misused (.badValue "job_file" word))

def fileToWrite (files : Files) (word : String) : Except Stop Path :=
  match find files word with
  | .ok .directory => .error (.misused (.badValue "output" word))
  | _ => .ok (.ofString word)

def directoryToWrite (files : Files) (word : String) : Except Stop Path :=
  match find files word with
  | .ok (.file _) => .error (.misused (.badValue "log-dir" word))
  | _ => .ok (.ofString word)

def onlyOperand : List String → Except Stop String
  | [] => .error (.misused .operandMissing)
  | [word] => .ok word
  | _ :: word :: _ => .error (.misused (.operandExtra word))

def splitPair (cs : List Char) : Option (List Char × List Char) :=
  match cs.span (· ≠ '=') with
  | (name, _ :: value) => some (name, value)
  | _ => none

def readVariable (word : String) : Except Misuse (String × String) :=
  match splitPair word.toList with
  | some (name, value) => .ok (String.ofList (Text.trim name), String.ofList value)
  | none => .error (.badValue "set" word)

def readVariables (words : List String) : Except Misuse (Entries String) :=
  Entries.ofPairs <$> words.mapM readVariable

def notAVariable (word : String) : String := "Expected name=value, got " ++ Text.quoted word

def helpSwitch : Switch := ⟨"help", none, false⟩

def programSwitches : List Switch := [
  ⟨"version", none, false⟩, ⟨"verbose", some 'v', false⟩, ⟨"log-dir", none, true⟩,
  ⟨"json-logs", none, false⟩, helpSwitch]

inductive Verb
  | render
  | inspect
  | sample
  deriving DecidableEq, Repr

def Verb.ofName? : String → Option Verb
  | "render" => some .render
  | "inspect" => some .inspect
  | "sample" => some .sample
  | _ => none

def Verb.switches : Verb → List Switch
  | .render => [⟨"output", some 'o', true⟩, ⟨"set", none, true⟩, ⟨"dry-run", none, false⟩,
      helpSwitch]
  | .inspect => [⟨"set", none, true⟩, helpSwitch]
  | .sample => [⟨"time", some 't', true⟩, ⟨"set", none, true⟩, helpSwitch]

def argumentsFor (switches : List Switch) (mixed : Bool) (words : List String) :
    Except Stop Arguments :=
  match Arguments.ofWords switches mixed words with
  | .error e => .error (.misused e)
  | .ok a => if a.has "help" || a.has "version" then .error .answered else .ok a

def loadingStop : Failure → Stop
  | .job fault => .failed ("[red]Error loading job:[/red] " ++ fault.message)
  | .rejected reason => .failed ("[red]Invalid overlay:[/red] " ++ reason.message)
  | .formula .wrongArity => .crashed (.formula .wrongArity)
  | .formula (.fault f) => .crashed (.formula (.fault f))
  | .formula e => .failed ("[red]Invalid position expression:[/red] " ++ e.message)
  | other => .crashed other

def loadRendering (settings : Session Failure Settings) (file : Path)
    (values : Entries String) : Session Stop Rendering :=
  Session.mapError loadingStop do
    let job ← Job.load file
    let s ← settings
    Rendering.prepare job s values

def prepare (settings : Session Failure Settings) (a : Arguments) :
    Session Stop (Path × Rendering) := do
  let word ← onlyOperand a.operands
  let file ← existingFile (← Session.host).files word
  let values ← (readVariables (a.values "set")).mapError Stop.misused
  return (file, ← loadRendering settings file values)

def render (settings : Session Failure Settings) (a : Arguments) : Session Stop (List Printed) := do
  let files := (← Session.host).files
  let asked ← (a.value? "output").mapM fun word => Session.ofExcept (fileToWrite files word)
  let (file, r) ← prepare settings a
  let output := asked.getD ((file.withExtension? ".mp4").getD file)
  let result ← (r.run output (a.has "dry-run")).mapError .crashed
  if a.has "dry-run" then
    return [.panel "FFmpeg command" result.command, .markup "[yellow]Dry run - not rendering[/yellow]"]
  else if result.success then
    return [.markup s!"[green]Rendered {result.overlayCount} overlays:[/green] {result.output}"]
  else throw (.failed ("[red]Render failed:[/red] " ++ result.error.getD "None"))

def numbered (rows : List (List String)) : List (List String) :=
  rows.mapIdx fun i row => toString i :: row

def inspectRow (p : Preview) : List String := [
  if p.isCaption then "text" else "image", p.label,
  s!"{p.start.general}s - {p.finish.general}s",
  "\n".intercalate (p.expressions.map fun (name, source) => s!"[bold]{name}[/bold] = {source}")]

def inspect (settings : Session Failure Settings) (a : Arguments) :
    Session Stop (List Printed) := do
  let (file, r) ← prepare settings a
  let previews ← r.preview.mapError .crashed
  let table : Printed := .table s!"Overlays ({file.name})"
    ["#", "Kind", "Overlay", "Window", "Expressions"] (numbered (previews.map inspectRow))
  let still := match r.still with
    | some still => [.markup
        s!"Closing still: [cyan]{still.path.name}[/cyan] for {still.duration.general}s"]
    | none => []
  return table :: still

def placesOr (places : Nat) (value : Option Float) : String :=
  match value with
  | some x => Decimal.withPlaces places x
  | none => "-"

def sampleRow (p : Preview) (values : Entries Float) : List String := [
  p.label, if (values.get? "enable").any (· == 0) then "[dim]no[/dim]" else "[green]yes[/green]",
  placesOr 1 (values.get? "x"), placesOr 1 (values.get? "y"), placesOr 2 (values.get? "alpha"),
  placesOr 1 (values.get? "size")]

def samplingStop : Failure → Stop
  | .formula .wrongArity => .crashed (.formula .wrongArity)
  | .formula (.fault f) => .crashed (.formula (.fault f))
  | .formula e => .failed ("[red]Cannot evaluate overlay:[/red] " ++ e.message)
  | other => .crashed other

def readTime (word : Option String) : Except Stop Float :=
  match word with
  | none => .error (.misused (.valueMissing "time"))
  | some word => match Decimal.readFloat? word.toList with
    | some time => .ok time
    | none => .error (.misused (.badValue "time" word))

def sample (settings : Session Failure Settings) (a : Arguments) : Session Stop (List Printed) := do
  let time ← readTime (a.value? "time")
  let (_, r) ← prepare settings a
  let samples ← (r.sample time []).mapError samplingStop
  let previews ← r.preview.mapError .crashed
  let rows := (previews.zip samples).map fun (p, values) => sampleRow p values
  return [.table s!"t = {Decimal.general time}s"
    ["#", "Overlay", "Visible", "x", "y", "alpha", "size"] (numbered rows)]

def perform (settings : Session Failure Settings) (verb : Verb) (words : List String) :
    Session Stop (List Printed) := do
  let a ← argumentsFor verb.switches true words
  match verb with
  | .render => render settings a
  | .inspect => inspect settings a
  | .sample => sample settings a

structure Request where
  reporting : Reporting
  verb : Verb
  words : List String

def unknownVerb (word : String) (rest : List String) : Stop :=
  match argumentsFor programSwitches false (word :: rest) with
  | .error stop => stop
  | .ok _ => .misused (.commandUnknown word)

def readRequest (files : Files) (words : List String) : Except Stop Request := do
  let a ← argumentsFor programSwitches false words
  let directory ← (a.value? "log-dir").mapM (directoryToWrite files)
  match a.operands with
  | [] => .error (.misused .commandMissing)
  | word :: rest => match Verb.ofName? word with
    | some verb => return ⟨⟨a.has "verbose", directory, a.has "json-logs"⟩, verb, rest⟩
    | none => .error (unknownVerb word rest)

def Stop.printed : Stop → List Printed
  | failed text => [.markup text]
  | _ => []

def run {ε : Type} (settings : Session Failure Settings) (words : List String) :
    Session ε Outcome := do
  match readRequest (← Session.host).files words with
  | .error stop => return ⟨[], none, some stop⟩
  | .ok request => match ← (perform settings request.verb request.words).attempt with
    | .ok printed => return ⟨printed, some request.reporting, none⟩
    | .error stop => return ⟨stop.printed, some request.reporting, some stop⟩

def Printed.lines : Printed → List String
  | .markup text => [text]
  | .panel title text => [title, text]
  | .table title columns rows => title :: (columns :: rows).map fun row => "\t".intercalate row

def usage : List String := [
  "Usage: greetmotion [-v] [--log-dir DIRECTORY] [--json-logs] COMMAND JOB_FILE",
  "  render  [-o FILE] [--set NAME=VALUE] [--dry-run]",
  "  inspect [--set NAME=VALUE]",
  "  sample  -t SECONDS [--set NAME=VALUE]"]

def Misuse.message : Misuse → String
  | .unknownOption word => "No such option: " ++ word
  | .valueMissing option => s!"Option --{option} requires an argument."
  | .valueRefused option => s!"Option --{option} does not take a value."
  | .operandMissing => "Missing argument JOB_FILE."
  | .operandExtra word => s!"Got unexpected extra argument ({word})"
  | .badValue option value => s!"Invalid value for {option}: {value}"
  | .commandMissing => "Missing command."
  | .commandUnknown word => "No such command: " ++ word

def Outcome.lines (o : Outcome) : List String :=
  o.printed.flatMap Printed.lines ++ match o.stop with
    | some .answered => usage
    | some (.misused reason) => usage ++ ["Error: " ++ Misuse.message reason]
    | some (.crashed _) => ["The program failed."]
    | _ => []

def recordOf (n : Notice Scalar) : Record where
  level := n.level
  component := n.source
  context := (n.step?.map fun step => ("overlay", Datum.integer step)).toList
  message := n.message

def reports (reporting : Reporting) (levelName : Option String) (notices : List (Notice Scalar)) :
    List String :=
  let threshold := if reporting.verbose then Level.debug
    else (Level.ofName? (levelName.getD "INFO")).getD .info
  let book := { Logbook.empty with threshold := threshold }
  ((notices.map recordOf).foldl Logbook.write book).console

end CommandLine

end OverlayMotion

import OverlayMotion.Datum
import OverlayMotion.Journal
import OverlayMotion.Path
/-! Where reports go once somebody asks to see them: to the console from a chosen level
up, and to a file of the day from the debug level up, as lines of text or as records.
Reports of no component go nowhere. -/
namespace OverlayMotion

structure Record where
  level : Level
  component : String
  context : Entries Datum
  message : String

namespace Level

def capitals (c : Char) : List Char :=
  -- Letters of other scripts count in the name of a level where their capital is a Latin one.
  if c = 'ı' then ['I'] else if c = 'ſ' then ['S'] else if c = 'ß' then ['S', 'S'] else [c.toUpper]

def ofName? (given : String) : Option Level :=
  all.find? fun level => level.name == String.ofList (given.toList.flatMap capitals)

def column (level : Level) : String :=
  level.name ++ String.ofList (List.replicate (8 - level.name.length) ' ')

end Level

namespace Record

def contextText (r : Record) : String :=
  String.join (r.context.map fun (key, value) => s!"[{key}={value.shown}]")

def consoleLine (r : Record) : String :=
  let context := if r.context.isEmpty then "" else " " ++ r.contextText
  s!"{r.level.column} | {r.component}{context} - {r.message}"

def fileLine (r : Record) : String := s!"{r.level.column} | {r.component} - {r.message}"

end Record

structure Logbook where
  threshold : Level
  asRecords : Bool
  console : List String
  lines : Option (List String)
  records : Option (List Record)

namespace Logbook

def empty : Logbook := ⟨.info, false, [], none, none⟩

def extension (asRecords : Bool) : String := if asRecords then ".jsonl" else ".log"

def write (b : Logbook) (r : Record) : Logbook :=
  let console := if b.threshold.severity ≤ r.level.severity then b.console ++ [r.consoleLine]
    else b.console
  if r.level.severity < Level.debug.severity then { b with console := console }
  else if b.asRecords then
    { b with console := console, records := b.records.map (· ++ [r]) }
  else { b with console := console, lines := b.lines.map (· ++ [r.fileLine]) }

def turn (b : Logbook) (verbose : Bool) (levelName : Option String) (directory : Path)
    (day : String) (asRecords : Bool) : Option Logbook := do
  let threshold ← if verbose then some Level.debug else Level.ofName? (levelName.getD "INFO")
  let file := directory.join (.ofString (day ++ extension asRecords))
  let b := { b with
    threshold := threshold
    asRecords := asRecords
    lines := if asRecords then b.lines else some (b.lines.getD [])
    records := if asRecords then some (b.records.getD []) else b.records }
  return b.write ⟨.debug, "logging", [], s!"Logging to {file} (stderr level {threshold.name})"⟩

end Logbook

end OverlayMotion

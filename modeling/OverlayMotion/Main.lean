import OverlayMotion.CommandLine
import OverlayMotion.Settings.File
/-! The program itself: it reads the files that its words name, runs on them, and shows
what came of it. No external program is started from here. -/
namespace OverlayMotion

def addFile (files : Files) (path : Path) : IO Files := do
  try
    return files.write path (← IO.FS.readBinFile path.toString)
  catch _ => return files

def fontsOf (host : Host) (word : String) : List Path :=
  match (Job.load (.ofString word) host).1 with
  | .ok job => job.fontFiles host.homes
  | .error _ => []

def environmentNames : List String :=
  ["GREETMOTION_FFMPEG", "GREETMOTION_FONT_DIR", "GREETMOTION_LOG_LEVEL"]

def readEnvironment : IO (List (String × String)) := do
  let found ← environmentNames.mapM fun name => do
    return (← IO.getEnv name).map fun value => (name, value)
  return found.filterMap id

def readHost (home : Path) (words : List String) : IO Host := do
  let named := Settings.standardPaths home ++ words.map Path.ofString
  let files ← named.foldlM addFile Files.empty
  let host : Host := ⟨files, ← readEnvironment, fun user => if user.isEmpty then some home else none,
    [], [], []⟩
  let files ← (words.flatMap (fontsOf host)).foldlM addFile files
  return { host with files := files }

end OverlayMotion

open OverlayMotion

def main (words : List String) : IO UInt32 := do
  let home := Path.ofString ((← IO.getEnv "HOME").getD "/")
  let host ← readHost home words
  let settings := Settings.load (Settings.standardPaths home)
  let (result, after) := (CommandLine.run settings words : Session Failure _) host
  for directory in after.files.directories do
    IO.FS.createDirAll ("/".intercalate directory)
  match result with
  | .error _ => return 1
  | .ok outcome =>
    for reporting in outcome.reporting.toList do
      for line in CommandLine.reports reporting (host.setting? "GREETMOTION_LOG_LEVEL")
          after.notices do
        IO.eprintln line
    for line in outcome.lines do
      IO.println line
    return UInt32.ofNat outcome.exitCode

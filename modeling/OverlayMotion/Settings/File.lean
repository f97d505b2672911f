import OverlayMotion.Datum.Toml
import OverlayMotion.Settings
/-! Settings files and the environment. Only the first file that is there counts; one that
cannot be read as TOML is reported and leaves everything as it was. -/
namespace OverlayMotion.Settings

def ofBytes (homes : String → Option Path) (path : Path) (content : ByteArray) (s : Settings) :
    Logged Scalar Failure Settings := do
  match String.fromUTF8? content with
  | none => throw .notText
  | some source => match Toml.read source.toList with
    | .error .malformed => do
      Logged.note (.settingsIgnored path.toString)
      return s
    | .error .integerTooLong => throw .unreadableNumber
    | .ok document => do
      let s ← changeAll homes document s
      Logged.note (.settingsLoaded path.toString)
      return { s with source := some path }

def loadFile (paths : List Path) (s : Settings) : Session Failure Settings := do
  let host ← Session.host
  match paths.find? host.files.has with
  | none => return s
  | some path => match host.files.read path with
    | .error _ => do
      Session.note (.settingsIgnored path.toString)
      return s
    | .ok content => ofBytes host.homes path content s

def changeByEnvironment (environment : String → Option String) (s : Settings) : Settings :=
  let s := match environment "GREETMOTION_FFMPEG" with
    | some binary => { s with ffmpeg := binary }
    | none => s
  match environment "GREETMOTION_FONT_DIR" with
  | some directory => { s with fontDirectory := some (Path.ofString directory) }
  | none => s

def load (paths : List Path) : Session Failure Settings := do
  let s ← loadFile paths standard
  return s.changeByEnvironment (← Session.host).setting?

def standardPaths (home : Path) : List Path := [
  home.join (.ofString ".config/greetmotion/config.toml"),
  home.join (.ofString ".greetmotion.toml")]

def demand (cached : Option Settings) (paths : List Path) : Session Failure Settings :=
  match cached with
  | some s => pure s
  | none => load paths

end OverlayMotion.Settings

import OverlayMotion.Command
import OverlayMotion.Graph.Composition
import OverlayMotion.Job.File
import OverlayMotion.Settings
/-! A job made ready to be rendered under a user's settings: its parts are checked and
its fonts are found. From there follow the plan of its filter graph, the command that
makes the video, and the run of that command. -/
namespace OverlayMotion

structure Encoding where
  width : Int
  height : Int
  fps : Int
  crf : Int
  preset : String
  ffmpeg : String
  ffprobe : String

def Encoding.choose (asked : Option Int) (usual : Int) : Int := (asked.filter (· ≠ 0)).getD usual

def Encoding.ofSettings (s : Settings) (asked : Job.OutputEntry) : Encoding where
  width := choose asked.width s.width
  height := choose asked.height s.height
  fps := choose asked.fps s.fps
  crf := s.crf
  preset := s.preset
  ffmpeg := s.ffmpeg
  ffprobe := s.ffprobe

structure Rendering where
  job : Job
  encoding : Encoding
  overlays : List (Overlay Scalar)
  audio : Option (Audio Scalar)
  fade : Option (PictureFade Scalar)
  still : Option (Still Scalar)

structure RunResult where
  success : Bool
  output : Path
  command : String
  overlayCount : Nat
  error : Option String

namespace Rendering

def chooseFont (s : Settings) (h : Host) (own : Option Path) : Except Failure (Option Path) := do
  if own.any h.files.has then return own
  else return (← s.resolveFont h.homes (own.map Path.name)).or own

def withFont (s : Settings) (h : Host) : Overlay Scalar → Except Failure (Overlay Scalar)
  | .image i => .ok (.image i)
  | .caption c => do return .caption { c with fontFile := ← chooseFont s h c.fontFile }

def prepare (job : Job) (s : Settings) (values : Entries String) :
    Session Failure Rendering := do
  let host ← Session.host
  let bare ← job.overlays host.homes values
  let overlays ← bare.mapM fun o => Session.ofExcept (withFont s host o)
  overlays.forM fun o => Session.note (.overlayLoaded o.label)
  let audio ← job.audioTrack host.homes
  let fade ← job.pictureFade
  let still ← job.closingStill host.homes
  return ⟨job, .ofSettings s job.output, overlays, audio, fade, still⟩

def baseDuration (r : Rendering) : Session Failure (Option Scalar) := do
  match r.job.duration with
  | some seconds => return some seconds
  | none =>
    let video ← r.job.baseVideoPath (← Session.host).homes
    match ← (probeDuration r.encoding.ffprobe video).attempt with
    | .ok seconds => return some (.float seconds)
    | .error e =>
      Session.note (.probeFailed e.message)
      return none

def composition (r : Rendering) (base : Path) (duration : Option Scalar) :
    Graph.Composition Scalar where
  base := base
  overlays := r.overlays
  size := (r.encoding.width, r.encoding.height)
  audio := r.audio
  duration := duration
  fade := r.fade
  still := r.still
  fps := some r.encoding.fps

def plan (r : Rendering) : Session Failure Graph.Plan := do
  let duration ← if r.job.needsDuration then r.baseDuration else pure r.job.duration
  let base ← r.job.baseVideoPath (← Session.host).homes
  (Session.ofLogged (Graph.plan (r.composition base duration))).mapError .formula

def encode (r : Rendering) (output : Path) (plan : Graph.Plan) : Command :=
  let e := r.encoding
  let c := ((Command.new output e.ffmpeg).usePlan plan).setVideoCodec "libx264"
  let c := (c.setQuality e.crf e.preset).setPixelFormat "yuv420p"
  ((c.setFrameRate e.fps).setAudioCodec "aac").setMovieFlags "faststart"

def command (r : Rendering) (output : Path) : Session Failure Command := do
  return r.encode output (← r.plan)

def makeDirectory (p : Path) : Session Failure Unit := fun h =>
  match h.files.makeDirectory p with
  | .ok files => (.ok (), { h with files := files })
  | .error fault => (.error (.noDirectory fault), h)

def run (r : Rendering) (output : Path) (dryRun : Bool) : Session Failure RunResult := do
  let c ← r.command output
  let result : RunResult := ⟨true, output, c.line, r.overlays.length, none⟩
  if dryRun then return result
  makeDirectory output.parent
  match ← c.run.attempt with
  | .ok _ =>
    Session.note (.rendered output.toString)
    return result
  | .error e =>
    Session.note (.renderFailed e.message)
    Session.note (.commandFailed e.commandLine)
    return { result with success := false, error := some e.message }

end Rendering

end OverlayMotion

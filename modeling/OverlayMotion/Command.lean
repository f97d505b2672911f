import OverlayMotion.Datum
import OverlayMotion.Graph
import OverlayMotion.Tool
/-! The command that makes a video: the inputs with their options, the filter graph, the
streams to keep, and the options of the output, each of which is given once. An empty value
stands for an option that has none. -/
namespace OverlayMotion

structure Command where
  binary : String
  output : Path
  inputs : List Graph.MediaInput
  graph : String
  maps : List String
  options : Entries String

namespace Command

def defaultBinary : String := "ffmpeg"

def new (output : Path) (binary : String) : Command := ⟨binary, output, [], "", [], []⟩

def addInput (c : Command) (input : Graph.MediaInput) : Command :=
  { c with inputs := c.inputs ++ [input] }

def addMap (c : Command) (stream : String) : Command := { c with maps := c.maps ++ [stream] }

def setOption (c : Command) (key value : String) : Command :=
  { c with options := c.options.set key value }

def shortest (c : Command) : Command := c.setOption "shortest" ""

def usePlan (c : Command) (plan : Graph.Plan) : Command :=
  let c := { c with inputs := c.inputs ++ plan.inputs, graph := plan.graph }
  let c := c.addMap plan.video
  match plan.audio with
  | some audio => (c.addMap audio).shortest
  | none => c.addMap "0:a?"

def setQuality (c : Command) (crf : Int) (preset : String) : Command :=
  (c.setOption "crf" (toString crf)).setOption "preset" preset

def setVideoCodec (c : Command) (codec : String) : Command := c.setOption "c:v" codec

def setAudioCodec (c : Command) (codec : String) : Command := c.setOption "c:a" codec

def setPixelFormat (c : Command) (format : String) : Command := c.setOption "pix_fmt" format

def setFrameRate (c : Command) (fps : Int) : Command := c.setOption "r" (toString fps)

def setMovieFlags (c : Command) (flags : String) : Command := c.setOption "movflags" ("+" ++ flags)

def inputArguments (i : Graph.MediaInput) : List String := i.options ++ ["-i", i.path.toString]

def optionArguments : String × String → List String
  | (key, value) => if value.isEmpty then ["-" ++ key] else ["-" ++ key, value]

def arguments (c : Command) : List String :=
  [c.binary, "-y"] ++ c.inputs.flatMap inputArguments ++
    (if c.graph.isEmpty then [] else ["-filter_complex", c.graph]) ++
    c.maps.flatMap (fun stream => ["-map", stream]) ++
    c.options.flatMap optionArguments ++ [c.output.toString]

def line (c : Command) : String := Text.shellLine c.arguments

structure Finished where
  returnCode : Int
  stdout : String
  stderr : String

def judge (c : Command) : ProcessOutcome → Except ToolError Finished
  | .missing => .error ⟨"FFmpeg binary not found: " ++ c.binary, c.arguments, none, ""⟩
  | .ended code stdout stderr =>
    if code ≠ 0 then
      .error ⟨"FFmpeg failed to render the greeting", c.arguments, some code, stderr⟩
    else .ok ⟨code, stdout, stderr⟩

def run (c : Command) : Session ToolError Finished := do
  Session.note (.renderStarted c.output.toString)
  Session.note (.commandIssued c.line)
  let outcome ← Session.start c.arguments
  c.judge outcome

end Command

end OverlayMotion

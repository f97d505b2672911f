import OverlayMotion.Decimal.Reading
import OverlayMotion.Host
import OverlayMotion.Text.Spelling
/-! The external programs that measure and make videos, and how their failures are told. -/
namespace OverlayMotion

def errorWords : List String := ["Error", "error", "Invalid", "invalid", "No such file",
  "not found", "Unable to", "Cannot", "failed", "Undefined constant"]

namespace Diagnosis

def occursIn (pattern : List Char) : List Char → Bool
  | [] => pattern.isEmpty
  | c :: rest => pattern.isPrefixOf (c :: rest) || occursIn pattern rest

def namesError (line : List Char) : Bool := errorWords.any fun word => occursIn word.toList line

def distinct {α : Type} [BEq α] (xs : List α) : List α :=
  xs.foldl (fun seen x => if seen.contains x then seen else seen ++ [x]) []

def lines (output : String) : List (List Char) := Path.splitAt '\n' (Text.trim output.toList)

def relevant (lines : List (List Char)) : List (List Char) :=
  match distinct ((lines.filter namesError).map Text.trim) with
  | [] => ((lines.drop (lines.length - 3)).map Text.trim).filter fun line => !line.isEmpty
  | named => named

def ofOutput (output : String) : String :=
  " | ".intercalate (((relevant (lines output)).take 3).map String.ofList)

end Diagnosis

structure ToolError where
  summary : String
  command : List String
  returnCode : Option Int
  stderr : String
  deriving DecidableEq, Repr

namespace ToolError

def message (e : ToolError) : String :=
  let code := match e.returnCode with
    | some n => [s!"Exit code: {n}"]
    | none => []
  let diagnosis := Diagnosis.ofOutput e.stderr
  let shown := if diagnosis.isEmpty then [] else ["FFmpeg error: " ++ diagnosis]
  "\n".intercalate (e.summary :: code ++ shown)

def commandLine (e : ToolError) : String := Text.shellLine e.command

end ToolError

def probeCommand (binary : String) (video : Path) : List String :=
  [binary, "-v", "error", "-show_entries", "format=duration", "-of",
    "default=noprint_wrappers=1:nokey=1", video.toString]

def readProbe (binary : String) (video : Path) : ProcessOutcome → Except ToolError Float
  | .missing =>
    .error ⟨"ffprobe binary not found: " ++ binary, probeCommand binary video, none, ""⟩
  | .ended code stdout stderr =>
    if code ≠ 0 then
      .error ⟨s!"ffprobe could not read {video}", probeCommand binary video, some code, stderr⟩
    else match Decimal.readFloat? (Text.trim stdout.toList) with
      | some seconds => .ok seconds
      | none =>
        .error ⟨s!"ffprobe returned no duration for {video}", probeCommand binary video, none, ""⟩

def probeDuration (binary : String) (video : Path) : Session ToolError Float := do
  let outcome ← Session.start (probeCommand binary video)
  readProbe binary video outcome

end OverlayMotion

import OverlayMotion.Datum.Toml
import OverlayMotion.Failure
import OverlayMotion.Job.Entry
/-! Jobs: what a video is made of, as one document says it, in a file of the format that the
file's name tells. Unlike the records inside it, a job may have keys that it does not know.
Media paths are taken from the document's own directory, or stay as they are where there is
none. The placeholders of captions, which are names in braces, are filled in from the job's
values, with given ones in their place, one name after another: what one of them brings in is
open to those after it, and a placeholder that no name fits stays as it is. -/
namespace OverlayMotion.Text

def replaceFrom (pattern value : List Char) : (passed : Nat) → List Char → List Char
  | _, [] => []
  | passed + 1, _ :: rest => replaceFrom pattern value passed rest
  | 0, c :: rest =>
    if pattern.isPrefixOf (c :: rest) then
      value ++ replaceFrom pattern value (pattern.length - 1) rest
    else c :: replaceFrom pattern value 0 rest

def replaceAll (pattern value cs : List Char) : List Char := replaceFrom pattern value 0 cs

def placeholder (name : String) : List Char := '\x7b' :: name.toList ++ ['\x7d']

def fillChars (values : List (String × String)) (cs : List Char) : List Char :=
  values.foldl (fun cs (name, value) => replaceAll (placeholder name) value.toList cs) cs

def fill (values : Entries String) (template : String) : String :=
  String.ofList (fillChars values template.toList)

end OverlayMotion.Text

namespace OverlayMotion

structure Job where
  baseVideo : String
  duration : Option Scalar
  output : Job.OutputEntry
  images : List Job.ImageEntry
  captions : List Job.CaptionEntry
  audio : Option Job.AudioEntry
  fade : Option Job.FadeEntry
  still : Option Job.StillEntry
  values : Entries String
  directory : Option Path

namespace Job

def noOutput : OutputEntry := ⟨none, none, none⟩

def check : Datum → Check Job :=
  Check.record "GreetingJob" fun t => Job.mk
    <$> (key "base_video").required Datum.checkText t
    <*> nullable (key "duration") checkScalar t
    <*> (key "output").optional noOutput OutputEntry.check t
    <*> (key "images").optional [] (Datum.checkList ImageEntry.check) t
    <*> (key "texts").optional [] (Datum.checkList CaptionEntry.check) t
    <*> nullable (key "audio") AudioEntry.check t
    <*> nullable (key "video") FadeEntry.check t
    <*> nullable (key "outro") StillEntry.check t
    <*> (key "variables").optional [] (Datum.checkTable Datum.checkText) t
    <*> .ok none

def resolve (job : Job) (homes : String → Option Path) (path : String) : Except Failure Path := do
  let path ← (Path.ofString path).resolveHome homes
  return match job.directory with
    | some directory => directory.join path
    | none => path

def baseVideoPath (job : Job) (homes : String → Option Path) : Except Failure Path :=
  job.resolve homes job.baseVideo

def fontPath (job : Job) (homes : String → Option Path) (name : Option String) :
    Except Failure (Option Path) :=
  (name.filter (!·.isEmpty)).mapM (job.resolve homes)

def image (job : Job) (homes : String → Option Path) (e : ImageEntry) :
    Logged Scalar Failure (Overlay Scalar) := do
  let path ← job.resolve homes e.path
  .image <$> (e.toImage path).mapError .rejected

def caption (job : Job) (homes : String → Option Path) (values : Entries String)
    (e : CaptionEntry) : Logged Scalar Failure (Overlay Scalar) := do
  let fontFile ← job.fontPath homes e.fontFile
  .caption <$> (e.toCaption (Text.fill values e.text) fontFile).mapError .rejected

def overlays (job : Job) (homes : String → Option Path) (given : Entries String) :
    Logged Scalar Failure (List (Overlay Scalar)) := do
  let images ← job.images.mapM (job.image homes)
  let captions ← job.captions.mapM (job.caption homes (job.values.update given))
  return images ++ captions

def audioTrack (job : Job) (homes : String → Option Path) :
    Except Failure (Option (Audio Scalar)) :=
  job.audio.mapM fun e => do
    let path ← job.resolve homes e.path
    Failure.ofRejection (Audio.make path e.fadeIn e.fadeOut)

def pictureFade (job : Job) : Except Failure (Option (PictureFade Scalar)) :=
  job.fade.mapM fun e => Failure.ofRejection (PictureFade.make e.fadeIn e.fadeOut)

def closingStill (job : Job) (homes : String → Option Path) :
    Except Failure (Option (Still Scalar)) :=
  job.still.mapM fun e => do
    let path ← job.resolve homes e.path
    Failure.ofRejection (Still.make path e.duration e.fadeIn e.color)

def fontFiles (job : Job) (homes : String → Option Path) : List Path :=
  job.captions.filterMap fun e => (job.fontPath homes e.fontFile).toOption.join

def needsDuration (job : Job) : Bool :=
  job.audio.any (fun e => Number.isPositive e.fadeOut) ||
    job.fade.any (fun e => Number.isPositive e.fadeOut)

def isToml (path : Path) : Bool :=
  String.ofList (path.extension.toList.map Char.toLower) == ".toml"

def readDocument (path : Path) (source : String) : Except Unreadable Datum :=
  if isToml path then Toml.read source.toList else Json.read source.toList

def ofBytes (path : Path) (content : ByteArray) : Except Failure Job :=
  match String.fromUTF8? content with
  | none => .error .notText
  | some source => match readDocument path source with
    | .error .malformed => .error (.job (.malformed path))
    | .error .integerTooLong => .error .unreadableNumber
    | .ok d => match check d with
      | .ok job => .ok { job with directory := some path.parent }
      | .wrong problems => .error (.job (.invalid path problems))

def load (path : Path) : Session Failure Job := do
  match (← Session.host).files.read path with
  | .error fault => throw (.job (.unreadable path fault))
  | .ok content => ofBytes path content

end Job

end OverlayMotion

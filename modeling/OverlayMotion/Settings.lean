import OverlayMotion.Failure
/-! A user's settings. They start from built-in values, are changed by what a settings
file says, and last by the environment. -/
namespace OverlayMotion

structure Settings where
  ffmpeg : String
  ffprobe : String
  crf : Int
  preset : String
  width : Int
  height : Int
  fps : Int
  fontDirectory : Option Path
  defaultFont : Option String
  source : Option Path

namespace Settings

def standard : Settings where
  ffmpeg := "ffmpeg"
  ffprobe := "ffprobe"
  crf := 20
  preset := "medium"
  width := 1080
  height := 1920
  fps := 30
  fontDirectory := none
  defaultFont := none
  source := none

def find? (part : Datum) (key : String) : Except Failure (Option Datum) :=
  match part with
  | .table t => .ok (Entries.get? t key)
  -- A text or a list passes for a section that is silent, unless it mentions the setting.
  | .text s => if Diagnosis.occursIn key.toList s.toList then .error .unusableSetting else .ok none
  | .list ds =>
    let mentions : Datum → Bool
      | .text s => s == key
      | _ => false
    if ds.any mentions then .error .unusableSetting else .ok none
  | _ => .error .unusableSetting

def readInteger : Datum → Except Failure Int
  | .integer n => .ok n
  | .flag b => .ok (if b then 1 else 0)
  | .number x => match Binary64.decode x with
    | some d => .ok d.trunc
    | none => .error (if x.isNaN then .unreadableNumber else .infiniteNumber)
  | .text s => match Decimal.readInteger? digitLimit s.toList with
    | some n => .ok n
    | none => .error .unreadableNumber
  | _ => .error .unusableSetting

def readDirectory (homes : String → Option Path) : Datum → Except Failure Path
  | .text s => (Path.ofString s).resolveHome homes
  | _ => .error .unusableSetting

def change {α : Type} (part : Datum) (key : String) (read : Datum → Except Failure α)
    (set : Settings → α → Settings) (s : Settings) : Except Failure Settings := do
  match ← find? part key with
  | some d => return set s (← read d)
  | none => return s

mutual

def holdsOverlong : Datum → Bool
  | .integer n => 10 ^ digitLimit ≤ n.natAbs
  | .list ds => anyOverlong ds
  | .table entries => anyEntryOverlong entries
  | _ => false

def anyOverlong : List Datum → Bool
  | [] => false
  | d :: ds => holdsOverlong d || anyOverlong ds

def anyEntryOverlong : List (String × Datum) → Bool
  | [] => false
  | (_, d) :: rest => holdsOverlong d || anyEntryOverlong rest

end

def readText (d : Datum) : Except Failure String :=
  if holdsOverlong d then .error .unreadableNumber else .ok d.shown

def changeTools (part : Datum) (s : Settings) : Except Failure Settings := do
  let s ← change part "binary" readText (fun s v => { s with ffmpeg := v }) s
  let s ← change part "ffprobe" readText (fun s v => { s with ffprobe := v }) s
  let s ← change part "crf" readInteger (fun s v => { s with crf := v }) s
  change part "preset" readText (fun s v => { s with preset := v }) s

def changeOutput (part : Datum) (s : Settings) : Except Failure Settings := do
  let s ← change part "width" readInteger (fun s v => { s with width := v }) s
  let s ← change part "height" readInteger (fun s v => { s with height := v }) s
  change part "fps" readInteger (fun s v => { s with fps := v }) s

def changeFonts (homes : String → Option Path) (part : Datum) (s : Settings) :
    Except Failure Settings := do
  let s ← change part "font_dir" (readDirectory homes)
    (fun s v => { s with fontDirectory := some v }) s
  change part "default_font" readText (fun s v => { s with defaultFont := some v }) s

def sectionOf (document : Datum) (name : String) : Datum :=
  match document with
  | .table t => (Entries.get? t name).getD (.table [])
  | _ => .table []

def changeAll (homes : String → Option Path) (document : Datum) (s : Settings) :
    Except Failure Settings := do
  let s ← changeTools (sectionOf document "ffmpeg") s
  let s ← changeOutput (sectionOf document "output") s
  changeFonts homes (sectionOf document "fonts") s

def resolveFont (s : Settings) (homes : String → Option Path) (given : Option String) :
    Except Failure (Option Path) := do
  let named := (given.filter (!·.isEmpty)).or s.defaultFont
  (named.filter (!·.isEmpty)).mapM fun name => do
    let path ← (Path.ofString name).resolveHome homes
    return match s.fontDirectory with
      | some directory => directory.join path
      | none => path

end Settings

end OverlayMotion

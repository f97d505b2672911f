import OverlayMotion.Decimal
import OverlayMotion.Text.Spelling
/-! Data as documents hold it, before anybody says what it should look like. Tables keep
the order in which their keys first came: a name that is set again keeps its place. A text
with half a surrogate pair in it, which no other text can hold, is told apart and no more. -/
namespace OverlayMotion

abbrev Entries (α : Type) := List (String × α)

namespace Entries

variable {α : Type}

def set (key : String) (value : α) : Entries α → Entries α
  | [] => [(key, value)]
  | (k, v) :: rest => if k = key then (k, value) :: rest else (k, v) :: set key value rest

def get? (t : Entries α) (key : String) : Option α := t.lookup key

def update (t changes : Entries α) : Entries α := changes.foldl (fun t (k, v) => set k v t) t

def ofPairs (pairs : List (String × α)) : Entries α := update [] pairs

end Entries

structure Date where
  year : Nat
  month : Nat
  day : Nat
  deriving DecidableEq, Repr

structure Clock where
  hour : Nat
  minute : Nat
  second : Nat
  microsecond : Nat
  deriving DecidableEq, Repr

inductive Moment
  | date (d : Date)
  | clock (c : Clock)
  | both (d : Date) (c : Clock) (offset : Option Int)
  deriving DecidableEq, Repr

inductive Datum where
  | null
  | flag (b : Bool)
  | integer (n : Int)
  | number (x : Float)
  | text (s : String)
  | brokenText
  | moment (m : Moment)
  | list (items : List Datum)
  | table (entries : List (String × Datum))

abbrev Table := Entries Datum

namespace Moment

def two (n : Nat) : String := String.ofList (Decimal.padded 2 n)

def dateText (d : Date) : String :=
  String.ofList (Decimal.padded 4 d.year) ++ "-" ++ two d.month ++ "-" ++ two d.day

def clockText (c : Clock) : String :=
  let fraction := if c.microsecond = 0 then ""
    else "." ++ String.ofList (Decimal.padded 6 c.microsecond)
  two c.hour ++ ":" ++ two c.minute ++ ":" ++ two c.second ++ fraction

def offsetText (minutes : Int) : String :=
  let size := minutes.natAbs
  (if minutes < 0 then "-" else "+") ++ two (size / 60) ++ ":" ++ two (size % 60)

def text : Moment → String
  | date d => dateText d
  | clock c => clockText c
  | both d c offset => dateText d ++ " " ++ clockText c ++ (offset.map offsetText).getD ""

def commas (ns : List Nat) : String := ", ".intercalate (ns.map toString)

def clockParts (c : Clock) : List Nat :=
  [c.hour, c.minute] ++
    (if c.microsecond ≠ 0 then [c.second, c.microsecond] else if c.second ≠ 0 then [c.second] else [])

def zoneText (minutes : Int) : String :=
  if minutes = 0 then "datetime.timezone.utc"
  else
    let length := if minutes < 0 then
        s!"days=-1, seconds={86400 + minutes * 60}"
      else s!"seconds={minutes * 60}"
    s!"datetime.timezone(datetime.timedelta({length}))"

def nestedText : Moment → String
  | date d => s!"datetime.date({commas [d.year, d.month, d.day]})"
  | clock c => s!"datetime.time({commas (clockParts c)})"
  | both d c offset =>
    let zone := match offset with
      | some minutes => ", tzinfo=" ++ zoneText minutes
      | none => ""
    s!"datetime.datetime({commas ([d.year, d.month, d.day] ++ clockParts c)}{zone})"

end Moment

namespace Datum

mutual

def nested : Datum → String
  | null => "None"
  | flag b => if b then "True" else "False"
  | integer n => toString n
  | number x => Decimal.plain x
  | text s => Text.quoted s
  | brokenText => "''"
  | moment m => m.nestedText
  | list items => "[" ++ ", ".intercalate (nestedAll items) ++ "]"
  | table entries => "\x7b" ++ ", ".intercalate (nestedEntries entries) ++ "\x7d"

def nestedAll : List Datum → List String
  | [] => []
  | d :: ds => nested d :: nestedAll ds

def nestedEntries : List (String × Datum) → List String
  | [] => []
  | (key, d) :: rest => (Text.quoted key ++ ": " ++ nested d) :: nestedEntries rest

end

def shown : Datum → String
  | text s => s
  | moment m => m.text
  | d => d.nested

end Datum

end OverlayMotion

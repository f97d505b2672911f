import OverlayMotion.Datum
import OverlayMotion.Decimal.Reading
/-! JSON text read into data. Besides the standard's values, infinities and the undefined
number may be named; of a repeated key the last value holds, in the first one's place. -/
namespace OverlayMotion

inductive Unreadable
  | malformed
  | integerTooLong
  deriving DecidableEq, Repr

def digitLimit : Nat := 4300

namespace Json

def isSpace (c : Char) : Bool := c = ' ' || c = '\t' || c = '\n' || c = '\r'

def skip (cs : List Char) : List Char := cs.dropWhile isSpace

def hexValue? (c : Char) : Option Nat :=
  if c.isDigit then some (c.toNat - '0'.toNat)
  else if 'a' ≤ c ∧ c ≤ 'f' then some (c.toNat - 'a'.toNat + 10)
  else if 'A' ≤ c ∧ c ≤ 'F' then some (c.toNat - 'A'.toNat + 10)
  else none

def hexUnit? (a b c d : Char) : Option Nat := do
  return ((← hexValue? a) * 16 + (← hexValue? b)) * 256 + (← hexValue? c) * 16 + (← hexValue? d)

def simpleEscape? : Char → Option Char
  | '"' => some '"'
  | '\\' => some '\\'
  | '/' => some '/'
  | 'b' => some '\x08'
  | 'f' => some '\x0c'
  | 'n' => some '\n'
  | 'r' => some '\r'
  | 't' => some '\t'
  | _ => none

def stringUnits : List Char → Option (List Nat × List Char)
  | '"' :: rest => some ([], rest)
  | '\\' :: 'u' :: a :: b :: c :: d :: rest => do
    let unit ← hexUnit? a b c d
    let (units, after) ← stringUnits rest
    return (unit :: units, after)
  | '\\' :: c :: rest => do
    let plain ← simpleEscape? c
    let (units, after) ← stringUnits rest
    return (plain.toNat :: units, after)
  | c :: rest =>
    if c = '\\' ∨ c.toNat < 0x20 then none
    else do
      let (units, after) ← stringUnits rest
      return (c.toNat :: units, after)
  | [] => none

def joinPairs : List Nat → List Nat
  | high :: low :: rest =>
    if 0xD800 ≤ high ∧ high < 0xDC00 ∧ 0xDC00 ≤ low ∧ low < 0xE000 then
      (0x10000 + (high - 0xD800) * 0x400 + (low - 0xDC00)) :: joinPairs rest
    else high :: joinPairs (low :: rest)
  | units => units

def textOf? (points : List Nat) : Option String :=
  if points.any fun n => decide (0xD800 ≤ n) && decide (n < 0xE000) then none
  else some (String.ofList (points.map Char.ofNat))

def readString (cs : List Char) : Option (Datum × List Char) := do
  let (units, rest) ← stringUnits cs
  let datum := match textOf? (joinPairs units) with
    | some s => .text s
    | none => .brokenText
  return (datum, rest)

def digitRun (cs : List Char) : List Char × List Char := cs.span Char.isDigit

def fractionPart : List Char → List Char × List Char
  | '.' :: rest => match digitRun rest with
    | ([], _) => ([], '.' :: rest)
    | (ds, after) => ('.' :: ds, after)
  | cs => ([], cs)

def exponentPart : List Char → List Char × List Char
  | e :: rest =>
    if e = 'e' ∨ e = 'E' then
      let (sign, unsigned) := match rest with
        | '+' :: after => (['+'], after)
        | '-' :: after => (['-'], after)
        | after => ([], after)
      match digitRun unsigned with
      | ([], _) => ([], e :: rest)
      | (ds, after) => (e :: sign ++ ds, after)
    else ([], e :: rest)
  | [] => ([], [])

def readNumber (negative : Bool) (cs : List Char) : Except Unreadable (Datum × List Char) :=
  let (whole, rest) : List Char × List Char := match cs with
    | '0' :: rest => (['0'], rest)
    | cs => digitRun cs
  if whole.isEmpty then .error .malformed
  else
    let (fraction, rest) := fractionPart rest
    let (exponent, rest) := exponentPart rest
    if fraction.isEmpty && exponent.isEmpty then
      if digitLimit < whole.length then .error .integerTooLong
      else
        let n : Int := Text.readDigits whole
        .ok (.integer (if negative then -n else n), rest)
    else
      let (digits, scale) := Decimal.numeral (whole ++ fraction ++ exponent)
      .ok (.number (Binary64.ofDecimal negative digits scale), rest)

def after? (word : String) (cs : List Char) : Option (List Char) :=
  if word.toList.isPrefixOf cs then some (cs.drop word.length) else none

def namedValues : List (String × Datum) := [
  ("null", .null), ("true", .flag true), ("false", .flag false),
  ("NaN", .number Binary64.undefined), ("Infinity", .number Binary64.infinity),
  ("-Infinity", .number (-Binary64.infinity))]

def readNamed (cs : List Char) : Option (Datum × List Char) :=
  namedValues.findSome? fun (name, d) => (after? name cs).map fun rest => (d, rest)

mutual

def readValue : Nat → List Char → Except Unreadable (Datum × List Char)
  | 0, _ => .error .malformed
  | n + 1, cs =>
    match readNamed cs with
    | some found => .ok found
    | none => match cs with
      | '"' :: rest => match readString rest with
        | some found => .ok found
        | none => .error .malformed
      | '[' :: rest => match skip rest with
        | ']' :: rest => .ok (.list [], rest)
        | rest => do
          let (items, rest) ← readItems n rest
          return (.list items, rest)
      | '\x7b' :: rest => match skip rest with
        | '\x7d' :: rest => .ok (.table [], rest)
        | rest => do
          let (entries, rest) ← readEntries n [] rest
          return (.table entries, rest)
      | '-' :: rest => readNumber true rest
      | cs => readNumber false cs

def readItems : Nat → List Char → Except Unreadable (List Datum × List Char)
  | 0, _ => .error .malformed
  | n + 1, cs => do
    let (item, rest) ← readValue n cs
    match skip rest with
    | ',' :: rest => do
      let (items, rest) ← readItems n (skip rest)
      return (item :: items, rest)
    | ']' :: rest => return ([item], rest)
    | _ => .error .malformed

def readEntries : Nat → Table → List Char → Except Unreadable (Table × List Char)
  | 0, _, _ => .error .malformed
  | n + 1, before, '"' :: cs =>
    match readString cs with
    | none => .error .malformed
    | some (key, rest) => match skip rest with
      | ':' :: rest => do
        let (value, rest) ← readValue n (skip rest)
        let entries := before.set key.shown value
        match skip rest with
        | ',' :: rest => readEntries n entries (skip rest)
        | '\x7d' :: rest => return (entries, rest)
        | _ => .error .malformed
      | _ => .error .malformed
  | _ + 1, _, _ => .error .malformed

end

def read (source : List Char) : Except Unreadable Datum := do
  let (value, rest) ← readValue (2 * source.length + 2) (skip source)
  if (skip rest).isEmpty then return value else .error .malformed

end Json

end OverlayMotion

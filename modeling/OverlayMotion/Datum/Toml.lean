import OverlayMotion.Datum.Json
/-! TOML text read into data. A statement sets a value, opens a table or adds a table to a
list; values written in brackets are closed for good, and a table is opened once. -/
namespace OverlayMotion.Toml

abbrev Key := List String
abbrev Outcome := Except Unreadable

def isSpace (c : Char) : Bool := c = ' ' || c = '\t'

def skip (cs : List Char) : List Char := cs.dropWhile isSpace

def isBareKeyChar (c : Char) : Bool := c.isAlphanum || c = '-' || c = '_'

def isIllegal (c : Char) : Bool := (c.toNat < 0x20 && c ≠ '\t') || c.toNat = 0x7F

def isIllegalMultiline (c : Char) : Bool := isIllegal c && c ≠ '\n'

def unifyBreaks : List Char → List Char
  | '\r' :: '\n' :: rest => '\n' :: unifyBreaks rest
  | c :: rest => c :: unifyBreaks rest
  | [] => []

def skipComment : List Char → Outcome (List Char)
  | '#' :: rest =>
    let (comment, after) := rest.span (· ≠ '\n')
    if comment.any isIllegal then .error .malformed else .ok after
  | cs => .ok cs

def skipLines : Nat → List Char → Outcome (List Char)
  | 0, cs => .ok cs
  | n + 1, cs => do
    let rest ← skipComment (cs.dropWhile fun c => isSpace c || c = '\n')
    if rest.length = cs.length then return rest else skipLines n rest

def skipBetween (cs : List Char) : Outcome (List Char) := skipLines (cs.length + 1) cs

def hexNumber? (cs : List Char) : Option Nat :=
  cs.foldlM (fun n c => return n * 16 + (← Json.hexValue? c)) 0

def readCodePoint (count : Nat) (cs : List Char) : Outcome (Char × List Char) :=
  let ds := cs.take count
  match hexNumber? ds with
  | some n =>
    if ds.length = count ∧ n < 0x110000 ∧ ¬(0xD800 ≤ n ∧ n < 0xE000) then
      .ok (Char.ofNat n, cs.drop count)
    else .error .malformed
  | none => .error .malformed

def simpleEscape? : Char → Option Char
  | 'b' => some '\x08'
  | 't' => some '\t'
  | 'n' => some '\n'
  | 'f' => some '\x0c'
  | 'r' => some '\r'
  | '"' => some '"'
  | '\\' => some '\\'
  | _ => none

def afterHiddenBreak (cs : List Char) : Outcome (List Char) :=
  match skip cs with
  | [] => .ok []
  | '\n' :: rest => .ok (rest.dropWhile fun c => isSpace c || c = '\n')
  | _ => .error .malformed

def readEscape (multiline : Bool) : List Char → Outcome (List Char × List Char)
  | c :: rest =>
    if multiline && (isSpace c || c = '\n') then do
      return ([], ← afterHiddenBreak (c :: rest))
    else if c = 'u' ∨ c = 'U' then do
      let (point, after) ← readCodePoint (if c = 'u' then 4 else 8) rest
      return ([point], after)
    else match simpleEscape? c with
      | some plain => .ok ([plain], rest)
      | none => .error .malformed
  | [] => .error .malformed

def readBasic (multiline : Bool) : Nat → List Char → Outcome (List Char × List Char)
  | 0, _ => .error .malformed
  | _ + 1, [] => .error .malformed
  | n + 1, '"' :: rest =>
    if !multiline then .ok ([], rest)
    else match rest with
      | '"' :: '"' :: after => .ok ([], after)
      | _ => do
        let (tail, after) ← readBasic multiline n rest
        return ('"' :: tail, after)
  | n + 1, '\\' :: rest => do
    let (part, rest) ← readEscape multiline rest
    let (tail, after) ← readBasic multiline n rest
    return (part ++ tail, after)
  | n + 1, c :: rest =>
    if (if multiline then isIllegalMultiline c else isIllegal c) then .error .malformed
    else do
      let (tail, after) ← readBasic multiline n rest
      return (c :: tail, after)

def readLiteral (cs : List Char) : Outcome (List Char × List Char) :=
  let (body, rest) := cs.span (· ≠ '\'')
  match rest with
  | [] => .error .malformed
  | _ :: after => if body.any isIllegal then .error .malformed else .ok (body, after)

def readLongLiteral : List Char → Outcome (List Char × List Char)
  | '\'' :: '\'' :: '\'' :: after => .ok ([], after)
  | c :: rest =>
    if isIllegalMultiline c then .error .malformed
    else do
      let (tail, after) ← readLongLiteral rest
      return (c :: tail, after)
  | [] => .error .malformed

def takeExtraQuotes (mark : Char) (body rest : List Char) : List Char × List Char :=
  let extra := (rest.take 2).takeWhile (· = mark)
  (body ++ extra, rest.drop extra.length)

def dropFirstBreak : List Char → List Char
  | '\n' :: rest => rest
  | cs => cs

def readString? : List Char → Option (Outcome (List Char × List Char))
  | '"' :: '"' :: '"' :: rest => some do
    let (body, after) ← readBasic true (rest.length + 1) (dropFirstBreak rest)
    return takeExtraQuotes '"' body after
  | '"' :: rest => some (readBasic false (rest.length + 1) rest)
  | '\'' :: '\'' :: '\'' :: rest => some do
    let (body, after) ← readLongLiteral (dropFirstBreak rest)
    return takeExtraQuotes '\'' body after
  | '\'' :: rest => some (readLiteral rest)
  | _ => none

def readKeyPart (cs : List Char) : Outcome (String × List Char) := do
  match cs with
  | '\'' :: rest => do
    let (body, after) ← readLiteral rest
    return (String.ofList body, after)
  | '"' :: rest => do
    let (body, after) ← readBasic false (rest.length + 1) rest
    return (String.ofList body, after)
  | cs => match cs.span isBareKeyChar with
    | ([], _) => .error .malformed
    | (part, after) => return (String.ofList part, after)

def readKeyRest : Nat → List Char → Outcome (Key × List Char)
  | 0, _ => .error .malformed
  | n + 1, cs => match skip cs with
    | '.' :: rest => do
      let (part, rest) ← readKeyPart (skip rest)
      let (parts, rest) ← readKeyRest n rest
      return (part :: parts, rest)
    | rest => .ok ([], rest)

def readKey (cs : List Char) : Outcome (Key × List Char) := do
  let (part, rest) ← readKeyPart cs
  let (parts, rest) ← readKeyRest (rest.length + 1) rest
  return (part :: parts, rest)

def takeDigits (count low high : Nat) (cs : List Char) : Option (Nat × List Char) :=
  let ds := cs.take count
  let n := Text.readDigits ds
  if ds.length = count ∧ ds.all Char.isDigit ∧ low ≤ n ∧ n ≤ high then some (n, cs.drop count)
  else none

def takeChar (c : Char) : List Char → Option (List Char)
  | d :: rest => if d = c then some rest else none
  | [] => none

def takeFraction (cs : List Char) : Nat × List Char :=
  match cs with
  | '.' :: rest => match rest.span Char.isDigit with
    | ([], _) => (0, cs)
    | (ds, after) => (Text.readDigits ((ds ++ List.replicate 6 '0').take 6), after)
  | _ => (0, cs)

def takeClock (cs : List Char) : Option (Clock × List Char) := do
  let (hour, cs) ← takeDigits 2 0 23 cs
  let cs ← takeChar ':' cs
  let (minute, cs) ← takeDigits 2 0 59 cs
  let cs ← takeChar ':' cs
  let (second, cs) ← takeDigits 2 0 59 cs
  let (microsecond, cs) := takeFraction cs
  return (⟨hour, minute, second, microsecond⟩, cs)

def takeOffset : List Char → Option (Int × List Char)
  | 'Z' :: rest => some (0, rest)
  | 'z' :: rest => some (0, rest)
  | sign :: rest => do
    let ahead ← if sign = '+' then some 1 else if sign = '-' then some (-1) else none
    let (hours, rest) ← takeDigits 2 0 23 rest
    let rest ← takeChar ':' rest
    let (minutes, rest) ← takeDigits 2 0 59 rest
    return (ahead * ((hours * 60 + minutes : Nat) : Int), rest)
  | [] => none

def takeDate (cs : List Char) : Option (Date × List Char) := do
  let (year, cs) ← takeDigits 4 0 9999 cs
  let cs ← takeChar '-' cs
  let (month, cs) ← takeDigits 2 1 12 cs
  let cs ← takeChar '-' cs
  let (day, cs) ← takeDigits 2 1 31 cs
  return (⟨year, month, day⟩, cs)

def isLeap (year : Nat) : Bool := year % 4 = 0 && (year % 100 ≠ 0 || year % 400 = 0)

def daysIn (year month : Nat) : Nat :=
  if month = 2 then (if isLeap year then 29 else 28)
  else if month = 4 ∨ month = 6 ∨ month = 9 ∨ month = 11 then 30
  else 31

def Valid (d : Date) : Bool := 1 ≤ d.year && d.day ≤ daysIn d.year d.month

def takeTimeOfDay : List Char → Option (Clock × Option Int × List Char)
  | c :: rest =>
    if c = 'T' ∨ c = 't' ∨ c = ' ' then do
      let (clock, rest) ← takeClock rest
      match takeOffset rest with
      | some (offset, rest) => return (clock, some offset, rest)
      | none => return (clock, none, rest)
    else none
  | [] => none

def readMoment? (cs : List Char) : Option (Outcome (Datum × List Char)) :=
  match takeDate cs with
  | some (date, rest) =>
    let (moment, rest) := match takeTimeOfDay rest with
      | some (clock, offset, rest) => (Moment.both date clock offset, rest)
      | none => (Moment.date date, rest)
    some (if Valid date then .ok (.moment moment, rest) else .error .malformed)
  | none => (takeClock cs).map fun (clock, rest) => .ok (.moment (.clock clock), rest)

def digitsPart (digit : Char → Bool) : List Char → List Char × List Char
  | '_' :: c :: rest =>
    if digit c then
      let (tail, after) := digitsPart digit rest
      (c :: tail, after)
    else ([], '_' :: c :: rest)
  | c :: rest =>
    if digit c then
      let (tail, after) := digitsPart digit rest
      (c :: tail, after)
    else ([], c :: rest)
  | [] => ([], [])

def digitsFrom (digit : Char → Bool) (cs : List Char) : List Char × List Char :=
  match cs with
  | '_' :: _ => ([], cs)
  | _ => digitsPart digit cs

def readBased? (base : Nat) (digit : Char → Bool) (cs : List Char) : Option (Datum × List Char) :=
  match digitsFrom digit cs with
  | ([], _) => none
  | (ds, rest) =>
    some (.integer (ds.foldl (fun n c => n * base + (Json.hexValue? c).getD 0) 0 : Nat), rest)

def readPrefixed? : List Char → Option (Datum × List Char)
  | '0' :: 'x' :: rest => readBased? 16 (fun c => (Json.hexValue? c).isSome) rest
  | '0' :: 'o' :: rest => readBased? 8 (fun c => '0' ≤ c && c ≤ '7') rest
  | '0' :: 'b' :: rest => readBased? 2 (fun c => c = '0' || c = '1') rest
  | _ => none

def fractionPart : List Char → List Char × List Char
  | '.' :: rest => match digitsFrom Char.isDigit rest with
    | ([], _) => ([], '.' :: rest)
    | (ds, after) => ('.' :: ds, after)
  | cs => ([], cs)

def exponentPart : List Char → List Char × List Char
  | e :: rest =>
    if e = 'e' ∨ e = 'E' then
      let (sign, unsigned) := match rest with
        | '+' :: after => (['+'], after)
        | '-' :: after => (['-'], after)
        | after => ([], after)
      match digitsFrom Char.isDigit unsigned with
      | ([], _) => ([], e :: rest)
      | (ds, after) => (e :: sign ++ ds, after)
    else ([], e :: rest)
  | [] => ([], [])

def readDecimal? (cs : List Char) : Option (Outcome (Datum × List Char)) :=
  let (negative, unsigned) := match cs with
    | '-' :: rest => (true, rest)
    | '+' :: rest => (false, rest)
    | cs => (false, cs)
  let (whole, rest) : List Char × List Char := match unsigned with
    | '0' :: rest => (['0'], rest)
    | cs => digitsFrom Char.isDigit cs
  if whole.isEmpty then none
  else
    let (fraction, rest) := fractionPart rest
    let (exponent, rest) := exponentPart rest
    if fraction.isEmpty && exponent.isEmpty then
      some (if digitLimit < whole.length then .error .integerTooLong
        else
          let n : Int := Text.readDigits whole
          .ok (.integer (if negative then -n else n), rest))
    else
      let (digits, scale) := Decimal.numeral (whole ++ fraction ++ exponent)
      some (.ok (.number (Binary64.ofDecimal negative digits scale), rest))

def namedNumbers : List (String × Datum) := [
  ("inf", .number Binary64.infinity), ("nan", .number Binary64.undefined),
  ("+inf", .number Binary64.infinity), ("+nan", .number Binary64.undefined),
  ("-inf", .number (-Binary64.infinity)), ("-nan", .number Binary64.undefined)]

def readNamed? (names : List (String × Datum)) (cs : List Char) : Option (Datum × List Char) :=
  names.findSome? fun (name, d) => (Json.after? name cs).map fun rest => (d, rest)

def readPlain (cs : List Char) : Outcome (Datum × List Char) :=
  match readString? cs with
  | some result => do
    let (body, rest) ← result
    return (.text (String.ofList body), rest)
  | none => match readNamed? [("true", .flag true), ("false", .flag false)] cs with
    | some found => .ok found
    | none => match readMoment? cs with
      | some result => result
      | none => match readPrefixed? cs with
        | some found => .ok found
        | none => match readDecimal? cs with
          | some result => result
          | none => match readNamed? namedNumbers cs with
            | some found => .ok found
            | none => .error .malformed

def change (inLists : Bool) (f : Table → Outcome Table) : Key → Table → Outcome Table
  | [], t => f t
  | k :: ks, t => do
    match (t.get? k).getD (.table []) with
    | .table inner => return t.set k (.table (← change inLists f ks inner))
    | .list items =>
      if inLists then
        match items.getLast? with
        | some (.table inner) =>
          return t.set k (.list (items.dropLast ++ [.table (← change inLists f ks inner)]))
        | _ => .error .malformed
      else .error .malformed
    | _ => .error .malformed

def define (key : String) (value : Datum) (t : Table) : Outcome Table :=
  if (t.get? key).isSome then .error .malformed else .ok (t.set key value)

def appendTable (key : String) (t : Table) : Outcome Table :=
  match t.get? key with
  | none => .ok (t.set key (.list [.table []]))
  | some (.list items) => .ok (t.set key (.list (items ++ [.table []])))
  | some _ => .error .malformed

def isContainer : Datum → Bool
  | .table _ => true
  | .list _ => true
  | _ => false

def isWithin (frozen : List Key) (key : Key) : Bool := frozen.any fun f => f.isPrefixOf key

mutual

def readValue : Nat → List Char → Outcome (Datum × List Char)
  | 0, _ => .error .malformed
  | n + 1, '[' :: rest => do
    match ← skipBetween rest with
    | ']' :: rest => return (.list [], rest)
    | rest => do
      let (items, rest) ← readItems n rest
      return (.list items, rest)
  | n + 1, '\x7b' :: rest => match skip rest with
    | '\x7d' :: rest => .ok (.table [], rest)
    | rest => do
      let (entries, rest) ← readEntries n [] [] rest
      return (.table entries, rest)
  | _ + 1, cs => readPlain cs

def readItems : Nat → List Char → Outcome (List Datum × List Char)
  | 0, _ => .error .malformed
  | n + 1, cs => do
    let (item, rest) ← readValue n cs
    match ← skipBetween rest with
    | ']' :: rest => return ([item], rest)
    | ',' :: rest => do
      match ← skipBetween rest with
      | ']' :: rest => return ([item], rest)
      | rest => do
        let (items, rest) ← readItems n rest
        return (item :: items, rest)
    | _ => .error .malformed

def readEntries : Nat → (frozen : List Key) → Table → List Char → Outcome (Table × List Char)
  | 0, _, _, _ => .error .malformed
  | n + 1, frozen, before, cs => do
    let (key, value, rest) ← readPair n cs
    if isWithin frozen key then .error .malformed
    else
      let entries ← change false (define (key.getLastD "") value) key.dropLast before
      match skip rest with
      | '\x7d' :: rest => return (entries, rest)
      | ',' :: rest =>
        readEntries n (if isContainer value then key :: frozen else frozen) entries (skip rest)
      | _ => .error .malformed

def readPair : Nat → List Char → Outcome (Key × Datum × List Char)
  | 0, _ => .error .malformed
  | n + 1, cs => do
    let (key, rest) ← readKey cs
    match rest with
    | '=' :: rest => do
      let (value, rest) ← readValue n (skip rest)
      return (key, value, rest)
    | _ => .error .malformed

end

structure State where
  data : Table
  header : Key
  opened : List Key
  pending : List Key
  frozen : List Key

def passedTables (header key : Key) : List Key :=
  (List.range (key.length - 1)).map fun i => header ++ key.take (i + 1)

def State.set (s : State) (key : Key) (value : Datum) : Outcome State := do
  let passed := passedTables s.header key
  let parent := s.header ++ key.dropLast
  if passed.any fun k => s.opened.contains k then .error .malformed
  else if isWithin s.frozen parent && !parent.isEmpty then .error .malformed
  else
    let data ← change true (define (key.getLastD "") value) parent s.data
    let frozen := if isContainer value then (s.header ++ key) :: s.frozen else s.frozen
    return { s with data := data, pending := passed ++ s.pending, frozen := frozen }

def State.settle (s : State) : State :=
  { s with opened := s.pending ++ s.opened, pending := [] }

def State.openTable (s : State) (key : Key) : Outcome State := do
  if s.opened.contains key || isWithin s.frozen key then .error .malformed
  else
    let data ← change true .ok key s.data
    return { s with data := data, header := key, opened := key :: s.opened }

def State.openItem (s : State) (key : Key) : Outcome State := do
  if isWithin s.frozen key then .error .malformed
  else
    let data ← change true (appendTable (key.getLastD "")) key.dropLast s.data
    return { s with
      data := data
      header := key
      opened := key :: s.opened.filter (fun k => !key.isPrefixOf k)
      frozen := s.frozen.filter (fun k => !key.isPrefixOf k) }

def statement (s : State) (cs : List Char) : Outcome (State × List Char) := do
  match cs with
  | '[' :: '[' :: rest => do
    let (key, rest) ← readKey (skip rest)
    let s ← s.settle.openItem key
    match rest with
    | ']' :: ']' :: rest => return (s, rest)
    | _ => .error .malformed
  | '[' :: rest => do
    let (key, rest) ← readKey (skip rest)
    let s ← s.settle.openTable key
    match rest with
    | ']' :: rest => return (s, rest)
    | _ => .error .malformed
  | c :: _ =>
    if c = '#' then return (s, cs)
    else do
      let (key, value, rest) ← readPair (2 * cs.length + 2) cs
      return (← s.set key value, rest)
  | [] => return (s, [])

def statements : Nat → State → List Char → Outcome State
  | 0, _, _ => .error .malformed
  | n + 1, s, cs => match skip cs with
    | [] => .ok s
    | '\n' :: rest => statements n s rest
    | rest => do
      let (s, rest) ← statement s rest
      match ← skipComment (skip rest) with
      | [] => return s
      | '\n' :: rest => statements n s rest
      | _ => .error .malformed

def read (source : List Char) : Outcome Datum := do
  let cs := unifyBreaks source
  let s ← statements (cs.length + 1) ⟨[], [], [], [], []⟩ cs
  return .table s.data

end OverlayMotion.Toml

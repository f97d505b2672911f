/-! Words of a command line taken apart into options and operands. A long option may carry
its value after an equals sign, a short one right behind it, and both may take the next
word, whatever it is. Short options without a value may share one dash. Two dashes end
the options. -/
namespace OverlayMotion

structure Switch where
  name : String
  short : Option Char
  takesValue : Bool
  deriving DecidableEq, Repr

inductive Misuse
  | unknownOption (word : String)
  | valueMissing (option : String)
  | valueRefused (option : String)
  | operandMissing
  | operandExtra (word : String)
  | badValue (option value : String)
  | commandMissing
  | commandUnknown (word : String)
  deriving DecidableEq, Repr

structure Arguments where
  options : List (String × String)
  operands : List String
  deriving DecidableEq, Repr

namespace Arguments

def none : Arguments := ⟨[], []⟩

def withOptions (found : List (String × String)) (a : Arguments) : Arguments :=
  { a with options := found ++ a.options }

def withOperand (word : String) (a : Arguments) : Arguments :=
  { a with operands := word :: a.operands }

abbrev Found := List (String × String) × Option String

def readLong (switches : List Switch) (name : List Char) (value : Option (List Char)) :
    Option (Except Misuse Found) :=
  (switches.find? fun s => s.name.toList == name).map fun s =>
    match s.takesValue, value with
    | true, some v => .ok ([(s.name, String.ofList v)], Option.none)
    | true, Option.none => .ok ([], some s.name)
    | false, some _ => .error (.valueRefused s.name)
    | false, Option.none => .ok ([(s.name, "")], Option.none)

def readShort (switches : List Switch) : List Char → Except Misuse Found
  | [] => .ok ([], Option.none)
  | c :: rest =>
    match switches.find? fun s => s.short == some c with
    | Option.none => .error (.unknownOption (String.ofList ['-', c]))
    | some s =>
      if s.takesValue then
        if rest.isEmpty then .ok ([], some s.name) else .ok ([(s.name, String.ofList rest)], Option.none)
      else do
        let (found, waiting) ← readShort switches rest
        return ((s.name, "") :: found, waiting)

def readOption (switches : List Switch) (word : List Char) : Except Misuse Found :=
  match word with
  | '-' :: '-' :: body =>
    let (name, tail) := body.span (· ≠ '=')
    let value := match tail with
      | [] => Option.none
      | _ :: value => some value
    (readLong switches name value).getD (.error (.unknownOption (String.ofList word)))
  | _ => readShort switches word.tail

def isOption (word : List Char) : Bool := word.head? = some '-' && 1 < word.length

def ofWords (switches : List Switch) (mixed : Bool) : List String → Except Misuse Arguments
  | [] => .ok none
  | word :: rest =>
    if word = "--" then .ok ⟨[], rest⟩
    else if isOption word.toList then
      match readOption switches word.toList with
      | .error e => .error e
      | .ok (found, Option.none) => (ofWords switches mixed rest).map (withOptions found)
      | .ok (found, some name) => match rest with
        | [] => .error (.valueMissing name)
        | value :: rest =>
          (ofWords switches mixed rest).map (withOptions (found ++ [(name, value)]))
    else if mixed then (ofWords switches mixed rest).map (withOperand word)
    else .ok ⟨[], word :: rest⟩

def has (a : Arguments) (name : String) : Bool := a.options.any fun (key, _) => key == name

def values (a : Arguments) (name : String) : List String :=
  (a.options.filter fun (key, _) => key == name).map Prod.snd

def value? (a : Arguments) (name : String) : Option String := (a.values name).getLast?

end Arguments

end OverlayMotion

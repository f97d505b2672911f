import OverlayMotion.Text.Unicode
/-! Tokens of formula text: numbers, names and single symbols, with white space
between them. Digits of every script write numbers; names are ASCII. A token is a character or
more, so as many steps as characters are enough to find all of them. -/
namespace OverlayMotion

inductive Token
  | number (text : List Char)
  | name (text : List Char)
  | symbol (c : Char)
  deriving DecidableEq, Repr

inductive Malformed
  | character (position : Nat)
  | empty
  | expected (symbol : Option Char)
  | unexpected (token : List Char)
  deriving DecidableEq, Repr

namespace Token
open Text

def text : Token → List Char
  | number cs => cs
  | name cs => cs
  | symbol c => [c]

def isNameStart (c : Char) : Bool := c.isAlpha || c = '_'
def isNameRest (c : Char) : Bool := c.isAlphanum || c = '_'
def isSymbol (c : Char) : Bool := "-+*/^(),".toList.contains c

def digitRun (cs : List Char) : List Char × List Char := cs.span isDigit

def exponentPart : List Char → List Char × List Char
  | e :: cs =>
    if e = 'e' ∨ e = 'E' then
      match cs with
      | sign :: rest =>
        if sign = '+' ∨ sign = '-' then
          match digitRun rest with
          | ([], _) => ([], e :: cs)
          | (ds, after) => (e :: sign :: ds, after)
        else
          match digitRun cs with
          | ([], _) => ([], e :: cs)
          | (ds, after) => (e :: ds, after)
      | [] => ([], e :: cs)
    else ([], e :: cs)
  | [] => ([], [])

def mantissaPart (cs : List Char) : Option (List Char × List Char) :=
  match digitRun cs with
  | ([], '.' :: rest) => match digitRun rest with
    | ([], _) => none
    | (fraction, after) => some ('.' :: fraction, after)
  | ([], _) => none
  | (whole, '.' :: rest) =>
    let (fraction, after) := digitRun rest
    some (whole ++ '.' :: fraction, after)
  | (whole, after) => some (whole, after)

def numberPart (cs : List Char) : Option (List Char × List Char) :=
  (mantissaPart cs).map fun (ds, rest) =>
    let (exponent, after) := exponentPart rest
    (ds ++ exponent, after)

def scan? (cs : List Char) : Option (Token × List Char) :=
  match numberPart cs with
  | some (text, rest) => some (.number text, rest)
  | none => match cs with
    | [] => none
    | c :: rest =>
      if isNameStart c then
        let (tail, after) := rest.span isNameRest
        some (.name (c :: tail), after)
      else if isSymbol c then some (.symbol c, rest)
      else none

def scanAll : (steps : Nat) → (position : Nat) → List Char → Except Malformed (List Token)
  | _, _, [] => .ok []
  | 0, position, _ => .error (.character position)
  | steps + 1, position, cs =>
    match scan? (dropBlanks cs) with
    | none => .error (.character position)
    | some (token, rest) => do
      let tokens ← scanAll steps (position + (cs.length - rest.length)) rest
      return token :: tokens

def tokenize (cs : List Char) : Except Malformed (List Token) := do
  let body := dropBlanksRight cs
  match ← scanAll body.length 0 body with
  | [] => .error .empty
  | tokens => return tokens

end Token

end OverlayMotion

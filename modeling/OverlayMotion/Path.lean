/-! File paths: a number of leading slashes and the parts between slashes. Empty parts
and single dots say nothing and are dropped; double dots stay. A path may start in a home
directory: the user's own, which goes by the empty name, or another's. -/
namespace OverlayMotion

structure Path where
  slashes : Nat
  parts : List String
  deriving DecidableEq, Repr

namespace Path

def splitAt (separator : Char) : List Char → List (List Char)
  | [] => [[]]
  | c :: rest =>
    if c = separator then [] :: splitAt separator rest
    else match splitAt separator rest with
      | piece :: pieces => (c :: piece) :: pieces
      | [] => [[c]]

def ofChars (cs : List Char) : Path :=
  let slashes := match cs with
    | '/' :: '/' :: '/' :: _ => 1
    | '/' :: '/' :: _ => 2
    | '/' :: _ => 1
    | _ => 0
  let parts := (splitAt '/' cs).filter fun part => !part.isEmpty && part != ['.']
  ⟨slashes, parts.map String.ofList⟩

def ofString (s : String) : Path := ofChars s.toList

def toString (p : Path) : String :=
  if p.slashes = 0 ∧ p.parts = [] then "."
  else String.ofList (List.replicate p.slashes '/') ++ "/".intercalate p.parts

instance : ToString Path := ⟨toString⟩

def isAbsolute (p : Path) : Bool := p.slashes != 0

def name (p : Path) : String := p.parts.getLastD ""

def parent (p : Path) : Path := ⟨p.slashes, p.parts.dropLast⟩

def join (base p : Path) : Path :=
  if p.isAbsolute then p else ⟨base.slashes, base.parts ++ p.parts⟩

def splitName (name : String) : List Char × List Char :=
  let cs := name.toList
  let tail := (cs.reverse.takeWhile (· ≠ '.')).reverse
  let stem := cs.take (cs.length - tail.length - 1)
  if stem.isEmpty || tail.isEmpty then (cs, []) else (stem, '.' :: tail)

def extension (p : Path) : String := String.ofList (splitName p.name).2

def withExtension? (p : Path) (ending : String) : Option Path :=
  if p.name.isEmpty then none
  else some ⟨p.slashes, p.parts.dropLast ++ [String.ofList (splitName p.name).1 ++ ending]⟩

def home? (p : Path) : Option String :=
  if p.slashes ≠ 0 then none
  else match p.parts with
    | first :: _ => match first.toList with
      | '~' :: user => some (String.ofList user)
      | _ => none
    | [] => none

def expand? (homes : String → Option Path) (p : Path) : Option Path :=
  match p.home? with
  | none => some p
  | some user => (homes user).map fun home => home.join ⟨0, p.parts.tail⟩

end Path

end OverlayMotion

import OverlayMotion.Datum
import OverlayMotion.Decimal.Reading
/-! Data checked against what they should look like. A check gives a value or all that is
wrong, each problem with the place where it is. -/
namespace OverlayMotion

inductive Issue
  | missing
  | unexpected
  | notText
  | brokenText
  | notNumber
  | unreadableNumber
  | notInteger
  | fractional
  | unreadableInteger
  | notFinite
  | integerTooLarge
  | notList
  | notTable
  | notRecord (name : String)
  | notTuple
  | tooManyItems (most given : Nat)
  deriving DecidableEq, Repr

def Issue.message : Issue → String
  | missing => "Field required"
  | unexpected => "Extra inputs are not permitted"
  | notText => "Input should be a valid string"
  | brokenText =>
    "Input should be a valid string, unable to parse raw data as a unicode string"
  | notNumber => "Input should be a valid number"
  | unreadableNumber =>
    "Input should be a valid number, unable to parse string as a number"
  | notInteger => "Input should be a valid integer"
  | fractional => "Input should be a valid integer, got a number with a fractional part"
  | unreadableInteger =>
    "Input should be a valid integer, unable to parse string as an integer"
  | notFinite => "Input should be a finite number"
  | integerTooLarge => "Unable to parse input string as an integer, exceeded maximum size"
  | notList => "Input should be a valid list"
  | notTable => "Input should be a valid dictionary"
  | notRecord name => s!"Input should be a valid dictionary or instance of {name}"
  | notTuple => "Input should be a valid tuple"
  | tooManyItems most given =>
    s!"Tuple should have at most {most} items after validation, not {given}"

structure Problem where
  place : List String
  issue : Issue
  deriving DecidableEq, Repr

def Problem.text (p : Problem) : String := ".".intercalate p.place ++ ": " ++ p.issue.message

def Problem.within (key : String) (p : Problem) : Problem := { p with place := key :: p.place }

inductive Check (α : Type) where
  | ok (value : α)
  | wrong (problems : List Problem)

namespace Check

variable {α β : Type}

instance : Functor Check where
  map f
    | ok a => ok (f a)
    | wrong ps => wrong ps

instance : Applicative Check where
  pure := ok
  seq f x := match f, x () with
    | ok f, ok a => ok (f a)
    | ok _, wrong qs => wrong qs
    | wrong ps, ok _ => wrong ps
    | wrong ps, wrong qs => wrong (ps ++ qs)

def fail (issue : Issue) : Check α := wrong [⟨[], issue⟩]

def within (key : String) : Check α → Check α
  | ok a => ok a
  | wrong ps => wrong (ps.map (Problem.within key))

def orElse : Check α → Check α → Check α
  | ok a, _ => ok a
  | wrong _, ok b => ok b
  | wrong ps, wrong qs => wrong (ps ++ qs)

end Check

namespace Datum

def checkText : Datum → Check String
  | .text s => .ok s
  | .brokenText => .fail .brokenText
  | _ => .fail .notText

def checkNumber : Datum → Check Float
  | .number x => .ok x
  | .integer n => match Binary64.ofInt? n with
    | some x => .ok x
    | none => .fail .notNumber
  | .flag b => .ok (if b then 1 else 0)
  | .text s => match Decimal.read? (Decimal.isGroupedRun Char.isDigit) (Decimal.dropPadding s.toList) with
    | some x => .ok x
    | none => .fail .unreadableNumber
  | .brokenText => .fail .unreadableNumber
  | _ => .fail .notNumber

def readInteger? (cs : List Char) : Option Int :=
  let negative := cs.head? = some '-'
  let (whole, fraction) := Decimal.splitPoint (Decimal.dropSign cs)
  if Decimal.isGroupedRun Char.isDigit whole && fraction.tail.all (· = '0') then
    let n : Int := Text.readDigits whole
    some (if negative then -n else n)
  else none

def checkWhole (x : Float) : Check Int :=
  match Binary64.decode x with
  | none => .fail .notFinite
  | some d =>
    if d.split.2 then .fail .fractional
    else if -(Nat.pow 2 63) < d.trunc ∧ d.trunc < Nat.pow 2 63 then .ok d.trunc
    else .fail .integerTooLarge

def checkInteger : Datum → Check Int
  | .integer n => .ok n
  | .number x => checkWhole x
  | .flag b => .ok (if b then 1 else 0)
  | .text s =>
    let cs := Decimal.dropPadding s.toList
    if 4300 < cs.length then .fail .integerTooLarge
    else match readInteger? cs with
      | some n => .ok n
      | none => .fail .unreadableInteger
  | .brokenText => .fail .unreadableInteger
  | _ => .fail .notInteger

def checkItems {α : Type} (check : Datum → Check α) : (index : Nat) → List Datum → Check (List α)
  | _, [] => .ok []
  | i, d :: ds =>
    List.cons <$> (check d).within (toString i) <*> checkItems check (i + 1) ds

def checkList {α : Type} (check : Datum → Check α) : Datum → Check (List α)
  | .list items => checkItems check 0 items
  | _ => .fail .notList

def checkEntries {α : Type} (check : Datum → Check α) : Table → Check (List (String × α))
  | [] => .ok []
  | (key, d) :: rest =>
    (fun a rest => (key, a) :: rest) <$> (check d).within key <*> checkEntries check rest

def checkTable {α : Type} (check : Datum → Check α) : Datum → Check (List (String × α))
  | .table entries => checkEntries check entries
  | _ => .fail .notTable

def checkOptional {α : Type} (check : Datum → Check α) : Datum → Check (Option α)
  | .null => .ok none
  | d => some <$> check d

def checkPair {α : Type} (check : Datum → Check α) : Datum → Check (α × α)
  | .list [] => Prod.mk <$> (Check.fail .missing).within "0" <*> (Check.fail .missing).within "1"
  | .list [a] => Prod.mk <$> (check a).within "0" <*> (Check.fail .missing).within "1"
  | .list [a, b] => Prod.mk <$> (check a).within "0" <*> (check b).within "1"
  | .list items => .fail (.tooManyItems 2 items.length)
  | _ => .fail .notTuple

end Datum

structure Field where
  key : String
  otherKey : Option String := none

namespace Field

def find? (f : Field) (t : Table) : Option (String × Datum) :=
  match t.get? f.key with
  | some d => some (f.key, d)
  | none => f.otherKey.bind fun key => (t.get? key).map fun d => (key, d)

variable {α : Type}

def required (f : Field) (check : Datum → Check α) (t : Table) : Check α :=
  match f.find? t with
  | some (key, d) => (check d).within key
  | none => (Check.fail .missing).within f.key

def optional (f : Field) (default : α) (check : Datum → Check α) (t : Table) : Check α :=
  match f.find? t with
  | some (key, d) => (check d).within key
  | none => .ok default

end Field

namespace Check

def noOthers (fields : List Field) (t : Table) : Check Unit :=
  let used := fields.filterMap fun f => (f.find? t).map Prod.fst
  match t.filter fun (key, _) => !used.contains key with
  | [] => .ok ()
  | extra => .wrong (extra.map fun (key, _) => ⟨[key], .unexpected⟩)

def record {α : Type} (name : String) (fields : Table → Check α) : Datum → Check α
  | .table t => fields t
  | _ => .fail (.notRecord name)

def closedRecord {α : Type} (name : String) (known : List Field) (fields : Table → Check α) :
    Datum → Check α :=
  record name fun t => (fun a _ => a) <$> fields t <*> noOthers known t

end Check

end OverlayMotion

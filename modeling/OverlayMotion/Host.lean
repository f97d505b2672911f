import OverlayMotion.Journal
import OverlayMotion.Path
/-! The machine that the program works on, as far as the program sees it: files, variables
of the environment, home directories, and programs that it starts. The program's own home
goes by the empty name. How programs end is settled in advance, in the order in which they are
started; after the last one none is found. A session is a computation on a host; what it reads
and what it leaves behind are both values. -/
namespace OverlayMotion

inductive ProcessOutcome
  | missing
  | ended (returnCode : Int) (stdout stderr : String)
  deriving DecidableEq, Repr

inductive FileFault
  | notFound
  | isDirectory
  | notDirectory
  | occupied
  deriving DecidableEq, Repr

def FileFault.message : FileFault → String
  | .notFound => "No such file or directory"
  | .isDirectory => "Is a directory"
  | .notDirectory => "Not a directory"
  | .occupied => "File exists"

abbrev Location := List String

namespace Location

def root : Location := ["/"]

def above (l : Location) : Location :=
  if l = root then root
  else if l.all (· = "..") then l ++ [".."] else l.dropLast

def step (l : Location) (part : String) : Location := if part = ".." then l.above else l ++ [part]

def origin (p : Path) : Location := if p.isAbsolute then root else []

def ofPath (p : Path) : Location := p.parts.foldl step (origin p)

end Location

/-- The files and directories that are known: what is around the working directory is
there, and nothing else outside it is. -/
structure Files where
  contents : List (Location × ByteArray)
  directories : List Location

inductive Entry
  | file (content : ByteArray)
  | directory

namespace Files

def empty : Files := ⟨[], []⟩

def isDirectoryAt (f : Files) (l : Location) : Bool :=
  l == Location.root || l.all (· = "..") || f.directories.any (l.isPrefixOf ·) ||
    f.contents.any fun (file, _) => l.isPrefixOf file && l.length < file.length

def contentAt? (f : Files) (l : Location) : Option ByteArray :=
  (f.contents.find? fun (file, _) => file == l).map Prod.snd

def follow (f : Files) : (reached : Location) → List String → Except FileFault Entry
  | _, [] => .ok .directory
  | reached, part :: rest =>
    let here := reached.step part
    if f.isDirectoryAt here then follow f here rest
    else match f.contentAt? here with
      | none => .error .notFound
      | some content => if rest.isEmpty then .ok (.file content) else .error .notDirectory

def lookup (f : Files) (p : Path) : Except FileFault Entry := f.follow (Location.origin p) p.parts

def has (f : Files) (p : Path) : Bool := (f.lookup p).toBool

def isDirectory (f : Files) (p : Path) : Bool :=
  match f.lookup p with
  | .ok .directory => true
  | _ => false

def read (f : Files) (p : Path) : Except FileFault ByteArray :=
  match f.lookup p with
  | .ok (.file content) => .ok content
  | .ok .directory => .error .isDirectory
  | .error e => .error e

def write (f : Files) (p : Path) (content : ByteArray) : Files :=
  let l := Location.ofPath p
  { f with contents := f.contents.filter (fun (file, _) => file != l) ++ [(l, content)] }

def makeFrom (f : Files) : (reached : Location) → List String → Except FileFault Files
  | _, [] => .ok f
  | reached, part :: rest =>
    let here := reached.step part
    if f.isDirectoryAt here then makeFrom f here rest
    else match f.contentAt? here with
      | some _ => .error (if rest.isEmpty then .occupied else .notDirectory)
      | none => makeFrom { f with directories := f.directories ++ [here] } here rest

def makeDirectory (f : Files) (p : Path) : Except FileFault Files :=
  f.makeFrom (Location.origin p) p.parts

end Files

structure Host where
  files : Files
  environment : List (String × String)
  homes : String → Option Path
  outcomes : List ProcessOutcome
  commands : List (List String)
  notices : List (Notice Scalar)

namespace Host

def setting? (h : Host) (name : String) : Option String := h.environment.lookup name

def start (h : Host) (command : List String) : ProcessOutcome × Host :=
  match h.outcomes with
  | [] => (.missing, { h with commands := h.commands ++ [command] })
  | outcome :: rest => (outcome, { h with outcomes := rest, commands := h.commands ++ [command] })

end Host

def Session (ε α : Type) := Host → Except ε α × Host

namespace Session

variable {ε α : Type}

instance : Monad (Session ε) where
  pure a := fun h => (.ok a, h)
  bind x f := fun h => match x h with
    | (.ok a, h) => f a h
    | (.error e, h) => (.error e, h)

instance : MonadExceptOf ε (Session ε) where
  throw e := fun h => (.error e, h)
  tryCatch x handle := fun h => match x h with
    | (.ok a, h) => (.ok a, h)
    | (.error e, h) => handle e h

def ofExcept (result : Except ε α) : Session ε α := fun h => (result, h)

def ofLogged (x : Logged Scalar ε α) : Session ε α := fun h =>
  (x.outcome, { h with notices := h.notices ++ x.notices })

instance : MonadLift (Except ε) (Session ε) := ⟨ofExcept⟩
instance : MonadLift (Logged Scalar ε) (Session ε) := ⟨ofLogged⟩

def host : Session ε Host := fun h => (.ok h, h)

def note (n : Notice Scalar) : Session ε Unit := ofLogged (Logged.note n)

def start (command : List String) : Session ε ProcessOutcome := fun h =>
  let (outcome, h) := h.start command
  (.ok outcome, h)

def mapError {δ : Type} (f : ε → δ) (x : Session ε α) : Session δ α := fun h =>
  let (result, h) := x h
  (result.mapError f, h)

def attempt {δ : Type} (x : Session ε α) : Session δ (Except ε α) := fun h =>
  let (result, h) := x h
  (.ok result, h)

end Session

end OverlayMotion

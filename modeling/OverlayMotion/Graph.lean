import OverlayMotion.Path
/-! Filter graphs: filters with their options, chained between labelled streams, and the text
of all of it. A plan keeps one stream of video, by its label, and may keep one of audio, by its
label in brackets or as a stream of an input. Inside a quoted option a backslash is doubled and a
colon gets one. In a caption the percent sign gets one too, and a quote leaves the quotes to be
escaped; in a path a quote gets a backslash where it stands.

`Filter.option?` looks an option up among the arguments that a filter was given, before they
are joined. It does not read the filter's text, where a plain value stands as it is: one with a
colon in it, as a caption's colour may have, would be taken apart there. -/
namespace OverlayMotion.Graph

inductive Value
  | plain (text : String)
  | quoted (text : String)
  deriving DecidableEq, Repr

def Value.text : Value → String
  | plain text => text
  | quoted text => "'" ++ text ++ "'"

structure Argument where
  key : Option String
  value : Value
  deriving DecidableEq, Repr

def Argument.text (a : Argument) : String :=
  match a.key with
  | some key => key ++ "=" ++ a.value.text
  | none => a.value.text

def placed (text : String) : Argument := ⟨none, .plain text⟩

def named (key text : String) : Argument := ⟨some key, .plain text⟩

def quotedAs (key text : String) : Argument := ⟨some key, .quoted text⟩

structure Filter where
  name : String
  arguments : List Argument
  deriving DecidableEq, Repr

def Filter.text (f : Filter) : String :=
  f.name ++ "=" ++ ":".intercalate (f.arguments.map Argument.text)

def Filter.option? (f : Filter) (key : String) : Option Value :=
  (f.arguments.find? fun a => a.key == some key).map Argument.value

def bracketed (label : String) : String := "[" ++ label ++ "]"

structure Chain where
  consumes : List String
  filters : List Filter
  produces : String
  deriving DecidableEq, Repr

def Chain.text (c : Chain) : String :=
  String.join (c.consumes.map bracketed) ++ ",".intercalate (c.filters.map Filter.text) ++
    bracketed c.produces

structure MediaInput where
  path : Path
  options : List String
  deriving DecidableEq, Repr

structure Plan where
  inputs : List MediaInput
  chains : List Chain
  video : String
  audio : Option String
  deriving DecidableEq, Repr

def Plan.filters (p : Plan) : List String := p.chains.map Chain.text

def Plan.graph (p : Plan) : String := ";".intercalate p.filters

def escapeTextChar (c : Char) : List Char :=
  if c = '\\' then ['\\', '\\']
  else if c = '\'' then ['\'', '\\', '\'', '\'']
  else if c = ':' then ['\\', ':']
  else if c = '%' then ['\\', '%']
  else [c]

def escapePathChar (c : Char) : List Char :=
  if c = '\\' then ['\\', '\\']
  else if c = ':' then ['\\', ':']
  else if c = '\'' then ['\\', '\'']
  else [c]

def escapeText (s : String) : String := String.ofList (s.toList.flatMap escapeTextChar)

def escapePath (p : Path) : String := String.ofList (p.toString.toList.flatMap escapePathChar)

end OverlayMotion.Graph

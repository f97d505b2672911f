import OverlayMotion.Text.Unicode
/-! Texts spelled for others to read. A quoted text is shown by messages, in single quotes
unless it holds a single quote and no double one. The words of a command line are written so
that a shell takes them apart again as they were. A name of several words has one spelling,
in lower case with a hyphen between the words, which may come separated by hyphens or
underscores, or, when both cases occur, by a capital at the start of each. Every name there is
to find is ASCII and none holds the letters that other scripts fold into, so folding ASCII
letters alone loses none. -/
namespace OverlayMotion.Text

def hexPadded (width n : Nat) : List Char :=
  let ds := Nat.toDigits 16 n
  List.replicate (width - ds.length) '0' ++ ds

def escaped (mark : Char) (c : Char) : List Char :=
  if c = mark ∨ c = '\\' then ['\\', c]
  else if c = '\n' then ['\\', 'n']
  else if c = '\t' then ['\\', 't']
  else if c = '\r' then ['\\', 'r']
  else if isPrintable c then [c]
  else if c.toNat < 0x100 then '\\' :: 'x' :: hexPadded 2 c.toNat
  else if c.toNat < 0x10000 then '\\' :: 'u' :: hexPadded 4 c.toNat
  else '\\' :: 'U' :: hexPadded 8 c.toNat

def quoteMark (cs : List Char) : Char := if cs.contains '\'' && !cs.contains '"' then '"' else '\''

def quotedChars (cs : List Char) : List Char :=
  let mark := quoteMark cs
  mark :: (cs.flatMap (escaped mark) ++ [mark])

def quoted (s : String) : String := String.ofList (quotedChars s.toList)

def isPlainInShell (c : Char) : Bool :=
  c.isAlphanum || ['_', '@', '%', '+', '=', ':', ',', '.', '/', '-'].contains c

def shellQuotedChar (c : Char) : List Char :=
  if c = '\'' then ['\'', '"', '\'', '"', '\''] else [c]

def shellWord (cs : List Char) : List Char :=
  if !cs.isEmpty && cs.all isPlainInShell then cs
  else '\'' :: cs.flatMap shellQuotedChar ++ ['\'']

def shellLine (words : List String) : String :=
  " ".intercalate (words.map fun word => String.ofList (shellWord word.toList))

def hyphenated : List Char → List Char
  | [] => []
  | c :: rest => if c.isUpper then '-' :: c :: hyphenated rest else c :: hyphenated rest

def splitWords : List Char → List Char
  | [] => []
  | c :: rest => c :: hyphenated rest

def hasBothCases (cs : List Char) : Bool := cs.any Char.isUpper && cs.any Char.isLower

def separatedChars (cs : List Char) : List Char :=
  let key := trim cs
  let words := if hasBothCases key then splitWords key else key
  words.map fun c => if c = '_' then '-' else c.toLower

def separated (s : String) : String := String.ofList (separatedChars s.toList)

end OverlayMotion.Text

import DayJournal.Text.Basic

/-!
# Path names

A path by its parts.  Empty parts and parts that are a single dot say nothing and are left out; two
dots stay, since where they lead depends on the files.  Exactly two slashes at the beginning are
kept apart from one.
-/

namespace DayJournal

structure PathName where
  /-- The number of slashes at the beginning; a path without any is relative. -/
  slashes : Nat
  parts : List Text
  deriving DecidableEq

namespace PathName

def ofText (s : Text) : PathName where
  slashes :=
    let n := (s.takeWhile (· = '/')).length
    if 2 < n then 1 else n
  parts := (Text.pieces '/' s).filter fun part => !part.isEmpty && part != ['.']

def isRelative (p : PathName) : Bool := p.slashes == 0

def text (p : PathName) : Text :=
  if p.isRelative && p.parts.isEmpty then ['.']
  else List.replicate p.slashes '/' ++ Text.joinWith ['/'] p.parts

/-- A relative path seen from a directory; another path is where it is. -/
def within (directory p : PathName) : PathName :=
  if p.isRelative then { directory with parts := directory.parts ++ p.parts } else p

/-- The path as seen from a directory, if its parts begin with those of the directory. -/
def below? (directory p : PathName) : Option PathName :=
  if p.slashes = directory.slashes then
    (List.isPrefixOf? directory.parts p.parts).map fun parts => ⟨0, parts⟩
  else none

/-- The path with a leading tilde replaced by the home directory.  Homes of other people are not
known. -/
def expandHome? (home p : PathName) : Option PathName :=
  match p.slashes, p.parts with
  | 0, ('~' :: person) :: more =>
    if person.isEmpty then some { home with parts := home.parts ++ more } else none
  | _, _ => some p

/-- The ending of the last part from its last dot on; a dot at either end of the part begins no
ending. -/
def suffix (p : PathName) : Text :=
  match (p.parts.getLast?).bind (Text.cutAtLast? '.') with
  | some (stem, ending) => if stem.isEmpty || ending.isEmpty then [] else '.' :: ending
  | none => []

end PathName

end DayJournal

import DayJournal.Text.Blank

/-!
# Entries and lines

An entry is a task, a note or an event with one line of content.  A line of a day is an entry or
plain text, which is kept as it stands.  Reading a line and writing it again loses only the
indentation of an entry.
-/

namespace DayJournal

inductive Kind where
  | task
  | note
  | event
  deriving DecidableEq

/-- The kind that a step through the kinds leads to: task, note, event, and task again. -/
def Kind.next : Kind → Kind
  | task => note
  | note => event
  | event => task

def Kind.marker : Kind → Bool → Text
  | task, false => "- [ ] ".toList
  | task, true => "- [x] ".toList
  | event, _ => "* ".toList
  | note, _ => "- ".toList

structure Entry where
  kind : Kind
  content : Text
  completed : Bool := false
  deriving DecidableEq

namespace Entry

def marker (e : Entry) : Text := e.kind.marker e.completed

def line (e : Entry) : Text := e.marker ++ e.content

def toggled (e : Entry) : Entry :=
  match e.kind with
  | .task => { e with completed := !e.completed }
  | _ => e

/-- The entry as the next kind; a task it becomes is open. -/
def cycled (e : Entry) : Entry := { e with kind := e.kind.next, completed := false }

/-- What an entry line can begin with.  The marker of a note begins the markers of tasks too, so
it comes last. -/
def forms : List (Kind × Bool) := [(.task, false), (.task, true), (.event, false), (.note, false)]

/-- The entry that a line holds, behind any indentation. -/
def ofLine? (s : Text) : Option Entry :=
  forms.findSome? fun (kind, completed) =>
    (Text.after? (kind.marker completed) (Text.trimStart s)).map fun content =>
      ⟨kind, content, completed⟩

/-- The entry for a line from elsewhere: what is no entry becomes a note. -/
def ofAnyLine (s : Text) : Entry := (ofLine? s).getD { kind := .note, content := Text.trim s }

end Entry

inductive Line where
  | entry (e : Entry)
  | plain (text : Text)
  deriving DecidableEq

namespace Line

def ofText (s : Text) : Line :=
  match Entry.ofLine? s with
  | some e => entry e
  | none => plain s

def text : Line → Text
  | entry e => e.line
  | plain s => s

def entry? : Line → Option Entry
  | entry e => some e
  | plain _ => none

def isEntry (l : Line) : Bool := l.entry?.isSome

/-- The lines of a text; an empty text has none. -/
def readAll (s : Text) : List Line := if s.isEmpty then [] else (Text.lines s).map ofText

def writeAll (ls : List Line) : Text := Text.joinLines (ls.map text)

def positionsFrom (start : Nat) : List Line → List Nat
  | [] => []
  | l :: more =>
    if l.isEntry then start :: positionsFrom (start + 1) more else positionsFrom (start + 1) more

def positions (ls : List Line) : List Nat := positionsFrom 0 ls

end Line

end DayJournal

import DayJournal.Document.Basic
import DayJournal.Fault
import DayJournal.Sorting

/-!
# Rows

An entry as it is shown: with its home day, its line in that day, and the reason why it is shown.
Rows of a document come in the order of their places.
-/

namespace DayJournal

/-- Why an entry is shown: it lives on the day, its date mark or its rule brings it there, or
it is an event of a calendar. -/
inductive Origin where
  | home
  | later
  | recurring
  | calendar (id name : Text)
  deriving DecidableEq

structure Row where
  entry : Entry
  day : Date
  line : Int
  origin : Origin := .home
  deriving DecidableEq

namespace Row

def place (r : Row) : Address := ⟨r.day, r.line⟩

def isBefore (a b : Row) : Bool := a.day < b.day || (a.day == b.day && a.line < b.line)

def inOrder (rows : List Row) : List Row := sortBy isBefore rows

/-- The entries among lines as rows of a day, the first line having the index `start`. -/
def ofLinesFrom (day : Date) (start : Nat) : List Line → List Row
  | [] => []
  | .entry e :: more => ⟨e, day, start, .home⟩ :: ofLinesFrom day (start + 1) more
  | .plain _ :: more => ofLinesFrom day (start + 1) more

def ofLines (day : Date) (ls : List Line) : List Row := ofLinesFrom day 0 ls

def ofDocument (document : Text) : List Row :=
  (Document.ofText document).sections.flatMap fun s => ofLines s.day s.lines

end Row

end DayJournal

import DayJournal.Document.Update
import DayJournal.Fault

/-!
# The journal

The journal as it is kept: its text, and how often it can still be written.  Every change of a
day reads the day, changes its lines and writes the day again.  Nothing is remembered between
changes, and a change that fails leaves no trace.
-/

namespace DayJournal

namespace Line

def entryAt? (ls : List Line) (index : Int) : Option Entry :=
  if 0 ≤ index then ls[index.toNat]?.bind entry? else none

/-- Lines with a new one at a position.  A negative position counts from the end, and none lies
beyond either end. -/
def insertAt (ls : List Line) (position : Int) (l : Line) : List Line :=
  let index := if position < 0 then position + ls.length else min position ls.length
  ls.insertIdx index.toNat l

/-- Lines with entries put in one after the other from an index on, and the positions that they
are given.  No position is beyond the end. -/
def insertEntries (ls : List Line) (index : Int) : List Entry → List Line × List Int
  | [] => (ls, [])
  | e :: more =>
    let position := min index ls.length
    let (result, positions) := insertEntries (insertAt ls position (.entry e)) (index + 1) more
    (result, position :: positions)

def remove (ls : List Line) (index : Int) : List Line :=
  if 0 ≤ index then ls.eraseIdx index.toNat else ls

end Line

/-- A journal and how often it can still be written, if there is an end to that. -/
structure Journal where
  text : Text
  writesLeft : Option Nat := none

namespace Journal

def lines (j : Journal) (day : Date) : List Line := Document.dayLines j.text day

def entry? (j : Journal) (place : Address) : Option Entry :=
  Line.entryAt? (j.lines place.day) place.line

def save (j : Journal) (text : Text) : Except Fault Journal :=
  match j.writesLeft with
  | none => .ok ⟨text, none⟩
  | some 0 => .error .notWritable
  | some (n + 1) => .ok ⟨text, some n⟩

def saveDay (j : Journal) (day : Date) (content : Text) : Except Fault Journal :=
  j.save (Document.updateDay j.text day content)

def saveLines (j : Journal) (day : Date) (ls : List Line) : Except Fault Journal :=
  j.saveDay day (Line.writeAll ls)

/-- The journal with the entry at a place changed, and that entry.  Without an entry there is
nothing to write. -/
def changeEntry (place : Address) (f : Entry → Entry) (j : Journal) :
    Except Fault (Option Entry × Journal) :=
  let ls := j.lines place.day
  match Line.entryAt? ls place.line with
  | none => .ok (none, j)
  | some e =>
    (j.saveLines place.day (ls.set place.line.toNat (.entry (f e)))).map fun j => (some (f e), j)

/-- The journal without the line at a place.  The lines below move up. -/
def deleteLine (place : Address) (j : Journal) : Except Fault Journal :=
  j.saveLines place.day (Line.remove (j.lines place.day) place.line)

/-- The journal with entries put into a day from a place on, and the positions they are given. -/
def insert (place : Address) (entries : List Entry) (j : Journal) :
    Except Fault (List Int × Journal) :=
  let (ls, positions) := Line.insertEntries (j.lines place.day) place.line entries
  (j.saveLines place.day ls).map fun j => (positions, j)

/-- The journal with entries put at the end of a day, and the index of the first. -/
def append (day : Date) (entries : List Entry) (j : Journal) : Except Fault (Nat × Journal) :=
  let ls := j.lines day
  (j.saveLines day (ls ++ entries.map .entry)).map fun j => (ls.length, j)

end Journal

end DayJournal

import DayJournal.Journal
import DayJournal.Query.Match
import DayJournal.DayView
import DayJournal.Settings.Basic

/-!
# The workspace

A journal with what is shown of it: the lines of the displayed day, the entries that other days
project onto it, and the rows of a filter if one is open.  What is shown is brought up to date
after each change of the journal.  A change that fails leaves the workspace as it was.
-/

namespace DayJournal

/-- What is on display: the day with a selected entry, or the rows of a query. -/
inductive View where
  | daily (selected : Int)
  | filtered (query : Text) (filter : Filter) (rows : List Row) (selected : Int)

structure Workspace where
  journal : Journal
  settings : Settings
  today : Date
  /-- The displayed day. -/
  day : Date
  events : Overlay := []
  view : View := .daily 0
  lines : List Line := []
  projected : List Row := []

namespace Workspace

def clamp (selected : Int) (count : Nat) : Int :=
  if count = 0 then 0 else max 0 (min selected (count - 1))

/-! ## What is shown -/

def reloadDay (w : Workspace) : Workspace :=
  let lines := w.journal.lines w.day
  let view := match w.view with
    | .daily selected => .daily (clamp selected (Line.positions lines).length)
    | view => view
  { w with lines, view }

def refreshProjected (w : Workspace) : Workspace :=
  { w with projected := projectedRows w.journal.text w.day }

def refreshFilter (w : Workspace) : Workspace :=
  match w.view with
  | .daily _ => w
  | .filtered query filter _ selected =>
    let rows := filter.rows w.journal.text w.today
    { w with view := .filtered query filter rows (clamp selected rows.length) }

/-- The workspace brought up to date after a change of a day. -/
def refreshAfter (day : Date) (w : Workspace) : Workspace :=
  (if day = w.day then w.reloadDay else w).refreshProjected.refreshFilter

/-- The workspace brought up to date after a change of any days. -/
def refreshAll (w : Workspace) : Workspace := w.reloadDay.refreshProjected.refreshFilter

def showDay (day : Date) (w : Workspace) : Workspace :=
  { w with day, view := .daily 0 }.reloadDay.refreshProjected

def start (journal : Journal) (settings : Settings) (today : Date) : Workspace :=
  showDay today { journal, settings, today, day := today }

/-- The workspace that shows the rows of a query. -/
def openFilter (query : Text) (w : Workspace) : Except Fault Workspace :=
  (Filter.ofQuery w.today w.settings.saved w.settings.favorites query).map fun filter =>
    { w with view := .filtered query filter [] 0 }.refreshFilter

/-- The workspace that shows its day again. -/
def closeFilter (w : Workspace) : Workspace := { w with view := .daily 0 }.reloadDay

def dayView (w : Workspace) : DayView := DayView.ofDocument w.journal.text w.day w.events

/-! ## Changes -/

variable {α : Type}

/-- The workspace after a change of the journal that concerns one day. -/
def changeDay (day : Date) (change : Journal → Except Fault (α × Journal)) (w : Workspace) :
    Except Fault (α × Workspace) :=
  (change w.journal).map fun (a, journal) => (a, { w with journal }.refreshAfter day)

/-- A content as it is saved: favourites written out, relative dates turned into dates, and no
blanks at the end. -/
def normalize (content : Text) (w : Workspace) : Except Fault Text :=
  (DateMark.normalize (Shorthand.expandFavorites w.settings.favorites content) w.today).map
    Text.trimEnd

/-- A content put at a place exactly as it is given. -/
def persist (place : Address) (content : Text) (w : Workspace) : Except Fault (Unit × Workspace) :=
  (w.changeDay place.day (Journal.changeEntry place fun e => { e with content })).map fun r =>
    ((), r.2)

/-- A content put at a place as it is saved, and what was written. -/
def saveContent (place : Address) (content : Text) (w : Workspace) :
    Except Fault (Text × Workspace) := do
  let normal ← w.normalize content
  let (_, w) ← w.persist place normal
  pure (normal, w)

def insert (place : Address) (entries : List Entry) (w : Workspace) :
    Except Fault (List Int × Workspace) :=
  w.changeDay place.day (Journal.insert place entries)

def append (day : Date) (entries : List Entry) (w : Workspace) : Except Fault (Nat × Workspace) :=
  w.changeDay day (Journal.append day entries)

def delete (place : Address) (w : Workspace) : Except Fault (Option Entry × Workspace) :=
  match w.journal.entry? place with
  | none => .ok (none, w)
  | some e => w.changeDay place.day fun j => (j.deleteLine place).map fun j => (some e, j)

def changeEntry (place : Address) (f : Entry → Entry) (w : Workspace) :
    Except Fault (Unit × Workspace) :=
  (w.changeDay place.day (Journal.changeEntry place f)).map fun r => ((), r.2)

def restoreDay (day : Date) (content : Text) (w : Workspace) : Except Fault (Unit × Workspace) :=
  w.changeDay day fun j => (j.saveDay day content).map fun j => ((), j)

def replaceAll (text : Text) (w : Workspace) : Except Fault (Unit × Workspace) :=
  (w.journal.save text).map fun journal => ((), { w with journal }.refreshAll)

/-- The whole journal replaced, without bringing what is shown up to date. -/
def replaceUnseen (text : Text) (w : Workspace) : Except Fault (Unit × Workspace) :=
  (w.journal.save text).map fun journal => ((), { w with journal })

end Workspace

/-- Changes of a workspace one after the other.  When one of them fails, the ones before it
stay. -/
abbrev Change := ExceptT Fault (StateM Workspace)

/-- A single change, which leaves no trace when it fails. -/
def Change.single {α : Type} (f : Workspace → Except Fault (α × Workspace)) : Change α :=
  ExceptT.mk fun w =>
    match f w with
    | .ok (a, changed) => (.ok a, changed)
    | .error fault => (.error fault, w)

/-- Something read off the workspace. -/
def Change.read {α : Type} (f : Workspace → α) : Change α := ExceptT.mk fun w => (.ok (f w), w)

end DayJournal

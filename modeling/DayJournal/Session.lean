import DayJournal.Action.Perform
import DayJournal.History
import DayJournal.Survey

/-!
# Sessions

A person at work on a journal: a workspace, the history of changes, and the message that was shown
last.  Each change is made by an action, so that it can be taken back.  A change that is refused
leaves the journal, the history and the message as they were.
-/

namespace DayJournal

/-- What a person points at: a line of the displayed day, a row on display, or a place. -/
inductive Location where
  | daily (line : Int)
  | shown (row : Row)
  | place (address : Address)

/-- What a listener is told about. -/
inductive Occasion where
  | run
  | undo
  | redo
  deriving DecidableEq

structure Notice where
  occasion : Occasion
  status : Option Text
  deriving DecidableEq

structure Session where
  workspace : Workspace
  history : History Action := {}
  /-- The message that was shown last. -/
  status : Option Text := none
  /-- Whether somebody listens. -/
  listening : Bool := true
  /-- What the listener has been told, oldest first. -/
  notices : List Notice := []

/-- Something a person asks for.  When it fails halfway, what was done before stays done. -/
abbrev Command := ExceptT Fault (StateM Session)

namespace Workspace

def resolve (w : Workspace) : Location → Address
  | .daily line => ⟨w.day, line⟩
  | .shown row => row.place
  | .place address => address

/-- The row that a location names.  A line of the day need not hold an entry; a bare place is no
location of a row. -/
def rowAt? (w : Workspace) : Location → Except Fault (Option Row)
  | .daily line =>
    .ok ((w.journal.entry? ⟨w.day, line⟩).map fun e => ⟨e, w.day, line, .home⟩)
  | .shown row => .ok (some row)
  | .place address => .error (.unknownLocation address)

/-- The place that a location names, if its row passes a check. -/
def checked (check : Row → Except Fault Unit) (w : Workspace) (location : Location) :
    Except Fault Address := do
  match ← w.rowAt? location with
  | some row => check row
  | none => pure ()
  pure (w.resolve location)

end Workspace

namespace Session

def start (journal : Journal) (settings : Settings) (today : Date) : Session :=
  { workspace := Workspace.start journal settings today }

variable {α : Type}

/-! ## Building blocks -/

def ask (f : Workspace → Except Fault α) : Command α := do
  match f (← get).workspace with
  | .ok a => return a
  | .error fault => throw fault

def change (c : Change α) : Command α :=
  ExceptT.mk fun s =>
    let (result, workspace) := c.run s.workspace
    (result, { s with workspace })

def display (f : Workspace → Workspace) : Command Unit :=
  modify fun s => { s with workspace := f s.workspace }

def say (status : Option Text) : Command (Option Text) := do
  modify fun s => { s with status }
  return status

/-- A message shown, and told to the listener. -/
def announce (occasion : Occasion) (status : Option Text) : Command (Option Text) := do
  modify fun s =>
    { s with notices := if s.listening then s.notices ++ [⟨occasion, status⟩] else s.notices }
  say status

/-! ## The history -/

/-- An action run and recorded; gives what there is to say about it. -/
def record (action : Action) : Command (Option Text) := do
  let reverse ← change action.perform
  modify fun s => { s with history := s.history.record reverse action.describe }
  return action.describe.onRun?

/-- The last change taken back.  An action that fails is gone from the history. -/
def takeBack : Command (Option Text) := do
  match (← get).history.undo with
  | [] => return none
  | step :: rest =>
    modify fun s => { s with history := { s.history with undo := rest } }
    let reverse ← change step.action.perform
    modify fun s =>
      { s with
        history := { s.history with
          redo := ⟨reverse, step.action.describe⟩ :: s.history.redo } }
    return step.description.onReverse?

/-- The change taken back last made again.  An action that fails is gone from the history. -/
def makeAgain : Command (Option Text) := do
  match (← get).history.redo with
  | [] => return none
  | step :: rest =>
    modify fun s => { s with history := { s.history with redo := rest } }
    let reverse ← change step.action.perform
    modify fun s =>
      { s with
        history := { s.history with
          undo := ⟨reverse, step.action.describe⟩ :: s.history.undo } }
    return step.description.onReverse?

def execute (action : Action) : Command (Option Text) := do
  announce .run (← record action)

def undo : Command (Option Text) := do announce .undo (← takeBack)

def redo : Command (Option Text) := do announce .redo (← makeAgain)

def clearHistory : Command Unit := modify fun s => { s with history := s.history.cleared }

/-- An action, its reverse, the reverse of that and so on, run without the history: each action
with the journal after it. -/
def alternate : Nat → Action → Command (List (Action × Text))
  | 0, _ => pure []
  | times + 1, action => do
    let reverse ← change action.perform
    let text := (← get).workspace.journal.text
    return (action, text) :: (← alternate times reverse)

/-! ## Views -/

/-- The view of a day, or of the displayed one, without completed entries if so chosen. -/
def viewDay (day : Option Date) : Command DayView := do
  let w := (← get).workspace
  match day, w.view with
  | none, _ => pure ()
  | some day, .filtered _ _ _ _ => display (Workspace.showDay day)
  | some day, .daily _ => if day = w.day then pure () else display (Workspace.showDay day)
  let w := (← get).workspace
  return if w.settings.hideCompleted then w.dayView.withoutCompleted else w.dayView

/-- The rows of a query opened; an empty query stands for the chosen one. -/
def viewFilter (query : Text) : Command Filter := do
  let w := (← get).workspace
  let query := if Text.isBlankText query then w.settings.defaultQuery else Text.trim query
  let opened ← ask (Workspace.openFilter query)
  display fun _ => opened
  match opened.view with
  | .filtered _ filter _ _ =>
    let _ ← say filter.warning?
    return filter
  | .daily _ => return {}

def exitFilter : Command Unit := display Workspace.closeFilter

def select (selected : Int) : Command Unit :=
  display fun w =>
    { w with
      view := match w.view with
        | .daily _ => .daily selected
        | .filtered query filter rows _ => .filtered query filter rows selected }

def dayInfo (start finish : Date) : Command (List (Date × DayInfo)) :=
  ask fun w => survey w.journal.text start finish w.events

def setEvents (events : Overlay) : Command Unit := display fun w => { w with events }

def tags : Command (List Text) := ask fun w => .ok (Tag.listing w.journal.text)

/-! ## Changes of entries -/

/-- A new entry at the end of a day, or of the displayed one. -/
def add (content : Text) (kind : Kind) (day : Option Date) : Command (Option Text) := do
  let day := day.getD (← get).workspace.day
  let e : Entry := { kind, content := ← ask (Workspace.normalize content) }
  let index ← change (.single (Workspace.append day [e]))
  execute (.create .recorded ⟨day, index⟩ e)

def edit (location : Location) (content : Text) : Command (Option Text) := do
  let place ← ask fun w => w.checked Row.ensureEditable location
  let old := ((← get).workspace.journal.entry? place).elim [] Entry.content
  let new ← change (.single (Workspace.saveContent place content))
  execute (.edit .recorded place old new)

/-- The entries that a pasted text stands for: one for each line that is not blank. -/
def pastedEntries (text : Text) (w : Workspace) : Except Fault (List Entry) :=
  ((Text.foreignLines text).filter fun l => !Text.isBlankText l).mapM fun l => do
    let e := Entry.ofAnyLine l
    pure { e with content := ← w.normalize e.content }

/-- The entries of a text put into a day, at a line or at the end. -/
def paste (text : Text) (day : Option Date) (line : Option Int) : Command (Option Text) := do
  let day := day.getD (← get).workspace.day
  let entries ← ask (pastedEntries text)
  if entries.isEmpty then return none
  let start : Int ← match line with
    | none => do
      let index ← change (.single (Workspace.append day entries))
      pure (index : Int)
    | some line => do
      let positions ← change (.single (Workspace.insert ⟨day, line⟩ entries))
      pure (positions.headD line)
  execute (.paste .recorded ⟨day, start⟩ entries)

/-- An action on the entries at some locations, once all of them have passed a check. -/
def onAll (check : Row → Except Fault Unit) (action : List Address → Action)
    (locations : List Location) : Command (Option Text) := do
  let places ← ask fun w => locations.mapM (w.checked check)
  if places.isEmpty then return none
  execute (action places)

def delete : List Location → Command (Option Text) := onAll Row.ensureEditable .delete

/-- Tasks completed or opened again, wherever they are shown. -/
def toggle : List Location → Command (Option Text) := onAll Row.ensureToggleable .toggle

def cycleKinds : List Location → Command (Option Text) := onAll Row.ensureEditable .cycleKinds

/-- A tag added to entries; the digit of a favourite stands for its tag. -/
def appendTag (tag : Text) (locations : List Location) : Command (Option Text) := do
  let name := Tag.bareName tag
  let name := match (← get).workspace.settings.favorites.lookup name with
    | some favorite => if favorite.isEmpty then name else favorite
    | none => name
  onAll Row.ensureEditable (Action.appendTag name) locations

def removeLastTag : List Location → Command (Option Text) :=
  onAll Row.ensureEditable (.changeTags .removeLast)

def removeAllTags : List Location → Command (Option Text) :=
  onAll Row.ensureEditable (.changeTags .removeAll)

def changeDates (change : DateChange) : List Location → Command (Option Text) :=
  onAll Row.ensureDateOperable (.changeDates change)

def move (location : Location) (day : Date) : Command (Option Text) := do
  let place ← ask fun w => w.checked Row.ensureEditable location
  if place.day = day then say (some "Entry already on target date".toList)
  else execute (.move place day)

def moveToToday (location : Location) : Command (Option Text) := do
  move location (← get).workspace.today

/-! ## Changes of a tag throughout the journal -/

/-- A tag changed throughout the journal, if there is anything to change. -/
def sweepTag (change : SweepChange) (tag : Text) : Command (Option Text) := do
  let name := Tag.bareName tag
  let count := Tag.count (← get).workspace.journal.text name (change == .deleteFromCompleted)
  if count = 0 then say (some ("No #".toList ++ name ++ " tags found".toList))
  else execute (.sweep ⟨change, name, count⟩)

def deleteTag : Text → Command (Option Text) := sweepTag .delete

def deleteTagFromCompleted : Text → Command (Option Text) := sweepTag .deleteFromCompleted

def renameTag (tag newName : Text) : Command (Option Text) := do
  let name := Tag.bareName newName
  if Tag.isName name then sweepTag (.rename (some name)) tag
  else throw (.badTagName name)

end Session

end DayJournal

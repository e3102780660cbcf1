import DayJournal.Action.Basic
import DayJournal.Workspace

/-!
# Performing actions

Running an action changes the workspace and gives the action that takes the change back.  An action
over several entries changes them one after the other, so a fault in the middle leaves the earlier
ones changed.
-/

namespace DayJournal

namespace Change

def entry? (place : Address) : Change (Option Entry) := read fun w => w.journal.entry? place

/-- The contents of entries changed one after the other by `transform`, which may leave a content
as it is, and the contents that were found.  Places without an entry are passed over. -/
def contents (transform : Workspace → Text → Except Fault (Option Text))
    (write : Address → Text → Change Unit) : List Address → Change (List FoundContent)
  | [] => pure []
  | place :: more => do
    match ← entry? place with
    | none => contents transform write more
    | some e =>
      match ← single fun w => (transform w e.content).map (·, w) with
      | none => pure ()
      | some content => write place content
      return ⟨place, e.content⟩ :: (← contents transform write more)

def persist (place : Address) (content : Text) : Change Unit :=
  single (Workspace.persist place content)

def saveContent (place : Address) (content : Text) : Change Unit := do
  let _ ← single (Workspace.saveContent place content)

/-- Contents put back where they were found, and the places. -/
def restoreContents (found : List FoundContent) : Change (List Address) :=
  found.mapM fun f => do
    persist f.place f.content
    return f.place

def deleteAll (places : List Address) : Change Unit :=
  places.forM fun place => discard (single (Workspace.delete place))

/-- Entries deleted one after the other: the entries that were found and the text that each day had
before its first deletion, both with the last deletion first. -/
def deleteEntries : List Address → List FoundEntry → List (Date × Text) →
    Change (List FoundEntry × List (Date × Text))
  | [], deleted, days => pure (deleted, days)
  | place :: more, deleted, days => do
    let before ← read fun w => Document.dayText w.journal.text place.day
    match ← single (Workspace.delete place) with
    | none => deleteEntries more deleted days
    | some e =>
      let days := if days.any (·.1 == place.day) then days else (place.day, before) :: days
      deleteEntries more (⟨place, e⟩ :: deleted) days

/-- The entries at some places made the next kind one after the other, and the entries that were
found. -/
def cycleKinds : List Address → Change (List FoundEntry)
  | [] => pure []
  | place :: more => do
    match ← entry? place with
    | none => cycleKinds more
    | some e =>
      single (Workspace.changeEntry place Entry.cycled)
      return ⟨place, e⟩ :: (← cycleKinds more)

end Change

namespace Address

def isBefore (a b : Address) : Bool := a.day < b.day || (a.day == b.day && a.line < b.line)

end Address

namespace Action

open Change

/-- Runs an action and gives the one that takes it back. -/
def perform : Action → Change Action
  | create .recorded place e => pure (create .takingBack place e)
  | create .takingBack place e => do
    let removed ← single (Workspace.delete place)
    return create .makingAgain place (removed.getD e)
  | create .makingAgain place e => do
    let positions ← single (Workspace.insert place [e])
    return create .takingBack { place with line := positions.headD place.line } e
  | paste .recorded start entries => pure (paste .takingBack start entries)
  | paste .takingBack start entries => do
    deleteAll ((List.range entries.length).reverse.map fun (k : Nat) =>
      { start with line := start.line + k })
    return paste .makingAgain start entries
  | paste .makingAgain start entries => do
    let positions ← single (Workspace.insert start entries)
    return paste .takingBack { start with line := positions.headD start.line } entries
  | edit .recorded place old new => pure (edit .takingBack place old new)
  | edit .takingBack place old new => do
    Change.persist place old
    return edit .makingAgain place old new
  | edit .makingAgain place old new => do
    Change.persist place new
    return edit .takingBack place old new
  | changeDates change places => do
    let found ← contents (fun w => change.transform w.today) saveContent places
    return restoreDates change found
  | restoreDates change found => do return changeDates change (← restoreContents found)
  | changeTags change places => do
    let found ← contents (fun _ content => .ok (change.transform content)) Change.persist places
    return restoreTags change found
  | restoreTags change found => do return changeTags change (← restoreContents found)
  | delete places => do
    let lastFirst := sortBy (fun a b => Address.isBefore b a) places
    let (deleted, days) ← deleteEntries lastFirst [] []
    return restoreDeleted deleted days
  | restoreDeleted deleted days => do
    (sortBy (fun a b => a.1 < b.1) days).forM fun (day, content) =>
      single (Workspace.restoreDay day content)
    return delete (deleted.map FoundEntry.place)
  | move place day => do
    let before ← read fun w => Document.dayText w.journal.text place.day
    match ← single (Workspace.delete place) with
    | none => throw (.nothingToMove place)
    | some e =>
      let index ← single (Workspace.append day [e])
      return moveBack place before ⟨day, index⟩
  | moveBack place dayText destination => do
    let _ ← single (Workspace.delete destination)
    single (Workspace.restoreDay place.day dayText)
    return move place destination.day
  | sweep s => do
    let document ← read fun w => w.journal.text
    single (Workspace.replaceAll (s.apply document))
    return restoreDocument document s
  | restoreDocument document s => do
    single (Workspace.replaceAll document)
    return sweep s
  | cycleKinds places => do return restoreKinds (← Change.cycleKinds places)
  | restoreKinds found => do
    found.forM fun f =>
      single (Workspace.changeEntry f.place fun e =>
        { e with kind := f.entry.kind, completed := f.entry.completed })
    return cycleKinds (found.map FoundEntry.place)
  | toggle places => do
    places.forM fun place => single (Workspace.changeEntry place Entry.toggled)
    return toggle places

end Action

end DayJournal

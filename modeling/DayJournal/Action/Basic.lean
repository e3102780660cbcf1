import DayJournal.Entry.DateMark
import DayJournal.Entry.Tag
import DayJournal.Fault
import DayJournal.Sorting

/-!
# Actions

What can be done to a journal and taken back.  An action holds all that its run needs, so the
reverse of an action, which is built from what the run found, is an action like any other.  This
module says what the actions are and how they are described; `Action.Perform` runs them.
-/

namespace DayJournal

/-! ## Descriptions -/

/-- When the description of an action is shown. -/
inductive Visibility where
  | silent
  | onUndo
  | always
  deriving DecidableEq

/-- What to say about an action that has run, and about one that has been taken back. -/
structure Description where
  past : Text
  pastReversed : Text
  visibility : Visibility
  deriving DecidableEq

namespace Description

def silent : Description := ⟨[], [], .silent⟩

def reversed (d : Description) : Description :=
  { d with past := d.pastReversed, pastReversed := d.past }

/-- What to say when the action has run. -/
def onRun? (d : Description) : Option Text :=
  match d.visibility with
  | .always => some d.past
  | _ => none

/-- What to say when the action has been taken back. -/
def onReverse? (d : Description) : Option Text :=
  match d.visibility with
  | .silent => none
  | _ => some d.pastReversed

end Description

/-! ## The kinds of actions -/

/-- Where an addition or an edit stands that was made before it was recorded.  The first run does
nothing; from then on it is taken back and made again by turns. -/
inductive Stage where
  | recorded
  | takingBack
  | makingAgain
  deriving DecidableEq

inductive DateChange where
  | defer
  | remove
  | bringToToday
  deriving DecidableEq

inductive TagChange where
  | append (tag : Text)
  | removeLast
  | removeAll
  deriving DecidableEq

inductive SweepChange where
  | delete
  | deleteFromCompleted
  | rename (newName : Option Text)
  deriving DecidableEq

/-- A change of a tag throughout the journal, with the number of occurrences it is about. -/
structure Sweep where
  change : SweepChange
  tag : Text
  count : Nat
  deriving DecidableEq

structure FoundContent where
  place : Address
  content : Text
  deriving DecidableEq

structure FoundEntry where
  place : Address
  entry : Entry
  deriving DecidableEq

/-- A change of the journal that can be taken back. -/
inductive Action where
  | create (stage : Stage) (place : Address) (entry : Entry)
  | paste (stage : Stage) (start : Address) (entries : List Entry)
  | edit (stage : Stage) (place : Address) (old new : Text)
  | changeDates (change : DateChange) (places : List Address)
  | restoreDates (change : DateChange) (found : List FoundContent)
  | changeTags (change : TagChange) (places : List Address)
  | restoreTags (change : TagChange) (found : List FoundContent)
  | delete (places : List Address)
  | restoreDeleted (deleted : List FoundEntry) (days : List (Date × Text))
  | move (place : Address) (day : Date)
  | moveBack (place : Address) (dayText : Text) (destination : Address)
  | sweep (s : Sweep)
  | restoreDocument (document : Text) (s : Sweep)
  | cycleKinds (places : List Address)
  | restoreKinds (found : List FoundEntry)
  | toggle (places : List Address)
  deriving DecidableEq

/-! ## Descriptions of actions -/

namespace Stage

/-- The description of an addition or an edit at a stage. -/
def describe (made : Description) : Stage → Description
  | takingBack => made.reversed
  | _ => made

end Stage

def entriesWord (count : Nat) : Text := if count = 1 then "entry".toList else "entries".toList

def countedEntries (count : Nat) : Text := Text.ofNat count ++ ' ' :: entriesWord count

def pasteDescription (count : Nat) : Description :=
  ⟨"Pasted ".toList ++ countedEntries count,
   "Removed ".toList ++ Text.ofNat count ++ " pasted ".toList ++ entriesWord count, .always⟩

namespace DateChange

def transform (today : Date) : DateChange → Text → Except Fault (Option Text)
  | defer, content => (DateMark.defer content today).map some
  | remove, content => .ok (DateMark.remove? content)
  | bringToToday, content => .ok (some (DateMark.bringTo today content))

/-- What to say about one entry, and about more or none. -/
def labels : DateChange → Text × Text
  | defer => ("Deferred date".toList, "Deferred dates on".toList)
  | remove => ("Removed date".toList, "Removed dates from".toList)
  | bringToToday => ("Set date to today".toList, "Set date to today on".toList)

def describe (change : DateChange) (count : Nat) : Description :=
  if count = 1 then ⟨change.labels.1, "Restored date".toList, .always⟩
  else
    let entries := ' ' :: Text.ofNat count ++ " entries".toList
    ⟨change.labels.2 ++ entries, "Restored dates on".toList ++ entries, .always⟩

end DateChange

namespace TagChange

def transform : TagChange → Text → Option Text
  | append tag, content => some (content ++ " #".toList ++ tag)
  | removeLast, content => Tag.removeLast? content
  | removeAll, content => Tag.removeAll? content

def describe (change : TagChange) (count : Nat) : Description :=
  let entries := Text.ofNat count ++ " entries".toList
  match change with
  | append tag =>
    if count = 1 then ⟨"Added #".toList ++ tag, "Removed #".toList ++ tag, .always⟩
    else
      ⟨"Added #".toList ++ tag ++ " to ".toList ++ entries,
       "Removed #".toList ++ tag ++ " from ".toList ++ entries, .always⟩
  | removeLast =>
    if count = 1 then ⟨"Removed tag".toList, "Restored tag".toList, .always⟩
    else
      ⟨"Removed tags from ".toList ++ entries, "Restored tags on ".toList ++ entries, .always⟩
  | removeAll =>
    if count = 1 then ⟨"Removed all tags".toList, "Restored tags".toList, .always⟩
    else
      ⟨"Removed all tags from ".toList ++ entries, "Restored tags on ".toList ++ entries, .always⟩

end TagChange

namespace Sweep

/-- The document with the tag changed throughout and without entries that are left empty. -/
def apply (s : Sweep) (document : Text) : Text :=
  Tag.dropBareMarkers <|
    match s.change with
    | .delete => Tag.replace document s.tag none false
    | .deleteFromCompleted => Tag.replace document s.tag none true
    | .rename newName => Tag.replace document s.tag newName false

def named (name : Option Text) : Text := '#' :: name.getD "None".toList

def describe (s : Sweep) : Description :=
  let occurrences := Text.ofNat s.count ++ " tag occurrences".toList
  match s.change with
  | .delete => ⟨"Deleted ".toList ++ occurrences, "Restored ".toList ++ occurrences, .always⟩
  | .deleteFromCompleted =>
    ⟨"Removed ".toList ++ occurrences ++ " from completed".toList,
     "Restored ".toList ++ occurrences, .always⟩
  | .rename newName =>
    ⟨"Renamed ".toList ++ named (some s.tag) ++ " to ".toList ++ named newName,
     "Renamed ".toList ++ named newName ++ " back to ".toList ++ named (some s.tag), .always⟩

end Sweep

namespace Action

def deleteDescription (count : Nat) : Description :=
  ⟨"Deleted ".toList ++ entriesWord count, "Restored ".toList ++ entriesWord count, .always⟩

def moveDescription (day : Date) : Description :=
  ⟨"Moved to ".toList ++ day.monthDay, "Moved back".toList, .always⟩

/-- The action that adds a tag to entries; the `#` may be written or left out. -/
def appendTag (tag : Text) (places : List Address) : Action :=
  changeTags (.append (Tag.bareName tag)) places

def describe : Action → Description
  | create stage _ _ =>
    stage.describe ⟨"Created entry".toList, "Removed entry".toList, .onUndo⟩
  | paste stage _ entries => stage.describe (pasteDescription entries.length)
  | edit stage _ _ _ =>
    stage.describe ⟨"Edited entry".toList, "Reverted edit".toList, .onUndo⟩
  | changeDates change places => change.describe places.length
  | restoreDates change found => (change.describe found.length).reversed
  | changeTags change places => change.describe places.length
  | restoreTags change found => (change.describe found.length).reversed
  | delete places => deleteDescription places.length
  | restoreDeleted deleted _ => (deleteDescription deleted.length).reversed
  | move _ day => moveDescription day
  | moveBack _ _ destination => (moveDescription destination.day).reversed
  | sweep s => s.describe
  | restoreDocument _ s => s.describe.reversed
  | cycleKinds _ => .silent
  | restoreKinds _ => .silent
  | toggle _ => .silent

end Action

end DayJournal

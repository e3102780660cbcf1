import DayJournal.Session

/-!
# Calls

What a person can ask of a session, as data, so that runs of calls can be talked about.
-/

namespace DayJournal

/-- Something a person asks of a session. -/
inductive Call where
  | viewDay (day : Option Date)
  | viewFilter (query : Text)
  | exitFilter
  | add (content : Text) (kind : Kind) (day : Option Date)
  | edit (location : Location) (content : Text)
  | paste (text : Text) (day : Option Date) (line : Option Int)
  | delete (locations : List Location)
  | toggle (locations : List Location)
  | cycleKinds (locations : List Location)
  | appendTag (tag : Text) (locations : List Location)
  | removeLastTag (locations : List Location)
  | removeAllTags (locations : List Location)
  | changeDates (change : DateChange) (locations : List Location)
  | move (location : Location) (day : Date)
  | deleteTag (tag : Text)
  | deleteTagFromCompleted (tag : Text)
  | renameTag (tag newName : Text)
  | undo
  | redo

namespace Call

/-- What a session does for a call; what it answers is left out. -/
def command : Call → Command Unit
  | viewDay day => discard (Session.viewDay day)
  | viewFilter query => discard (Session.viewFilter query)
  | exitFilter => Session.exitFilter
  | add content kind day => discard (Session.add content kind day)
  | edit location content => discard (Session.edit location content)
  | paste text day line => discard (Session.paste text day line)
  | delete locations => discard (Session.delete locations)
  | toggle locations => discard (Session.toggle locations)
  | cycleKinds locations => discard (Session.cycleKinds locations)
  | appendTag tag locations => discard (Session.appendTag tag locations)
  | removeLastTag locations => discard (Session.removeLastTag locations)
  | removeAllTags locations => discard (Session.removeAllTags locations)
  | changeDates change locations => discard (Session.changeDates change locations)
  | move location day => discard (Session.move location day)
  | deleteTag tag => discard (Session.deleteTag tag)
  | deleteTagFromCompleted tag => discard (Session.deleteTagFromCompleted tag)
  | renameTag tag newName => discard (Session.renameTag tag newName)
  | undo => discard Session.undo
  | redo => discard Session.redo

/-- The days that a call writes to when it is made with a workspace; undo and redo write to days of
earlier calls. -/
def writtenDays (w : Workspace) : Call → List Date
  | add _ _ day => [day.getD w.day]
  | edit location _ => [(w.resolve location).day]
  | paste _ day _ => [day.getD w.day]
  | delete locations => locations.map fun l => (w.resolve l).day
  | toggle locations => locations.map fun l => (w.resolve l).day
  | cycleKinds locations => locations.map fun l => (w.resolve l).day
  | appendTag _ locations => locations.map fun l => (w.resolve l).day
  | removeLastTag locations => locations.map fun l => (w.resolve l).day
  | removeAllTags locations => locations.map fun l => (w.resolve l).day
  | changeDates _ locations => locations.map fun l => (w.resolve l).day
  | move location day =>
    if (w.resolve location).day = day then [] else [(w.resolve location).day, day]
  | _ => []

/-- The contents and tags that a call is given.  A pasted text is none: it is taken line by line. -/
def givenTexts : Call → List Text
  | add content _ _ => [content]
  | edit _ content => [content]
  | appendTag tag _ => [tag]
  | deleteTag tag => [tag]
  | deleteTagFromCompleted tag => [tag]
  | renameTag tag newName => [tag, newName]
  | _ => []

/-- The call is given single lines, and writes to days that have headers of their own. -/
def Proper (w : Workspace) (c : Call) : Prop :=
  (∀ day ∈ c.writtenDays w, 1000 ≤ day.year) ∧ ∀ t ∈ c.givenTexts, '\n' ∉ t

end Call

/-- A call, and how often the journal can be written in the course of it. -/
structure Turn where
  writes : Option Nat
  call : Call

namespace Session

def after (s : Session) (c : Call) : Session := (c.command.run s).2

/-- The session with a journal that can be written so often. -/
def allow (s : Session) (writes : Option Nat) : Session :=
  { s with workspace := { s.workspace with journal := { s.workspace.journal with
    writesLeft := writes } } }

def turn (s : Session) (t : Turn) : Session := (s.allow t.writes).after t.call

def run (s : Session) (turns : List Turn) : Session := turns.foldl turn s

def Proper : Session → List Turn → Prop
  | _, [] => True
  | s, t :: more => t.call.Proper s.workspace ∧ Proper (s.turn t) more

end Session

end DayJournal

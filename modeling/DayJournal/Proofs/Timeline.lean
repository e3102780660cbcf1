import DayJournal.Proofs.Calls
import DayJournal.Proofs.Reversal

/-!
# Timelines

What undo and redo are for: a line of texts, with the one that is there now somewhere on it.  A
change forgets what lay ahead; undo and redo move along the line.  This module says which calls
change a plain document in a plain way, and when a batch of changes can be taken back.
-/

namespace DayJournal

open Text Document

/-- The texts of a journal: those before the present one, most recent first, and those that were
taken back, next first. -/
structure Timeline where
  past : List Text
  present : Text
  future : List Text

namespace Timeline

def back : Timeline → Timeline
  | ⟨t :: past, present, future⟩ => ⟨past, t, present :: future⟩
  | line => line

def forth : Timeline → Timeline
  | ⟨past, present, t :: future⟩ => ⟨present :: past, t, future⟩
  | line => line

/-- A new text; at most `depth` texts before it are remembered. -/
def push (line : Timeline) (depth : Nat) (t : Text) : Timeline :=
  ⟨(line.present :: line.past).take depth, t, []⟩

end Timeline

/-- The name of a tag as it is added; the digit of a favourite stands for its tag. -/
def Workspace.tagName (w : Workspace) (tag : Text) : Text :=
  match w.settings.favorites.lookup (Tag.bareName tag) with
  | some favorite => if favorite.isEmpty then Tag.bareName tag else favorite
  | none => Tag.bareName tag

namespace Call

/-- Whether a call makes a change that can be taken back. -/
def acts (w : Workspace) : Call → Bool
  | add _ _ _ => true
  | edit _ _ => true
  | paste text _ _ => (foreignLines text).any fun l => !isBlankText l
  | delete locations => !locations.isEmpty
  | toggle locations => !locations.isEmpty
  | cycleKinds locations => !locations.isEmpty
  | appendTag _ locations => !locations.isEmpty
  | removeLastTag locations => !locations.isEmpty
  | removeAllTags locations => !locations.isEmpty
  | changeDates _ locations => !locations.isEmpty
  | move location day => (w.resolve location).day != day
  | _ => false

/-- What a call writes is plain, and it adds to days that have headers of their own. -/
def Plain (w : Workspace) : Call → Prop
  | viewDay _ => True
  | viewFilter _ => True
  | exitFilter => True
  | add content _ day =>
    1000 ≤ (day.getD w.day).year ∧ ∀ normal, w.normalize content = .ok normal → PlainContent normal
  | edit _ content => ∀ normal, w.normalize content = .ok normal → PlainContent normal
  | paste text day line =>
    1000 ≤ (day.getD w.day).year ∧ (∀ index ∈ line, 0 ≤ index) ∧
      ∀ entries, Session.pastedEntries text w = .ok entries → ∀ e ∈ entries, PlainContent e.content
  | delete _ => True
  | toggle _ => True
  | cycleKinds _ => True
  | appendTag tag _ => Tag.isName (w.tagName tag) = true
  | removeLastTag _ => True
  | removeAllTags _ => True
  | changeDates change _ => change ≠ .remove
  | move _ day => 1000 ≤ day.year
  | undo => True
  | redo => True
  | _ => False

/-- An entry that is named several times is as in the beginning when its last turn comes. -/
def Rewinds (w : Workspace) : Call → Prop
  | cycleKinds locations =>
    Document.Rewinds Entry.cycled Entry.withKind (locations.map w.resolve) w.journal.text
  | appendTag tag locations =>
    Document.Rewinds (TagChange.append (w.tagName tag)).onEntry Entry.withContent
      (locations.map w.resolve) w.journal.text
  | removeLastTag locations =>
    Document.Rewinds TagChange.removeLast.onEntry Entry.withContent (locations.map w.resolve)
      w.journal.text
  | removeAllTags locations =>
    Document.Rewinds TagChange.removeAll.onEntry Entry.withContent (locations.map w.resolve)
      w.journal.text
  | changeDates change locations =>
    Document.Rewinds (change.onEntry ⟨w.settings, w.today⟩) Entry.withContent
      (locations.map w.resolve) w.journal.text
  | _ => True

def locations : Call → List Location
  | delete locations => locations
  | toggle locations => locations
  | cycleKinds locations => locations
  | appendTag _ locations => locations
  | removeLastTag locations => locations
  | removeAllTags locations => locations
  | changeDates _ locations => locations
  | _ => []

def check : Call → Row → Except Fault Unit
  | toggle _ => Row.ensureToggleable
  | changeDates _ _ => Row.ensureDateOperable
  | _ => Row.ensureEditable

def action (w : Workspace) : Call → List Address → Action
  | toggle _ => .toggle
  | cycleKinds _ => .cycleKinds
  | appendTag tag _ => .changeTags (.append (w.tagName tag))
  | removeLastTag _ => .changeTags .removeLast
  | removeAllTags _ => .changeTags .removeAll
  | changeDates change _ => .changeDates change
  | _ => .delete

theorem rewinds_of_nodup {w : Workspace} {c : Call} (h : (c.locations.map w.resolve).Nodup) :
    c.Rewinds w := by
  cases c with
  | cycleKinds locations => exact Document.rewinds_of_nodup (fun _ => rfl) h
  | appendTag tag locations => exact Document.rewinds_of_nodup (fun _ => rfl) h
  | removeLastTag locations => exact Document.rewinds_of_nodup (fun _ => rfl) h
  | removeAllTags locations => exact Document.rewinds_of_nodup (fun _ => rfl) h
  | changeDates change locations =>
      exact Document.rewinds_of_nodup (DateChange.withContent_onEntry change _) h
  | _ => trivial

end Call

namespace Timeline

/-- A timeline after a call that was made with a session and left a text. -/
def step (line : Timeline) (s : Session) (c : Call) (t : Text) : Timeline :=
  match c with
  | .undo => line.back
  | .redo => line.forth
  | c => if c.acts s.workspace then line.push s.history.depth t else line

end Timeline

namespace Session

def timeline (line : Timeline) : Session → List Turn → Timeline
  | _, [] => line
  | s, t :: more =>
    timeline (line.step (s.allow t.writes) t.call (s.turn t).workspace.journal.text) (s.turn t) more

def succeeds (s : Session) (c : Call) : Bool := (c.command.run s).1.isOk

theorem run_of_succeeds {s : Session} {c : Call} (h : s.succeeds c = true) :
    c.command.run s = (.ok (), s.after c) := by
  unfold succeeds at h
  cases hresult : (c.command.run s).1 with
  | error fault =>
      rw [hresult] at h
      cases h
  | ok answer => exact Prod.ext hresult rfl

theorem run_of_not_succeeds {s : Session} {c : Call} (h : s.succeeds c = false) :
    ∃ e, c.command.run s = (.error e, s.after c) := exists_run_error h

def PlainRun : Session → List Turn → Prop
  | _, [] => True
  | s, t :: more =>
    t.call.Plain (s.allow t.writes).workspace ∧ (s.allow t.writes).succeeds t.call = true ∧
      PlainRun (s.turn t) more

def Rewinds : Session → List Turn → Prop
  | _, [] => True
  | s, t :: more => t.call.Rewinds (s.allow t.writes).workspace ∧ Rewinds (s.turn t) more

end Session

end DayJournal

import DayJournal.Entry.DateMark
import DayJournal.Entry.Repetition
import DayJournal.Query.Filter
import DayJournal.Row

/-!
# Matching

Which entries a filter lets through.  The date of an entry is the one its date mark names, looked
at from its home day, and else the home day.
-/

namespace DayJournal.Filter

def entryDate (e : Entry) (home : Date) : Date :=
  (DateMark.targetDate? e.content home).getD home

/-- Whether kind and completion are among those asked for. -/
def admitsKind (f : Filter) (e : Entry) : Bool :=
  (f.kinds.isEmpty || f.kinds.contains e.kind) && !f.excludedKinds.contains e.kind &&
    (e.kind != .task || f.completed.all (· == e.completed))

def admitsDate (f : Filter) (e : Entry) (home : Date) : Bool :=
  f.before.all (fun bound => entryDate e home ≤ bound) &&
    f.after.all (fun bound => bound ≤ entryDate e home)

/-- Whether an entry has an annotated date in the past and is still open. -/
def isOverdue (e : Entry) (home today : Date) : Bool :=
  (DateMark.targetDate? e.content home).any (· < today) && !(e.kind == .task && e.completed)

def isLater (e : Entry) (home today : Date) : Bool :=
  (DateMark.targetDate? e.content home).any (today < ·)

def hasTag (e : Entry) (name : Text) : Bool :=
  ((Tag.names e.content).map Text.lower).contains (Text.lower name)

def hasTerm (e : Entry) (term : Text) : Bool :=
  Text.includes (Text.lower term) (Text.lower e.content)

def admits (f : Filter) (e : Entry) (home today : Date) : Bool :=
  f.admitsKind e && f.admitsDate e home &&
    (!f.overdue || isOverdue e home today) && (!f.later || isLater e home today) &&
    (!f.recurring || Repetition.isIn e.content) &&
    f.tags.all (hasTag e) && f.excludedTags.all (fun name => !hasTag e name) &&
    f.terms.all (hasTerm e) && f.excludedTerms.all (fun term => !hasTerm e term)

/-- The rows of a document that a filter lets through, in the order of their places. -/
def rows (f : Filter) (document : Text) (today : Date) : List Row :=
  Row.inOrder ((Row.ofDocument document).filter fun r => f.admits r.entry r.day today)

end DayJournal.Filter

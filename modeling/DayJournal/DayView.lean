import DayJournal.Entry.DateMark
import DayJournal.Entry.Repetition
import DayJournal.Row

/-!
# The view of a day

A day shows its own entries, the entries of other days that a date mark or a repetition
brings there, and the events of calendars.  Entries from elsewhere keep pointing to where they
live, and what may be changed about them is limited.
-/

namespace DayJournal

structure CalendarEvent where
  calendarId : Text
  calendarName : Text
  title : Text
  allDay : Bool := true
  start : Option Text := none

/-- The content under which an event is shown: its title, with the time it starts before it. -/
def CalendarEvent.content (e : CalendarEvent) : Text :=
  match e.start with
  | some time => if time.isEmpty || e.allDay then e.title else time ++ ' ' :: e.title
  | none => e.title

/-- Calendar events by day. -/
abbrev Overlay := List (Date × List CalendarEvent)

namespace Overlay

def on (events : Overlay) (day : Date) : List CalendarEvent := (events.lookup day).getD []

def rowsOn (events : Overlay) (day : Date) : List Row :=
  (events.on day).zipIdx.map fun (e, index) =>
    { entry := { kind := .event, content := e.content }
      day, line := index, origin := .calendar e.calendarId e.calendarName }

end Overlay

/-- The row of an entry on a day that is not its own, if it is shown there: as a later entry when
its date mark names the day, and else as a recurring entry when its rule falls on the day. -/
def Row.projected? (target : Date) (r : Row) : Option Row :=
  if r.day = target then none
  else if DateMark.targetDate? r.entry.content r.day = some target then
    some { r with origin := .later }
  else
    match Repetition.rule? r.entry.content with
    | some rule => if rule.fallsOn target then some { r with origin := .recurring } else none
    | none => none

/-- The entries of other days that are shown on a day, oldest home day first. -/
def projectedRows (document : Text) (target : Date) : List Row :=
  Row.inOrder ((Row.ofDocument document).filterMap (Row.projected? target))

/-- The entries of other days that their date marks bring to a day. -/
def laterRows (document : Text) (target : Date) : List Row :=
  (projectedRows document target).filter fun r => r.origin = .later

structure DayView where
  day : Date
  own : List Row
  projected : List Row
  calendar : List Row

namespace DayView

def ofDocument (document : Text) (day : Date) (events : Overlay) : DayView where
  day := day
  own := Row.ofLines day (Document.dayLines document day)
  projected := projectedRows document day
  calendar := events.rowsOn day

def rows (v : DayView) : List Row := v.calendar ++ v.projected ++ v.own

def withoutCompleted (v : DayView) : DayView :=
  { v with
    own := v.own.filter fun r => !r.entry.completed
    projected := v.projected.filter fun r => !r.entry.completed }

end DayView

/-! ## What may be changed about a row -/

namespace Row

/-- Content, kind and tags change on the home day only. -/
def ensureEditable (r : Row) : Except Fault Unit :=
  match r.origin with
  | .calendar _ _ => .error (.readOnly .calendarEvent)
  | .home => .ok ()
  | _ => .error (.readOnly (.livesOn r.day))

/-- Tasks can be completed wherever they are shown. -/
def ensureToggleable (r : Row) : Except Fault Unit :=
  match r.origin with
  | .calendar _ _ => .error (.readOnly .calendarEvent)
  | _ => if r.entry.kind = .task then .ok () else .error (.readOnly (.notATask r.day))

/-- Dates change on the home day only. -/
def ensureDateOperable (r : Row) : Except Fault Unit :=
  match r.origin with
  | .calendar _ _ => .error (.readOnly .calendarEvent)
  | .recurring => .error (.readOnly (.followsPattern r.day))
  | .later => .error (.readOnly (.livesOn r.day))
  | .home => .ok ()

end Row

end DayJournal

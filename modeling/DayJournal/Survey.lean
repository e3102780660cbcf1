import DayJournal.DayView
import DayJournal.Entry.Tag

/-!
# Surveys

What a calendar page shows of a journal: for each day whether it has entries, open tasks and
events, whether a repetition falls on it, and whether a calendar has events there.  A survey of the
tags of a journal lists each tag once.
-/

namespace DayJournal

structure DayInfo where
  entries : Bool
  openTasks : Bool
  events : Bool
  recurring : Bool
  calendar : Bool
  deriving DecidableEq

/-- A day with neither entries nor a repetition nor calendar events is left blank. -/
def DayInfo.isEmpty (i : DayInfo) : Bool := !(i.entries || i.recurring || i.calendar)

/-- The repetitions on some lines, each with its home day, the first line standing below the header
of `home?`.  A carriage return at the end of a line is not part of it. -/
def recurrencesBelow (home? : Option Date) : List Text → List (Date × Recurrence)
  | [] => []
  | l :: more =>
    let l := Text.trimEndOf (· = '\r') l
    match headedDay? l with
    | some day => recurrencesBelow (some day) more
    | none =>
      match home?, (Entry.ofLine? l).bind fun e => Repetition.rule? e.content with
      | some home, some rule => (home, rule) :: recurrencesBelow home? more
      | _, _ => recurrencesBelow home? more

/-- The repetitions of a journal.  What stands above the first header has no home day. -/
def recurrences (document : Text) : List (Date × Recurrence) :=
  recurrencesBelow none (Text.lines document)

/-- What there is to show of a day, given the rows of the journal, its repetitions and the events.
A repetition does not fall on its own home day. -/
def DayInfo.on (rows : List Row) (repetitions : List (Date × Recurrence)) (events : Overlay)
    (day : Date) : DayInfo :=
  let own := rows.filter fun r => r.day == day
  { entries := !own.isEmpty
    openTasks := own.any fun r => r.entry.kind == .task && !r.entry.completed
    events := own.any fun r => r.entry.kind == .event
    recurring := repetitions.any fun (home, rule) => home != day && rule.fallsOn day
    calendar := !(events.on day).isEmpty }

/-- The days of a range that may have something to show. -/
def surveyedDays (rows : List Row) (repetitions : List (Date × Recurrence)) (events : Overlay)
    (start finish : Date) : List Date :=
  if repetitions.isEmpty then
    (rows.map Row.day ++ events.map Prod.fst).eraseDups.filter fun d => start ≤ d && d ≤ finish
  else Date.range start finish

/-- The days of a range that have something to show.  Looking for repetitions steps past the end of
the range, which the last day of the calendar does not allow. -/
def survey (document : Text) (start finish : Date) (events : Overlay) :
    Except Fault (List (Date × DayInfo)) :=
  let rows := Row.ofDocument document
  let repetitions := recurrences document
  if !repetitions.isEmpty && start ≤ finish && finish = Date.last then .error .dateOutOfRange
  else
    .ok (((surveyedDays rows repetitions events start finish).map fun d =>
      (d, DayInfo.on rows repetitions events d)).filter fun info => !info.2.isEmpty)

/-! ## Tags of a journal -/

/-- Tags without those that come up again, case ignored, given the small spellings of those that
have come up before. -/
def Tag.distinctFrom (seen : List Text) : List Text → List Text
  | [] => []
  | name :: more =>
    let small := Text.lower name
    if seen.contains small then distinctFrom seen more
    else name :: distinctFrom (small :: seen) more

/-- The tags of a journal in alphabetical order, case ignored, as each is first written. -/
def Tag.listing (document : Text) : List Text :=
  sortBy (fun a b => decide (Text.lower a < Text.lower b))
    (Tag.distinctFrom [] (Tag.names document))

end DayJournal

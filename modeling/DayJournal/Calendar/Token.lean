import DayJournal.Calendar.Recurrence
import DayJournal.Calendar.Weekday
import DayJournal.Fault

/-!
# Date tokens

One vocabulary of dates serves entries and filters: `today`, `d3`, `mon`, `3/14`, `2026/3/14`.
The two differ in the way a token looks when it does not say so itself: an entry looks ahead and
a filter looks back.  A trailing `+` or `-` settles the way.
-/

namespace DayJournal

/-- The way a token looks from today when it does not say so itself. -/
inductive Outlook where
  | ahead
  | back
  deriving DecidableEq

inductive RelativeDay where
  | today
  | tomorrow
  | yesterday
  | daysAway (count : Nat) (side : Outlook)
  | weekday (day : Weekday) (side : Outlook)
  deriving DecidableEq

/-- A token without its trailing sign, and the way the token looks. -/
def Outlook.signed (outlook : Outlook) (token : Text) : Text × Outlook :=
  match token.getLast? with
  | some '+' => (token.dropLast, .ahead)
  | some '-' => (token.dropLast, .back)
  | _ => (token, outlook)

namespace RelativeDay

/-- The number of days in a token such as `d3`: one to three digits, not all zero. -/
def dayCount? : Text → Option Nat
  | 'd' :: digits =>
    if Text.isNumeral digits && digits.length ≤ 3 && 0 < Text.numeralValue digits then
      some (Text.numeralValue digits)
    else none
  | _ => none

def ofToken? (outlook : Outlook) (token : Text) : Option RelativeDay :=
  let name := Text.lower token
  if name = "today".toList then some .today
  else if name = "tomorrow".toList then some .tomorrow
  else if name = "yesterday".toList then some .yesterday
  else
    let (base, side) := outlook.signed name
    match dayCount? base with
    | some count => some (.daysAway count side)
    | none => (Weekday.ofLowerName? base).map (.weekday · side)

/-- The date of a relative day.  A day that is out of reach of the calendar is no date, but a
weekday that is out of reach is a fault. -/
def resolve (today : Date) : RelativeDay → Except Fault (Option Date)
  | .today => .ok (some today)
  | .tomorrow => .ok today.next?
  | .yesterday => .ok today.previous?
  | .daysAway count .ahead => .ok (today.later? count)
  | .daysAway count .back => .ok (today.earlier? count)
  | .weekday w .ahead => (today.nextWeekday? w).elim (.error .dateOutOfRange) (.ok ∘ some)
  | .weekday w .back => (today.previousWeekday? w).elim (.error .dateOutOfRange) (.ok ∘ some)

end RelativeDay

namespace Date

/-- The date of a month and day without a year.  It lies in this year, unless it has passed
already for who looks ahead (then in the next) or is still to come for who looks back (then in
the one before). -/
def yearless? (outlook : Outlook) (today : Date) (month day : Nat) : Option Date :=
  (ofNumbers? today.year month day).bind fun d =>
    match outlook with
    | .ahead => if d < today then ofNumbers? (today.year + 1) month day else some d
    | .back => if today < d then ofNumbers? (today.year - 1) month day else some d

/-- The date that a token with slashes names: `Y/M/D` when the first part has four digits,
`M/D/Y` otherwise, where a year below a hundred is one of this century, or `M/D`. -/
def absolute? (outlook : Outlook) (today : Date) (token : Text) : Option Date :=
  let parts := Text.pieces '/' token
  if parts.all Text.isNumeral then
    match parts with
    | [a, b, c] =>
      if a.length = 4 then ofParts? a b c
      else
        let year := Text.numeralValue c
        ofNumbers? (if year < 100 then year + 2000 else year) (Text.numeralValue a)
          (Text.numeralValue b)
    | [a, b] => yearless? outlook today (Text.numeralValue a) (Text.numeralValue b)
    | _ => none
  else none

/-- The length of the first numeral of a token with slashes that is too long to be read.  The
parts of a token that begins with a year have lengths of their own, so they are never too long. -/
def oversized? (token : Text) : Option Nat :=
  let parts := Text.pieces '/' token
  let read := match parts with
    | [a, _, _] => a.length != 4
    | [_, _] => true
    | _ => false
  if parts.all Text.isNumeral && read then
    (parts.find? fun part => Fault.longestNumeral < part.length).map List.length
  else none

/-- The date that a token names, relative days first. -/
def ofToken (outlook : Outlook) (today : Date) (token : Text) : Except Fault (Option Date) :=
  match RelativeDay.ofToken? outlook token with
  | some day => day.resolve today
  | none =>
    match oversized? token with
    | some digits => .error (.numeralTooLong digits)
    | none => .ok (absolute? outlook today token)

end Date

namespace Recurrence

/-- The rule that the name behind `@every-` stands for. -/
def ofName? (name : Text) : Option Recurrence :=
  let small := Text.lower name
  if small = "day".toList then some .daily
  else if small = "weekday".toList then some .workdays
  else
    match Weekday.ofLowerName? small with
    | some w => some (.weekly w.val)
    | none => if Text.isNumeral small then monthly? (Text.numeralValue small) else none

/-- The rule for a name of any length. -/
def ofToken (name : Text) : Except Fault (Option Recurrence) :=
  let small := Text.lower name
  if Text.isNumeral small && Fault.longestNumeral < small.length then
    .error (.numeralTooLong small.length)
  else .ok (ofName? name)

end Recurrence

end DayJournal

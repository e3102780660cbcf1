import DayJournal.Text.Digit

/-!
# Dates

Days of the Gregorian calendar from the first of January of year 1 to the last of December of year
9999.  A date that is no day of that calendar cannot be built.  Moving by days goes one day at a
time and ends at either border; `ordinal` counts the days from the first one and gives the weekday.
-/

namespace DayJournal

def isLeapYear (year : Nat) : Bool := year % 4 == 0 && (year % 100 != 0 || year % 400 == 0)

def daysInMonth (year month : Nat) : Nat :=
  if month = 2 then if isLeapYear year then 29 else 28
  else if month = 4 ∨ month = 6 ∨ month = 9 ∨ month = 11 then 30
  else 31

def IsCalendarDay (year month day : Nat) : Prop :=
  1 ≤ year ∧ year ≤ 9999 ∧ 1 ≤ month ∧ month ≤ 12 ∧ 1 ≤ day ∧ day ≤ daysInMonth year month

instance (year month day : Nat) : Decidable (IsCalendarDay year month day) := by
  unfold IsCalendarDay; infer_instance

structure Date where
  year : Nat
  month : Nat
  day : Nat
  valid : IsCalendarDay year month day
  deriving DecidableEq

/-- A weekday, counted from Monday. -/
abbrev Weekday := Fin 7

/-- The weekday of a number, which counts on through the weeks. -/
def Weekday.ofNumber (n : Nat) : Weekday := Fin.ofNat 7 n

namespace Date

/-- The day that three numbers name, if they name one. -/
def ofNumbers? (year month day : Nat) : Option Date :=
  if h : IsCalendarDay year month day then some ⟨year, month, day, h⟩ else none

/-- A number that grows from each day to the next. -/
def rank (d : Date) : Nat := 10000 * d.year + 100 * d.month + d.day

instance : LT Date := ⟨fun a b => a.rank < b.rank⟩

instance : LE Date := ⟨fun a b => a.rank ≤ b.rank⟩

instance (a b : Date) : Decidable (a < b) := inferInstanceAs (Decidable (a.rank < b.rank))

instance (a b : Date) : Decidable (a ≤ b) := inferInstanceAs (Decidable (a.rank ≤ b.rank))

def first : Date := ⟨1, 1, 1, by decide⟩

def last : Date := ⟨9999, 12, 31, by decide⟩

def next? (d : Date) : Option Date :=
  if d.day < daysInMonth d.year d.month then ofNumbers? d.year d.month (d.day + 1)
  else if d.month < 12 then ofNumbers? d.year (d.month + 1) 1
  else ofNumbers? (d.year + 1) 1 1

def previous? (d : Date) : Option Date :=
  if 1 < d.day then ofNumbers? d.year d.month (d.day - 1)
  else if 1 < d.month then ofNumbers? d.year (d.month - 1) (daysInMonth d.year (d.month - 1))
  else ofNumbers? (d.year - 1) 12 31

def later? : Nat → Date → Option Date
  | 0, d => some d
  | n + 1, d => (next? d).bind (later? n)

def earlier? : Nat → Date → Option Date
  | 0, d => some d
  | n + 1, d => (previous? d).bind (earlier? n)

def daysBeforeMonth (year : Nat) : Nat → Nat
  | 0 => 0
  | month + 1 => daysBeforeMonth year month + if month = 0 then 0 else daysInMonth year month

def daysBeforeYear (year : Nat) : Nat :=
  365 * (year - 1) + (year - 1) / 4 - (year - 1) / 100 + (year - 1) / 400

/-- The number of a day, the first day of the calendar being number 1. -/
def ordinal (d : Date) : Nat := daysBeforeYear d.year + daysBeforeMonth d.year d.month + d.day

/-- The first day of the calendar is a Monday. -/
def weekday (d : Date) : Weekday := Weekday.ofNumber (d.ordinal + 6)

/-- The next day with a given weekday, never the day itself. -/
def nextWeekday? (d : Date) (w : Weekday) : Option Date :=
  later? (if w = d.weekday then 7 else (w - d.weekday).val) d

/-- The latest earlier day with a given weekday, never the day itself. -/
def previousWeekday? (d : Date) (w : Weekday) : Option Date :=
  earlier? (if w = d.weekday then 7 else (d.weekday - w).val) d

/-- At most `n` days in a row, from a given one on. -/
def days : Nat → Date → List Date
  | 0, _ => []
  | n + 1, d =>
    d :: match next? d with
      | some e => days n e
      | none => []

def range (start finish : Date) : List Date := days (finish.ordinal + 1 - start.ordinal) start

def monthDay (d : Date) : Text := Text.twoDigits d.month ++ '/' :: Text.twoDigits d.day

/-- A date as `Y/M/D`; the year is not filled up with zeros. -/
def slashed (d : Date) : Text := Text.ofNat d.year ++ '/' :: d.monthDay

def dashed (d : Date) : Text :=
  Text.fourDigits d.year ++ '-' :: Text.twoDigits d.month ++ '-' :: Text.twoDigits d.day

/-- The month that one or two plain digits write. -/
def monthNumber? (s : Text) : Option Nat :=
  if s.all Char.isDigit && s.length ≤ 2 then
    let n := Text.numeralValue s
    if 1 ≤ n ∧ n ≤ 12 then some n else none
  else none

/-- The day of the month that one or two digits write.  Plain digits are meant, save for the
second digit after a 1 or a 2, which may come from any script; a blank may stand for a leading
zero. -/
def dayNumber? : Text → Option Nat
  | [b] => if b.isDigit && b != '0' then Text.digitValue? b else none
  | [a, b] =>
    if a = '1' || a = '2' then
      (Text.digitValue? a).bind fun tens => (Text.digitValue? b).map (10 * tens + ·)
    else if (a = '0' || a = ' ') && b.isDigit && b != '0' then Text.digitValue? b
    else if a = '3' && (b = '0' || b = '1') then (Text.digitValue? b).map (30 + ·)
    else none
  | _ => none

/-- The date whose year (four digits of any script), month and day are written like this. -/
def ofParts? (year month day : Text) : Option Date :=
  if year.length = 4 && Text.isNumeral year then
    (monthNumber? month).bind fun m =>
      (dayNumber? day).bind fun d => ofNumbers? (Text.numeralValue year) m d
  else none

end Date

end DayJournal

import DayJournal.Calendar.Date

/-!
# Recurrences

The rules by which an entry comes back.  A rule for the 31st falls on the last day of a shorter
month.
-/

namespace DayJournal

/-- When something comes back.  A weekly rule holds a weekday counted from Monday; a number that
names no weekday falls on no day. -/
inductive Recurrence where
  | daily
  | workdays
  | weekly (weekday : Int)
  | monthly (day : Nat) (inMonth : 1 ≤ day ∧ day ≤ 31)
  deriving DecidableEq

namespace Recurrence

/-- The monthly rule for a day of the month, if there are months with that day. -/
def monthly? (day : Int) : Option Recurrence :=
  if h : 1 ≤ day.toNat ∧ day.toNat ≤ 31 then some (.monthly day.toNat h) else none

def fallsOn : Recurrence → Date → Bool
  | daily, _ => true
  | workdays, d => d.weekday.val < 5
  | weekly w, d => (d.weekday.val : Int) == w
  | monthly day _, d => d.day == min day (daysInMonth d.year d.month)

end Recurrence

end DayJournal

import DayJournal.Calendar.Date
import DayJournal.Text.Case

/-!
# Weekday names

The English names of the weekdays and their short names, in any letter case.
-/

namespace DayJournal.Weekday

/-- The names in small letters, from Monday on. -/
def fullNames : List Text := [
  "monday".toList, "tuesday".toList, "wednesday".toList, "thursday".toList, "friday".toList,
  "saturday".toList, "sunday".toList]

def names : List Text := fullNames ++ fullNames.map (List.take 3)

def ofLowerName? (name : Text) : Option Weekday := (names.idxOf? name).map ofNumber

def ofName? (name : Text) : Option Weekday := ofLowerName? (Text.lower name)

end DayJournal.Weekday

import DayJournal.Text.Basic

/-!
# Setting values

What a settings file holds, whatever its format.  Of a number only matters whether it is zero.
-/

namespace DayJournal

inductive Value where
  | null
  | bool (b : Bool)
  | number (isZero : Bool)
  | text (s : Text)
  | list (items : List Value)
  | table (fields : List (Text × Value))
  deriving Inhabited

namespace Value

/-- Whether a value counts as yes. -/
def isTrue : Value → Bool
  | null => false
  | bool b => b
  | number isZero => !isZero
  | text s => !s.isEmpty
  | list items => !items.isEmpty
  | table fields => !fields.isEmpty

/-- Fields with one set, in place of an earlier one of the same name. -/
def setField (name : Text) (v : Value) : List (Text × Value) → List (Text × Value)
  | [] => [(name, v)]
  | (other, old) :: more =>
    if other = name then (name, v) :: more else (other, old) :: setField name v more

end Value

end DayJournal

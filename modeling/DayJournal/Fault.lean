import DayJournal.Calendar.Date
import DayJournal.Text.Quoted

/-!
# Faults

Why an operation did not give a result, and the words for it.  A fault names its cause; the wording
is in `Fault.message` alone.
-/

namespace DayJournal

/-- The place of an entry: its home day and the index of its line in that day.  An index may point
outside of the day, since days change. -/
structure Address where
  day : Date
  line : Int
  deriving DecidableEq

/-- Why an entry may not be changed where it is shown. -/
inductive ReadOnly where
  | calendarEvent
  | livesOn (home : Date)
  | notATask (home : Date)
  | followsPattern (home : Date)

inductive Fault where
  /-- The calendar has no such day. -/
  | dateOutOfRange
  /-- A run of digits is longer than any number that is read. -/
  | numeralTooLong (digits : Nat)
  | noDayOfMonth (day : Int)
  | readOnly (why : ReadOnly)
  /-- The journal cannot be written. -/
  | notWritable
  | nothingToMove (place : Address)
  | badTagName (name : Text)
  | unknownLocation (place : Address)
  | unknownSettingsFormat (suffix : Text)
  | missingSettingsFile
  /-- A path begins with the home of somebody who is not known. -/
  | unknownHome
  | badJson
  | badToml
  /-- A setting has a value of the wrong kind. -/
  | badSetting

namespace ReadOnly

def home? : ReadOnly → Option Date
  | calendarEvent => none
  | livesOn home => some home
  | notATask home => some home
  | followsPattern home => some home

def message : ReadOnly → Text
  | calendarEvent => "Calendar events are read-only".toList
  | livesOn home => "Entry lives on ".toList ++ home.slashed ++ "; go to source to change it".toList
  | notATask _ => "Only tasks can be completed".toList
  | followsPattern _ => "Recurring entries follow their pattern, not a date".toList

end ReadOnly

namespace Address

def named (a : Address) : Text := a.day.dashed ++ '[' :: Text.ofInt a.line ++ [']']

def described (a : Address) : Text :=
  "EntryAddress(day=datetime.date(".toList ++ Text.ofNat a.day.year ++ ", ".toList ++
    Text.ofNat a.day.month ++ ", ".toList ++ Text.ofNat a.day.day ++ "), line_index=".toList ++
    Text.ofInt a.line ++ [')']

end Address

namespace Fault

/-- The longest run of digits that is read as a number. -/
def longestNumeral : Nat := 4300

def message : Fault → Text
  | dateOutOfRange => "date value out of range".toList
  | numeralTooLong digits =>
    "Exceeds the limit (".toList ++ Text.ofNat longestNumeral ++
      " digits) for integer string conversion: value has ".toList ++ Text.ofNat digits ++
      " digits; use sys.set_int_max_str_digits() to increase the limit".toList
  | noDayOfMonth day => "Day of month out of range: ".toList ++ Text.ofInt day
  | readOnly why => why.message
  | notWritable => "the journal cannot be written".toList
  | nothingToMove place => "No entry to move at ".toList ++ place.named
  | badTagName name => "Invalid tag name: ".toList ++ Text.quoted name
  | unknownLocation place => "Unknown entry location: ".toList ++ place.described
  | unknownSettingsFormat suffix => "Unsupported config file type: ".toList ++ suffix
  | missingSettingsFile => "there is no such file".toList
  | unknownHome => "Could not determine home directory.".toList
  | badJson => "not a JSON text".toList
  | badToml => "not a TOML text".toList
  | badSetting => "a setting of the wrong kind".toList

end Fault

/-- The number that a run of digits writes, unless the run is too long to be read. -/
def readNumeral (digits : Text) : Except Fault Nat :=
  if digits.length ≤ Fault.longestNumeral then .ok (Text.numeralValue digits)
  else .error (.numeralTooLong digits.length)

end DayJournal

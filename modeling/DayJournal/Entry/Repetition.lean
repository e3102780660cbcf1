import DayJournal.Calendar.Token
import DayJournal.Text.Blank
import DayJournal.Text.Pattern

/-!
# Repetition

An entry comes back by a mark such as `@every-day`, `@every-weekday`, `@every-mon` or `@every-31`.
The first thing of that shape in a content decides, also where the name in it stands for no rule
because of an unusual spelling.
-/

namespace DayJournal.Repetition

def sameWord (name s : Text) : Bool := Text.afterIgnoringCase? name s == some []

/-- Whether a text writes a day of the month from 1 to 31, the digit behind a 1 or a 2 being of
any script. -/
def isMonthDay : Text → Bool
  | [c] => c.isDigit && c != '0'
  | [a, b] => ((a = '1' || a = '2') && Text.isDigit b) || (a = '3' && (b = '0' || b = '1'))
  | _ => false

/-- Whether a text can stand behind `@every-`. -/
def isRuleName (s : Text) : Bool :=
  sameWord "day".toList s || sameWord "weekday".toList s ||
    Weekday.names.any (fun name => sameWord name s) || isMonthDay s

/-- A repetition, by the name of its rule. -/
def pattern : Text.Pattern Text := fun _ s =>
  match Text.afterIgnoringCase? "@every-".toList s with
  | some rest =>
    let name := rest.takeWhile fun c => !Text.isBlank c
    if isRuleName name then some ("@every-".toList.length + name.length, name) else none
  | none => none

def isIn (content : Text) : Bool := Text.Pattern.occursIn pattern content

def rule? (content : Text) : Option Recurrence :=
  (Text.Pattern.first? pattern content).bind fun (_, name, _) => Recurrence.ofName? name

end DayJournal.Repetition

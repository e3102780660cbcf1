import DayJournal.Calendar.Token
import DayJournal.Text.Blank
import DayJournal.Text.Pattern
import DayJournal.Text.Word

/-!
# Date marks

An entry names a day by a date mark: `@M/D`, `@M/D/Y` or `@Y/M/D`.  Only the first date mark of
a content counts.  Relative date marks such as `@today` or `@fri` are written for people; they are
turned into `@MM/DD` when the entry is saved.
-/

namespace DayJournal.DateMark

/-- Whether a run of digits and slashes has the shape of a date. -/
def isDateShape (run : Text) : Bool :=
  let short (n : Nat) : Bool := 1 ≤ n && n ≤ 2
  match (Text.pieces '/' run).map List.length with
  | [a, b] => short a && short b
  | [a, b, c] => (a == 4 && short b && short c) || (short a && short b && 2 ≤ c && c ≤ 4)
  | _ => false

/-- A date mark, by the token behind the `@`. -/
def pattern : Text.Pattern Text := fun _ s =>
  match s with
  | '@' :: rest =>
    let run := rest.takeWhile fun c => Text.isDigit c || c = '/'
    if isDateShape run then some (run.length + 1, run) else none
  | _ => none

def tokens (content : Text) : List Text := Text.Pattern.findAll pattern content

/-- The day that a content is meant for, by its first date mark, looked at from a day. -/
def targetDate? (content : Text) (reference : Date) : Option Date :=
  (Text.Pattern.first? pattern content).bind fun (_, token, _) =>
    Date.absolute? .ahead reference token

/-- The date mark without a year. -/
def short (target : Date) : Text := '@' :: target.monthDay

/-- The date mark with the last two digits of the year. -/
def long (target : Date) : Text := short target ++ '/' :: Text.twoDigits target.year

def write (target today : Date) : Text :=
  if Date.absolute? .ahead today target.monthDay = some target then short target else long target

/-- Two texts around a new one, with single blanks between those that are not empty. -/
def splice (before middle behind : Text) : Text :=
  Text.joinWith [' ']
    ([Text.trimEnd before, middle, Text.trimStart behind].filter fun part => !part.isEmpty)

/-- A content with a date mark put at its end. -/
def append (content mark : Text) : Text :=
  Text.trimStart (Text.trimEnd content ++ ' ' :: mark)

def nextDay (d : Date) : Except Fault Date := d.next?.elim (.error .dateOutOfRange) .ok

/-- A content put off by a day: the annotated date is moved to the day after, and a content without
one gets the date of tomorrow.  A date mark that is no date counts as today. -/
def defer (content : Text) (today : Date) : Except Fault Text :=
  match Text.Pattern.first? pattern content with
  | none => (nextDay today).map fun tomorrow => append content (short tomorrow)
  | some (before, token, behind) =>
    (nextDay ((Date.absolute? .ahead today token).getD today)).map fun target =>
      splice before (write target today) behind

def remove? (content : Text) : Option Text :=
  (Text.Pattern.first? pattern content).map fun (before, _, behind) => splice before [] behind

/-- A content whose first date mark is the date of today, put at the end if there was none. -/
def bringTo (today : Date) (content : Text) : Text :=
  match Text.Pattern.first? pattern content with
  | none => append content (short today)
  | some (before, _, behind) => splice before (short today) behind

/-- Whether a word can stand behind the `@` of a relative date mark.  The number of days begins
with a plain digit other than zero. -/
def isRelativeToken (word : Text) : Bool :=
  match RelativeDay.ofToken? .ahead word with
  | some (.daysAway _ _) =>
    match word with
    | _ :: c :: _ => c.isDigit && c != '0'
    | _ => false
  | some _ => true
  | none => false

/-- A relative date mark, by the word behind the `@`, where a new word of the content begins. -/
def relativePattern : Text.Pattern Text := fun before s =>
  match s with
  | '@' :: rest =>
    let word := rest.takeWhile Text.isWordChar
    if before.all Text.isBlank && isRelativeToken word then some (word.length + 1, word) else none
  | _ => none

/-- The date mark in place of a relative one.  The one for today keeps its year, so that it does
not come to mean next year once the day has passed; one out of reach stays as it is. -/
def absoluteFor (today : Date) (found token : Text) : Except Fault Text := do
  match ← Date.ofToken .ahead today token with
  | none => pure found
  | some d => pure (if Text.lower token = "today".toList then long d else short d)

def normalize (content : Text) (today : Date) : Except Fault Text := do
  let parts ← (Text.Pattern.segments relativePattern content).mapM fun
    | .other c => pure [c]
    | .found text token => absoluteFor today text token
  pure parts.flatten

end DayJournal.DateMark

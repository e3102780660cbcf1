import DayJournal.Text.Pattern
import DayJournal.Text.Word

/-!
# Shorthands

Favourite tags have a digit for a short name, as in `#1`, and saved queries a name behind a dollar
sign, as in `$home`.  Both are written out before anything else is read.
-/

namespace DayJournal.Shorthand

/-- A favourite tag, by its digit.  A longer word behind the `#` is no favourite. -/
def favoritePattern : Text.Pattern Text := fun _ s =>
  match s with
  | '#' :: digit :: rest =>
    if digit.isDigit && !(rest.head?.any Text.isWordChar) then some (2, [digit]) else none
  | _ => none

/-- A text with the favourite tags written out.  A digit without a tag stays. -/
def expandFavorites (favorites : List (Text × Text)) (s : Text) : Text :=
  favoritePattern.replaceAll (fun found digit =>
    match favorites.lookup digit with
    | some tag => if tag.isEmpty then found else '#' :: tag
    | none => found) s

/-- A saved query, by its name. -/
def savedPattern : Text.Pattern Text := fun _ s =>
  match s with
  | '$' :: rest =>
    let name := rest.takeWhile Text.isWordChar
    if name.isEmpty then none else some (name.length + 1, name)
  | _ => none

/-- A query with the saved queries written out.  A name without a query stays. -/
def expandSaved (saved : List (Text × Text)) (query : Text) : Text :=
  savedPattern.replaceAll (fun found name => (saved.lookup name).getD found) query

/-- The names in a query that no saved query has, each with its dollar sign. -/
def unknownSaved (saved : List (Text × Text)) (query : Text) : List Text :=
  ((savedPattern.findAll query).filter fun name => (saved.lookup name).isNone).map ('$' :: ·)

/-- Whether a token is nothing but the name of a saved query. -/
def isSavedName : Text → Bool
  | '$' :: name => !name.isEmpty && name.all Text.isWordChar
  | _ => false

end DayJournal.Shorthand

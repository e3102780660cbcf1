import DayJournal.Entry.Basic
import DayJournal.Text.Case
import DayJournal.Text.Pattern

/-!
# Tags

A tag is a `#` with a name behind it: a letter, and letters, digits, underscores and hyphens after
it, plain ones only.  This module finds the tags of a text, takes them off the end of a content,
and renames or deletes a tag throughout a text.
-/

namespace DayJournal.Tag

def isNameChar (c : Char) : Bool := c.isAlphanum || c = '_' || c = '-'

def isName : Text → Bool
  | [] => false
  | c :: rest => c.isAlpha && rest.all isNameChar

def bareName (tag : Text) : Text := tag.dropWhile (· = '#')

/-- The characters that count as more of a tag where case is ignored: those of names, and other
spellings of their letters. -/
def extendsName (c : Char) : Bool := isNameChar c || isNameChar (Text.letterOf c)

/-- Any tag, by its name. -/
def pattern : Text.Pattern Text := fun _ s =>
  match s with
  | '#' :: rest =>
    let name := rest.takeWhile isNameChar
    if isName name then some (name.length + 1, name) else none
  | _ => none

def names (s : Text) : List Text := Text.Pattern.findAll pattern s

/-- A text without the tag at its end and the blanks around it. -/
def cutLast? (s : Text) : Option Text :=
  match Text.cutAtLast? '#' (Text.trimEnd s) with
  | some (before, name) => if isName name then some (Text.trimEnd before) else none
  | none => none

/-- A content without the tag at its end.  A content that is nothing else keeps it. -/
def removeLast? (content : Text) : Option Text :=
  (cutLast? content).filter fun rest => !Text.isBlankText rest

/-- A text without the tags at its end, at most `limit` of them. -/
def cutTags : Nat → Text → Text
  | 0, s => s
  | limit + 1, s =>
    match cutLast? s with
    | some rest => cutTags limit rest
    | none => s

/-- A content without all the tags at its end.  A content that is nothing else keeps them. -/
def removeAll? (content : Text) : Option Text :=
  ((cutLast? content).map (cutTags content.length)).filter fun rest => !Text.isBlankText rest

def isCompletedLine (s : Text) : Bool :=
  (Kind.marker .task true).isPrefixOf (Text.trimStart s)

/-- Which lines a change of tags is about. -/
def concerns (completedOnly : Bool) (s : Text) : Bool := !completedOnly || isCompletedLine s

def count (s tag : Text) (completedOnly : Bool) : Nat :=
  ((Text.lines s).filter (concerns completedOnly)).foldl
    (fun n l => n + ((names l).filter fun name => Text.lower name == Text.lower tag).length) 0

/-- Whether a text that stands behind a tag ends it. -/
def endsName : Text → Bool
  | [] => true
  | c :: _ => !extendsName c

/-- A particular tag, case ignored, with the spaces and tabs before it if `withGap`. -/
def occurrence (withGap : Bool) (tag : Text) : Text.Pattern Unit := fun _ s =>
  let gap := if withGap then s.takeWhile fun c => c = ' ' || c = '\t' else []
  match s.drop gap.length with
  | '#' :: rest =>
    match Text.afterIgnoringCase? tag rest with
    | some behind => if endsName behind then some (gap.length + 1 + tag.length, ()) else none
    | none => none
  | _ => none

/-- What is written for each occurrence of a tag that gets a new name, or none. -/
def written : Option Text → Text
  | some name => '#' :: name
  | none => []

/-- A text in which a tag has a new name, or is deleted together with the gap before it. -/
def replace (s tag : Text) (newName : Option Text) (completedOnly : Bool) : Text :=
  Text.joinLines ((Text.lines s).map fun l =>
    if concerns completedOnly l then
      (occurrence newName.isNone tag).replaceAll (fun _ _ => written newName) l
    else l)

/-- Whether a line is the marker of an entry and nothing else. -/
def isBareMarker (s : Text) : Bool :=
  ["- [ ]".toList, "- [x]".toList, "-".toList, "*".toList].contains (Text.trim s)

def dropBareMarkers (s : Text) : Text :=
  Text.joinLines ((Text.lines s).filter fun l => !isBareMarker l)

end DayJournal.Tag

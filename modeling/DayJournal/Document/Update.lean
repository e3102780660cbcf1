import DayJournal.Document.Basic

/-!
# Updating a day

Writing the text of one day.  A day that has no section gets one before the first section with a
later date, or at the end; a day whose new text is blank loses its first section.  All other
sections keep their text, save for the blanks next to the change and at the end of the document.
-/

namespace DayJournal.Document

def spaced (s : Text) : Text := if s.isEmpty then [] else s ++ "\n\n".toList

/-- A text with exactly one newline at its end and no other blanks there. -/
def closed (s : Text) : Text := Text.trimEnd s ++ ['\n']

/-- What is left around a section that is taken out. -/
def withoutSection (before after : Text) : Text :=
  let head := Text.trimEnd before
  let rest := (if after.isEmpty then head else spaced head) ++ Text.trimStart after
  if rest.isEmpty then [] else closed rest

/-- A document with a new section for a day that has none. -/
def insertDay (doc : Document) (day : Date) (content : Text) : Text :=
  let new := dayHeader day ++ '\n' :: Text.trimEnd content
  let earlier := doc.sections.takeWhile fun s => s.day ≤ day
  let later := Section.joined (doc.sections.drop earlier.length)
  let before := spaced (Text.trimEnd (doc.preamble ++ Section.joined earlier))
  if later.isEmpty then before ++ new ++ ['\n'] else closed (before ++ spaced new ++ later)

def updateDay (document : Text) (day : Date) (content : Text) : Text :=
  let doc := ofText document
  let earlier := doc.sections.takeWhile fun s => s.day ≠ day
  match doc.sections.drop earlier.length with
  | [] => if Text.isBlankText content then document else insertDay doc day content
  | s :: rest =>
    let before := doc.preamble ++ Section.joined earlier
    let after := Section.joined rest
    if Text.isBlankText content then withoutSection before after
    else
      closed (before ++ s.headerLine ++ '\n' :: Text.trimEnd content ++ "\n\n".toList ++ after)

end DayJournal.Document

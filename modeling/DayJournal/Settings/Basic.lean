import DayJournal.Text.Basic

/-!
# Settings

What a person can choose: the file of the journal, favourite tags, saved queries, the query for an
empty one, and whether completed entries are left out.
-/

namespace DayJournal

structure Settings where
  /-- The file as it is written in the settings. -/
  journalFile : Text := "journal.md".toList
  /-- Tags by the digit that stands for them. -/
  favorites : List (Text × Text) := []
  /-- The query that an empty one stands for. -/
  defaultQuery : Text := "!tasks".toList
  /-- Queries by name. -/
  saved : List (Text × Text) := []
  hideCompleted : Bool := false

end DayJournal

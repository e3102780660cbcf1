import DayJournal.Proofs.DayLines

/-!
# The entries of a document

The register of a document has, for each section in turn, its day and the entries of its lines.
Like whatever else is read off single lines, it is read off the lines of the document one by one,
from the last to the first (`readings_eq_foldr`, `register_eq_foldr`), so a change that goes over
the lines changes the register line by line.
-/

namespace DayJournal

open Text

namespace Document

/-- The sections of a document, each with its day and its entries. -/
def register (document : Text) : List (Date × List Entry) :=
  (ofText document).sections.map fun s => (s.day, s.lines.filterMap Line.entry?)

/-- What a line makes of the entries above the first header and the register of what stands behind
the line. -/
def enter (l : Text) (r : List Entry × List (Date × List Entry)) :
    List Entry × List (Date × List Entry) :=
  match headedDay? l with
  | some day => ([], (day, r.1) :: r.2)
  | none => ((Entry.ofLine? l).toList ++ r.1, r.2)

/-- The days of a document, each with what is read off the lines of its section. -/
def readings {α : Type} (read : Text → Option α) (document : Text) : List (Date × List α) :=
  (ofText document).sections.map fun s => (s.day, (lines s.body).filterMap read)

/-- What a line makes of what is read above the first header and of the readings behind it. -/
def enterReading {α : Type} (read : Text → Option α) (l : Text)
    (r : List α × List (Date × List α)) : List α × List (Date × List α) :=
  match headedDay? l with
  | some day => ([], (day, r.1) :: r.2)
  | none => ((read l).toList ++ r.1, r.2)

theorem readings_eq_foldr {α : Type} {read : Text → Option α} (hread : read [] = none)
    (document : Text) :
    readings read document = ((lines document).foldr (enterReading read) ([], [])).2 := by
  suffices h : ((lines (ofText document).preamble).filterMap read, readings read document) =
      (lines document).foldr (enterReading read) ([], []) by rw [← h]
  have hempty : (lines []).filterMap read = [] := by
    rw [lines_of_not_mem (by simp), List.filterMap_cons, hread, List.filterMap_nil]
  induction document using lineInduction with
  | last l hnl =>
      rw [readings, ofText_last hnl, lines_of_not_mem hnl, List.foldr_cons, List.foldr_nil, cons,
        enterReading]
      cases headedDay? l with
      | some day => simp only [List.map_cons, hempty]; rfl
      | none =>
          simp only [List.append_nil, lines_of_not_mem hnl, List.filterMap_cons, List.filterMap_nil]
          cases read l <;> rfl
  | line l rest hnl ih =>
      rw [lines_append_newline, lines_of_not_mem hnl, List.singleton_append, List.foldr_cons, ← ih,
        readings, readings, ofText_line hnl, cons, headedDay?_append_newline, enterReading]
      cases headedDay? l with
      | some day => simp only [List.map_cons, hempty]
      | none =>
          simp only [List.append_assoc, List.singleton_append, lines_append_newline,
            lines_of_not_mem hnl, List.filterMap_cons]
          cases read l <;> rfl

theorem filterMap_readAll (s : Text) :
    (Line.readAll s).filterMap Line.entry? = (lines s).filterMap Entry.ofLine? := by
  cases s with
  | nil => rfl
  | cons c s =>
      rw [Line.readAll, if_neg (by simp), List.filterMap_map]
      exact congrArg (fun f => (lines (c :: s)).filterMap f) (funext Line.entry_ofText)

theorem register_eq_readings (document : Text) :
    register document = readings Entry.ofLine? document := by
  simp only [register, readings, Section.lines, filterMap_readAll]

theorem register_eq_foldr (document : Text) :
    register document = ((lines document).foldr enter ([], [])).2 := by
  rw [register_eq_readings, readings_eq_foldr rfl]
  rfl

theorem register_joinLines {ls : List Text} (h : ∀ l ∈ ls, '\n' ∉ l) :
    register (joinLines ls) = (ls.foldr enter ([], [])).2 := by
  rw [register_eq_foldr]
  by_cases hls : ls = []
  · subst hls
    rfl
  · rw [lines_joinLines hls h]

end Document

end DayJournal

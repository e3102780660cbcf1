import DayJournal.Calendar.Date
import DayJournal.Entry.Basic

/-!
# Documents

A journal is a text.  A line that begins with `# YYYY/MM/DD` is a day header; it opens a section
that runs to the next header or to the end.  Main statement: the text before the first header and
the sections are the whole text, so `ofText` loses nothing.
-/

namespace DayJournal

/-- The day that a line heads.  The month and the day take two characters each. -/
def headedDay? : Text → Option Date
  | '#' :: ' ' :: y1 :: y2 :: y3 :: y4 :: '/' :: m1 :: m2 :: '/' :: d1 :: d2 :: _ =>
    Date.ofParts? [y1, y2, y3, y4] [m1, m2] [d1, d2]
  | _ => none

def dayHeader (day : Date) : Text := "# ".toList ++ day.slashed

/-- One day of a document: its header line, with the newline that ends it, and the text below. -/
structure Section where
  day : Date
  header : Text
  body : Text
  deriving DecidableEq

namespace Section

def text (s : Section) : Text := s.header ++ s.body

def joined (ss : List Section) : Text := (ss.map text).flatten

def headerLine (s : Section) : Text := Text.trimEndOf (fun c => c = '\r' || c = '\n') s.header

def lines (s : Section) : List Line := Line.readAll s.body

end Section

/-- A text cut into its day sections. -/
structure Document where
  preamble : Text
  sections : List Section
  deriving DecidableEq

namespace Document

def cons (line : Text) (doc : Document) : Document :=
  match headedDay? line with
  | some day => ⟨[], ⟨day, line, doc.preamble⟩ :: doc.sections⟩
  | none => ⟨line ++ doc.preamble, doc.sections⟩

def ofLines (ls : List Text) : Document := ls.foldr cons ⟨[], []⟩

def ofText (s : Text) : Document := ofLines (Text.brokenLines s)

def text (doc : Document) : Text := doc.preamble ++ Section.joined doc.sections

def section? (doc : Document) (day : Date) : Option Section :=
  doc.sections.find? fun s => s.day == day

/-- Where a section lies in the text, in characters from the beginning. -/
structure Span where
  day : Date
  headerStart : Nat
  contentStart : Nat
  finish : Nat
  deriving DecidableEq

/-- The spans of sections that begin at an offset. -/
def spansFrom (start : Nat) : List Section → List Span
  | [] => []
  | s :: rest =>
    ⟨s.day, start, start + s.header.length, start + s.text.length⟩ ::
      spansFrom (start + s.text.length) rest

def spans (s : Text) : List Span :=
  let doc := ofText s
  spansFrom doc.preamble.length doc.sections

/-- The text of a day, without blanks at its end; empty for a day without a section. -/
def dayText (document : Text) (day : Date) : Text :=
  match (ofText document).section? day with
  | some s => Text.trimEnd s.body
  | none => []

def dayLines (document : Text) (day : Date) : List Line := Line.readAll (dayText document day)

theorem text_cons (line : Text) (doc : Document) : (cons line doc).text = line ++ doc.text := by
  unfold cons
  split <;> simp [text, Section.joined, Section.text]

theorem text_ofLines (ls : List Text) : (ofLines ls).text = ls.flatten := by
  induction ls with
  | nil => rfl
  | cons line rest ih =>
    show (cons line (ofLines rest)).text = _
    rw [text_cons, ih, List.flatten_cons]

/-- Cutting a text into sections loses nothing. -/
theorem text_ofText (s : Text) : (ofText s).text = s := by
  rw [ofText, text_ofLines, Text.flatten_brokenLines]

end Document

end DayJournal

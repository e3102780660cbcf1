import DayJournal.Proofs.DayUpdate
import DayJournal.Proofs.Repetitions

/-!
# The spans of the days

The span of a section is given by offsets into the text.  This module reads the text between the
offsets: each span begins with a header line of its day and has no other header in it, and the
spans follow each other without a gap from the first header to the end of the text
(`spans_partition`).
-/

namespace DayJournal

open Text

/-- The day that a line of a text heads, without the carriage returns at its end. -/
def lineDay? (l : Text) : Option Date := headedDay? (trimEndOf (· = '\r') l)

/-- Lines with the offsets at which they begin, if the first one begins at `start`. -/
def Text.placedFrom (start : Nat) : List Text → List (Nat × Text)
  | [] => []
  | l :: more => (start, l) :: placedFrom (start + l.length + 1) more

def Text.placedLines (s : Text) : List (Nat × Text) := placedFrom 0 (lines s)

theorem Text.extract_append (u v w : Text) :
    (u ++ (v ++ w)).extract u.length (u.length + v.length) = v := by simp

namespace Document

/-- A span as it lies in a text: one line that is read as a header of its day, and no other header
below it.  Only the last line of a text has no newline. -/
structure Span.LiesIn (sp : Span) (s : Text) : Prop where
  header_lt : sp.headerStart < sp.contentStart
  content_le : sp.contentStart ≤ sp.finish
  header : ∃ line, '\n' ∉ line ∧ lineDay? line = some sp.day ∧
    (s.extract sp.headerStart sp.contentStart = line ++ ['\n'] ∨
      s.extract sp.headerStart sp.contentStart = line ∧ sp.contentStart = s.length)
  headless : ∀ l ∈ lines (s.extract sp.contentStart sp.finish), lineDay? l = none

/-- Where the first of some spans begins; the end of the text if there is none. -/
def firstStart (s : Text) (sps : List Span) : Nat := (sps.head?.map Span.headerStart).getD s.length

/-- Spans that divide a text from its first header to its end, one for each header line. -/
structure Divides (s : Text) (sps : List Span) : Prop where
  liesIn : ∀ sp ∈ sps, sp.LiesIn s
  ordered : sps.Pairwise fun a b => a.headerStart < b.headerStart
  adjacent : sps.IsChain fun a b => a.finish = b.headerStart
  last : ∀ sp ∈ sps.getLast?, sp.finish = s.length
  preamble : ∀ l ∈ lines (s.take (firstStart s sps)), lineDay? l = none
  whole : s.take (firstStart s sps) ++
    sps.flatMap (fun sp => s.extract sp.headerStart sp.finish) = s
  headers : ∀ start day, (∃ l, (start, l) ∈ placedLines s ∧ lineDay? l = some day) ↔
    ∃ sp ∈ sps, sp.headerStart = start ∧ sp.day = day

variable {s p : Text} {ss a b : List Section} {x : Section} {sp : Span} {start : Nat}

theorem lineDay?_eq (l : Text) : lineDay? l = headedDay? l := headedDay?_trimEnd_returns l

theorem headless_iff_lineDay? : Headless s ↔ ∀ l ∈ lines s, lineDay? l = none := by
  simp only [Headless, lineDay?_eq]

/-! ## Sections at their offsets -/

theorem exists_of_mem_spansFrom (h : sp ∈ spansFrom start ss) : ∃ a x b, ss = a ++ x :: b ∧
    sp = ⟨x.day, start + (Section.joined a).length,
      start + (Section.joined a).length + x.header.length,
      start + (Section.joined a).length + x.text.length⟩ := by
  induction ss generalizing start with
  | nil => simp [spansFrom] at h
  | cons x b ih =>
      rcases List.mem_cons.1 h with rfl | h
      · exact ⟨[], x, b, rfl, by simp [Section.joined]⟩
      · obtain ⟨a, y, b, rfl, rfl⟩ := ih h
        exact ⟨x :: a, y, b, rfl, by simp [Section.joined, Nat.add_assoc]⟩

theorem isChain_spansFrom (start : Nat) (ss : List Section) :
    (spansFrom start ss).IsChain fun a b => a.finish = b.headerStart := by
  induction ss generalizing start with
  | nil => exact .nil
  | cons x b ih =>
      cases b with
      | nil => exact .singleton _
      | cons y b => exact List.isChain_cons_cons.2 ⟨rfl, ih _⟩

theorem take_firstStart (p : Text) (ss : List Section) :
    (p ++ Section.joined ss).take (firstStart (p ++ Section.joined ss) (spansFrom p.length ss)) =
      p := by
  cases ss with
  | nil => simp [spansFrom, firstStart, Section.joined]
  | cons x b => exact List.take_left

theorem take_firstStart_spans (s : Text) :
    s.take (firstStart s (spans s)) = (ofText s).preamble := by
  have h := take_firstStart (ofText s).preamble (ofText s).sections
  have htext : (ofText s).preamble ++ Section.joined (ofText s).sections = s := text_ofText s
  rwa [htext] at h

theorem pairwise_spansFrom (start : Nat) (h : ∀ x ∈ ss, x.header ≠ []) :
    (spansFrom start ss).Pairwise fun a b => a.headerStart < b.headerStart := by
  induction ss generalizing start with
  | nil => exact .nil
  | cons x b ih =>
      refine List.pairwise_cons.2
        ⟨fun sp hsp => ?_, ih _ fun y hy => h y (List.mem_cons_of_mem x hy)⟩
      obtain ⟨a, y, c, -, rfl⟩ := exists_of_mem_spansFrom hsp
      have hheader : 0 < x.header.length := List.length_pos_of_ne_nil (h x List.mem_cons_self)
      have htext : x.text.length = x.header.length + x.body.length := List.length_append
      show start < start + x.text.length + (Section.joined a).length
      omega

theorem finish_of_getLast?_spansFrom (start : Nat) (ss : List Section) :
    ∀ sp ∈ (spansFrom start ss).getLast?, sp.finish = start + (Section.joined ss).length := by
  induction ss generalizing start with
  | nil => simp [spansFrom]
  | cons x b ih =>
      cases b with
      | nil => simp [spansFrom, Section.joined]
      | cons y b =>
          intro sp hsp
          rw [spansFrom, spansFrom, List.getLast?_cons_cons] at hsp
          rw [ih _ sp hsp]
          simp [Section.joined, Nat.add_assoc]

theorem flatMap_extract_spansFrom (u : Text) (ss : List Section) :
    (spansFrom u.length ss).flatMap
        (fun sp => (u ++ Section.joined ss).extract sp.headerStart sp.finish) =
      Section.joined ss := by
  induction ss generalizing u with
  | nil => rfl
  | cons x b ih =>
      have hjoined : u ++ Section.joined (x :: b) = u ++ (x.text ++ Section.joined b) := by
        simp [Section.joined]
      have hrest := ih (u ++ x.text)
      rw [List.length_append, List.append_assoc] at hrest
      rw [spansFrom, hjoined, List.flatMap_cons, extract_append, hrest]
      simp [Section.joined]

/-! ## One section -/

/-- Only the last section of a document can have a header that does not end its line. -/
theorem header_of_split (h : ofText s = ⟨p, a ++ x :: b⟩) :
    (∃ line, '\n' ∉ line ∧ x.header = line ++ ['\n']) ∨
      ('\n' ∉ x.header ∧ x.body = [] ∧ b = []) := by
  -- The text from the header on is read as this section and those behind it.
  obtain ⟨-, hrest, -⟩ := ofText_cut s h
  generalize Section.joined (x :: b) = t at hrest
  induction t using lineInduction with
  | last t hnl =>
      rw [ofText_last hnl, cons] at hrest
      cases hd : headedDay? t with
      | none => simp [hd] at hrest
      | some day =>
          simp only [hd, Document.mk.injEq, List.cons.injEq, true_and] at hrest
          obtain ⟨rfl, rfl⟩ := hrest
          exact Or.inr ⟨hnl, rfl, rfl⟩
  | line l rest hnl _ =>
      rw [ofText_line hnl, cons] at hrest
      cases hd : headedDay? (l ++ ['\n']) with
      | none => simp [hd] at hrest
      | some day =>
          simp only [hd, Document.mk.injEq, List.cons.injEq, true_and] at hrest
          obtain ⟨rfl, -⟩ := hrest
          exact Or.inl ⟨l, hnl, rfl⟩

theorem text_of_split (h : ofText s = ⟨p, a ++ x :: b⟩) :
    s = p ++ Section.joined a ++ (x.header ++ (x.body ++ Section.joined b)) := by
  have htext := text_ofText s
  rw [h, Document.text] at htext
  rw [← htext]
  simp [Section.joined, Section.text]

theorem extract_header {u rest : Text} (hs : s = u ++ (x.header ++ rest)) :
    s.extract u.length (u.length + x.header.length) = x.header := by
  rw [hs, extract_append]

theorem extract_body {u rest : Text} (hs : s = u ++ (x.header ++ (x.body ++ rest))) :
    s.extract (u.length + x.header.length) (u.length + x.text.length) = x.body := by
  have hlines := extract_append (u ++ x.header) x.body rest
  rw [List.append_assoc, ← hs, List.length_append] at hlines
  rw [Section.text, List.length_append, ← Nat.add_assoc]
  exact hlines

theorem liesIn_of_mem (h : sp ∈ spans s) : sp.LiesIn s := by
  obtain ⟨a, x, b, hsections, rfl⟩ := exists_of_mem_spansFrom h
  have hdoc : ofText s = ⟨(ofText s).preamble, a ++ x :: b⟩ := by rw [← hsections]
  have hx : x.WellFormed := wellFormed_of_mem hdoc (by simp)
  have hs := text_of_split hdoc
  rw [← List.length_append]
  refine ⟨?_, ?_, ?_, ?_⟩
  · exact Nat.lt_add_of_pos_right (List.length_pos_of_ne_nil hx.header_ne_nil)
  · simp [Section.text]
  · rw [extract_header hs]
    rcases header_of_split hdoc with ⟨l, hnl, hl⟩ | ⟨hnl, hbody, rfl⟩
    · refine ⟨l, hnl, ?_, Or.inl hl⟩
      rw [lineDay?_eq, ← headedDay?_append_newline, ← hl, hx.headed]
    · refine ⟨x.header, hnl, ?_, Or.inr ⟨rfl, ?_⟩⟩
      · rw [lineDay?_eq, hx.headed]
      · conv_rhs => rw [hs, hbody]
        simp [Section.joined, Nat.add_assoc]
  · rw [extract_body hs]
    exact headless_iff_lineDay?.1 hx.headless

/-! ## Every header line -/

/-- The header lines among lines at their offsets: where each of them begins and its day. -/
def headersAmong (places : List (Nat × Text)) : List (Nat × Date) :=
  places.filterMap fun place => (lineDay? place.2).map fun day => (place.1, day)

theorem mem_headersAmong {places : List (Nat × Text)} {day : Date} :
    (start, day) ∈ headersAmong places ↔ ∃ l, (start, l) ∈ places ∧ lineDay? l = some day := by
  simp only [headersAmong, List.mem_filterMap, Option.map_eq_some_iff, Prod.mk.injEq]
  constructor
  · rintro ⟨place, hmem, d, hd, rfl, rfl⟩
    exact ⟨place.2, hmem, hd⟩
  · rintro ⟨l, hmem, hl⟩
    exact ⟨(start, l), hmem, day, hl, rfl, rfl⟩

theorem headersAmong_cons (l : Text) (places : List (Nat × Text)) :
    headersAmong ((start, l) :: places) =
      ((lineDay? l).map fun day => (start, day)).toList ++ headersAmong places := by
  cases h : lineDay? l <;> simp [headersAmong, h]

theorem starts_spansFrom (start : Nat) (s : Text) :
    (spansFrom (start + (ofText s).preamble.length) (ofText s).sections).map
        (fun sp => (sp.headerStart, sp.day)) = headersAmong (placedFrom start (lines s)) := by
  induction s using lineInduction generalizing start with
  | last s hnl =>
      rw [ofText_last hnl, cons, lines_of_not_mem hnl, placedFrom, headersAmong_cons, lineDay?_eq]
      cases headedDay? s <;> rfl
  | line l rest hnl ih =>
      -- What is read below the first line begins behind its newline, whether a header is in it or
      -- not.
      have hrest := ih (start + l.length + 1)
      have hlength : start + (l ++ ['\n'] ++ (ofText rest).preamble).length =
          start + l.length + 1 + (ofText rest).preamble.length := by
        simp
        omega
      rw [ofText_line hnl, cons, headedDay?_append_newline, lines_append_newline,
        lines_of_not_mem hnl, List.singleton_append, placedFrom, headersAmong_cons, lineDay?_eq,
        ← hrest, ← hlength]
      cases headedDay? l <;> rfl

/-- The spans of a document follow each other from its first header to its end; each of them is
the place of one header line and of the lines below it, and every header line has its span. -/
theorem spans_partition (s : Text) : Divides s (spans s) where
  liesIn _ := liesIn_of_mem
  ordered := pairwise_spansFrom _ fun x hx => ((wellFormed_ofText s).2 x hx).header_ne_nil
  adjacent := isChain_spansFrom _ _
  last sp hsp := by
    rw [finish_of_getLast?_spansFrom _ _ sp hsp, ← List.length_append]
    exact congrArg List.length (text_ofText s)
  preamble := by
    rw [take_firstStart_spans]
    exact headless_iff_lineDay?.1 (wellFormed_ofText s).1
  whole := by
    have hslices := flatMap_extract_spansFrom (ofText s).preamble (ofText s).sections
    have htext : (ofText s).preamble ++ Section.joined (ofText s).sections = s := text_ofText s
    rw [htext] at hslices
    rw [take_firstStart_spans, spans, hslices, htext]
  headers start day := by
    have hstarts := starts_spansFrom 0 s
    rw [Nat.zero_add] at hstarts
    rw [placedLines, ← mem_headersAmong, ← hstarts]
    simp [spans]

/-- A header without a newline and a header right above another one. -/
example : (spans "x\n# 2024/01/02\n# 2024/01/03 y\r".toList).map
    (fun sp => (sp.headerStart, sp.contentStart, sp.finish)) = [(2, 15, 15), (15, 30, 30)] := by
  decide

end Document

end DayJournal

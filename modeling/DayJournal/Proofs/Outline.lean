import DayJournal.Document.Update
import DayJournal.Proofs.Header
import Mathlib.Data.List.Basic

/-!
# The outline of a document

The outline of a document is its preamble and its sections without blanks at their ends: the day,
the header line and the body of each section, in document order.  It is what a reader of the
document sees.  This module computes the outline of a text from its first line (`outline_line`)
and of two texts put together at a header (`outline_append`), and cuts a document at any of its
sections (`ofText_cut`).  Blanks at the end of a text do not show in its outline.
-/

namespace DayJournal

open Text

def Section.trimmed (s : Section) : Section := ⟨s.day, trimEnd s.header, trimEnd s.body⟩

namespace Document

def trimmed (doc : Document) : Document :=
  ⟨trimEnd doc.preamble, doc.sections.map Section.trimmed⟩

def outline (s : Text) : Document := (ofText s).trimmed

/-- No line of the text is the header of a day. -/
def Headless (s : Text) : Prop := ∀ l ∈ lines s, headedDay? l = none

instance (s : Text) : Decidable (Headless s) :=
  inferInstanceAs (Decidable (∀ l ∈ lines s, headedDay? l = none))

def underLine (l : Text) (o : Document) : Document :=
  match headedDay? l with
  | some day => ⟨[], ⟨day, trimEnd l, o.preamble⟩ :: o.sections⟩
  | none => ⟨trimEnd (l ++ '\n' :: o.preamble), o.sections⟩

def followedBy (o o' : Document) : Document := ⟨o.preamble, o.sections ++ o'.sections⟩

/-! ## Reading a text line by line -/

theorem ofText_line {l : Text} (h : '\n' ∉ l) (rest : Text) :
    ofText (l ++ '\n' :: rest) = cons (l ++ ['\n']) (ofText rest) := by
  rw [ofText, brokenLines_append_newline h]
  rfl

theorem ofText_last {l : Text} (h : '\n' ∉ l) : ofText l = cons l ⟨[], []⟩ := by
  by_cases hl : l = []
  · subst hl
    rfl
  · rw [ofText, brokenLines_of_not_mem hl h]
    rfl

theorem headedDay?_append_newline (l : Text) : headedDay? (l ++ ['\n']) = headedDay? l :=
  headedDay?_append_of_blank l (by simp)

theorem outline_line {l : Text} (h : '\n' ∉ l) (rest : Text) :
    outline (l ++ '\n' :: rest) = underLine l (outline rest) := by
  rw [outline, ofText_line h, cons, headedDay?_append_newline, underLine]
  cases headedDay? l with
  | none =>
      have hcut : l ++ '\n' :: trimEnd (ofText rest).preamble =
          (l ++ ['\n']) ++ trimEnd (ofText rest).preamble := by simp
      simp only [trimmed, outline]
      rw [hcut, trimEnd_append_trimEnd]
  | some day =>
      have hline : trimEnd (l ++ ['\n']) = trimEnd l := trimEnd_append_of_blank (by simp) l
      simp only [trimmed, outline, Section.trimmed, List.map_cons, hline]
      rfl

theorem outline_last {l : Text} (h : '\n' ∉ l) : outline l = underLine l ⟨[], []⟩ := by
  rw [outline, ofText_last h, cons, underLine]
  cases headedDay? l with
  | none => simp [trimmed, trimEnd_append_of_blank]
  | some day => rfl

@[simp] theorem outline_nil : outline [] = ⟨[], []⟩ := rfl

theorem underLine_append_of_blank (l : Text) {t : Text} (ht : isBlankText t = true)
    (o : Document) (ho : o.preamble = []) : underLine (l ++ t) o = underLine l o := by
  simp only [underLine, headedDay?_append_of_blank l ht, trimEnd_append_of_blank ht, ho]
  have hnewline : isBlankText ['\n'] = true := by simp
  rw [trimEnd_append_of_blank hnewline, trimEnd_append_of_blank hnewline,
    trimEnd_append_of_blank ht]

theorem outline_line_blank (t : Text) (ht : isBlankText t = true) :
    ∀ {l : Text}, '\n' ∉ l → outline (l ++ t) = underLine l ⟨[], []⟩ := by
  -- The lines of `t` are blank one after the other; the first of them ends the line `l`.
  induction t using lineInduction with
  | last t hnl =>
      intro l hl
      rw [outline_last (by simp [hl, hnl]), underLine_append_of_blank l ht _ rfl]
  | line t rest hnl ih =>
      intro l hl
      simp only [isBlankText_append, isBlankText_cons, Bool.and_eq_true] at ht
      have hrest : outline rest = ⟨[], []⟩ := by
        simpa [underLine, headedDay?, trimEnd, trimEndOf] using ih ht.2.2 (l := []) (by simp)
      rw [← List.append_assoc, outline_line (by simp [hl, hnl]), hrest,
        underLine_append_of_blank l ht.1 _ rfl]

theorem outline_append_of_blank (s : Text) {t : Text} (ht : isBlankText t = true) :
    outline (s ++ t) = outline s := by
  induction s using lineInduction with
  | last s hnl => rw [outline_line_blank t ht hnl, outline_last hnl]
  | line s rest hnl ih =>
      rw [List.append_assoc, List.cons_append, outline_line hnl, ih, outline_line hnl]

theorem outline_trimEnd (s : Text) : outline (trimEnd s) = outline s := by
  obtain ⟨cut, hcut, hs⟩ := exists_trimEnd_append s
  conv_rhs => rw [hs, outline_append_of_blank _ hcut]

theorem outline_closed (s : Text) : outline (closed s) = outline s := by
  rw [closed, outline_append_of_blank _ (by simp), outline_trimEnd]

/-! ## Texts without a header -/

theorem headless_line {l : Text} (h : '\n' ∉ l) (rest : Text) :
    Headless (l ++ '\n' :: rest) ↔ headedDay? l = none ∧ Headless rest := by
  simp [Headless, lines_append_newline, lines_of_not_mem h]

theorem headless_last {l : Text} (h : '\n' ∉ l) : Headless l ↔ headedDay? l = none := by
  simp [Headless, lines_of_not_mem h]

theorem headless_iff {s : Text} : Headless s ↔ (outline s).sections = [] := by
  induction s using lineInduction with
  | last s hnl =>
      rw [headless_last hnl, outline_last hnl, underLine]
      cases headedDay? s <;> simp
  | line s rest hnl ih =>
      rw [headless_line hnl, outline_line hnl, underLine, ih]
      cases headedDay? s <;> simp

theorem headless_trimEnd {s : Text} : Headless (trimEnd s) ↔ Headless s := by
  rw [headless_iff, headless_iff, outline_trimEnd]

theorem ofText_of_headless {s : Text} (h : Headless s) : ofText s = ⟨s, []⟩ := by
  have hsections : (ofText s).sections = [] := by
    simpa [outline, trimmed] using headless_iff.1 h
  have htext := text_ofText s
  simp only [Document.text, hsections, Section.joined, List.map_nil, List.flatten_nil,
    List.append_nil] at htext
  cases hdoc : ofText s
  simp_all

theorem ofText_headless_append {s : Text} (h : Headless s) (rest : Text) :
    ofText (s ++ '\n' :: rest) =
      ⟨s ++ '\n' :: (ofText rest).preamble, (ofText rest).sections⟩ := by
  induction s using lineInduction with
  | last s hnl =>
      rw [ofText_line hnl, cons, headedDay?_append_newline, (headless_last hnl).1 h]
      simp
  | line s more hnl ih =>
      obtain ⟨hs, hmore⟩ := (headless_line hnl more).1 h
      rw [List.append_assoc, List.cons_append, ofText_line hnl, ih hmore, cons,
        headedDay?_append_newline, hs]
      simp

theorem outline_of_headless {s : Text} (h : Headless s) : outline s = ⟨trimEnd s, []⟩ := by
  rw [outline, ofText_of_headless h]
  rfl

theorem outline_section {header content : Text} {day : Date} (hnl : '\n' ∉ header)
    (hday : headedDay? header = some day) (hcontent : Headless content) :
    outline (header ++ '\n' :: content) =
      ⟨[], [⟨day, trimEnd header, trimEnd content⟩]⟩ := by
  rw [outline_line hnl, underLine, hday, outline_of_headless hcontent]

/-! ## Putting texts together -/

theorem outline_append_newline (s : Text) {t : Text} (ht : (outline t).preamble = []) :
    outline (s ++ '\n' :: t) = (outline s).followedBy (outline t) := by
  induction s using lineInduction with
  | last s hnl =>
      rw [outline_line hnl, outline_last hnl, underLine, underLine]
      cases headedDay? s <;> simp [followedBy, ht]
  | line s rest hnl ih =>
      rw [List.append_assoc, List.cons_append, outline_line hnl, outline_line hnl, ih, underLine,
        underLine]
      cases headedDay? s <;> simp [followedBy]

def EndsLine (s : Text) : Prop := s = [] ∨ ∃ line, s = line ++ ['\n']

theorem outline_append {s t : Text} (hs : EndsLine s) (ht : (outline t).preamble = []) :
    outline (s ++ t) = (outline s).followedBy (outline t) := by
  rcases hs with rfl | ⟨line, rfl⟩
  · cases h : outline t
    simp_all [followedBy]
  · rw [outline_append_of_blank line (by simp), ← outline_append_newline line ht]
    simp

theorem outline_spaced_append (s : Text) {t : Text} (ht : (outline t).preamble = []) :
    outline (spaced (trimEnd s) ++ t) = (outline s).followedBy (outline t) := by
  rw [spaced]
  split
  · next h =>
    rw [List.isEmpty_iff] at h
    rw [List.nil_append, ← outline_trimEnd s, h]
    cases hout : outline t
    simp_all [followedBy]
  · have hcut : trimEnd s ++ "\n\n".toList ++ t = (trimEnd s ++ ['\n']) ++ '\n' :: t := by simp
    rw [hcut, outline_append_newline _ ht, outline_append_of_blank _ (by simp), outline_trimEnd]

/-! ## Cutting a document at a section -/

theorem EndsLine.line_append {l s : Text} (hs : EndsLine s) : EndsLine (l ++ '\n' :: s) := by
  rcases hs with rfl | ⟨line, rfl⟩
  · exact Or.inr ⟨l, rfl⟩
  · exact Or.inr ⟨l ++ '\n' :: line, by simp⟩

/-- A document that begins with a line can be cut above that line, if it is a header, or else
somewhere in what is below. -/
theorem cons_eq_append {l : Text} {doc : Document} {p : Text} {a b : List Section}
    (h : cons l doc = ⟨p, a ++ b⟩) :
    (p = [] ∧ a = []) ∨ ∃ p' a', doc = ⟨p', a' ++ b⟩ ∧ cons l ⟨p', a'⟩ = ⟨p, a⟩ := by
  obtain ⟨preamble, sections⟩ := doc
  unfold cons at h ⊢
  cases hd : headedDay? l with
  | none =>
      simp only [hd, Document.mk.injEq] at h ⊢
      obtain ⟨rfl, rfl⟩ := h
      exact Or.inr ⟨preamble, a, ⟨rfl, rfl⟩, rfl, rfl⟩
  | some day =>
      simp only [hd, Document.mk.injEq] at h ⊢
      obtain ⟨rfl, h⟩ := h
      cases a with
      | nil => exact Or.inl ⟨rfl, rfl⟩
      | cons x a =>
          rw [List.cons_append, List.cons.injEq] at h
          obtain ⟨rfl, rfl⟩ := h
          exact Or.inr ⟨preamble, a, ⟨rfl, rfl⟩, rfl, rfl⟩

theorem joined_of_no_preamble {s : Text} {b : List Section} (h : ofText s = ⟨[], b⟩) :
    Section.joined b = s := by
  have htext := text_ofText s
  rwa [h, Document.text, List.nil_append] at htext

/-- A document that is cut before one of its sections reads the same on both sides of the cut. -/
theorem ofText_cut (s : Text) {p : Text} {a b : List Section} (h : ofText s = ⟨p, a ++ b⟩) :
    ofText (p ++ Section.joined a) = ⟨p, a⟩ ∧ ofText (Section.joined b) = ⟨[], b⟩ ∧
      (b ≠ [] → EndsLine (p ++ Section.joined a)) := by
  induction s using lineInduction generalizing p a b with
  | last s hnl =>
      have hcons := h
      rw [ofText_last hnl] at hcons
      rcases cons_eq_append hcons with ⟨rfl, rfl⟩ | ⟨p', a', hdoc, -⟩
      · exact ⟨rfl, by rwa [joined_of_no_preamble (b := b) h], fun _ => Or.inl rfl⟩
      · simp only [Document.mk.injEq, List.nil_eq, List.append_eq_nil_iff] at hdoc
        obtain ⟨-, -, rfl⟩ := hdoc
        have htext : p ++ Section.joined a = s := by
          have := text_ofText s
          rwa [h, List.append_nil, Document.text] at this
        rw [htext, h, List.append_nil]
        exact ⟨rfl, rfl, fun hb => absurd rfl hb⟩
  | line l rest hnl ih =>
      have hcons := h
      rw [ofText_line hnl] at hcons
      -- Either the cut is above the first line, or it is the cut of what is below.
      rcases cons_eq_append hcons with ⟨rfl, rfl⟩ | ⟨p', a', hdoc, hcons'⟩
      · exact ⟨rfl, by rwa [joined_of_no_preamble (b := b) h], fun _ => Or.inl rfl⟩
      · have htext : p ++ Section.joined a = l ++ '\n' :: (p' ++ Section.joined a') := by
          have := text_cons (l ++ ['\n']) ⟨p', a'⟩
          rw [hcons'] at this
          simpa [Document.text] using this
        obtain ⟨hbefore, hbehind, hends⟩ := ih hdoc
        rw [htext, ofText_line hnl, hbefore]
        exact ⟨hcons', hbehind, fun hb => (hends hb).line_append⟩

end Document

end DayJournal

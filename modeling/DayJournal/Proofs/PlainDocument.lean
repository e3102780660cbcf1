import DayJournal.Proofs.Canonical
import DayJournal.Proofs.PlainLines

/-!
# Plain documents

A document is plain when it is canonical and its entries are plain and not indented.  A plain
document is determined by the lines of its days, and the lines that are kept come back from it, so
an update with kept lines can be seen as an update of a function from days to lines.  Where the
entries alone change, the document is determined by which entry stands at which place.
-/

namespace DayJournal

open Text Document

structure PlainDocument (document : Text) : Prop where
  canonical : Canonical document
  entries : ∀ day, ∀ s ∈ lines (dayText document day), Line.PlainText s

namespace Document

def setLines (document : Text) (day : Date) (ls : List Line) : Text :=
  updateDay document day (Line.writeAll ls)

def entryIn (document : Text) (place : Address) : Option Entry :=
  Line.entryAt? (dayLines document place.day) place.line

theorem dayText_ne_nil_of_entryIn {document : Text} {place : Address} {e : Entry}
    (he : entryIn document place = some e) : dayText document place.day ≠ [] := by
  intro hnil
  rw [entryIn, dayLines, hnil, Line.entryAt?] at he
  split at he <;> cases he

theorem trimEnd_dayText (document : Text) (day : Date) :
    trimEnd (dayText document day) = dayText document day := by
  unfold dayText
  split
  · exact trimEnd_trimEnd _
  · rfl

end Document

/-! ## The lines of a trimmed text -/

theorem Text.isBlankText_of_mem_lines {s l : Text} (h : isBlankText s = true) (hl : l ∈ lines s) :
    isBlankText l = true := by
  induction s using lineInduction with
  | last s hnl =>
      rw [lines_of_not_mem hnl, List.mem_singleton] at hl
      rwa [hl]
  | line s rest hnl ih =>
      rw [isBlankText_append, isBlankText_cons, Bool.and_eq_true, Bool.and_eq_true] at h
      rw [lines_append_newline, lines_of_not_mem hnl, List.singleton_append, List.mem_cons] at hl
      rcases hl with rfl | hl
      · exact h.1
      · exact ih h.2.2 hl

/-- Trimming a text takes away the blank lines below the last one that is not blank, and trims that
one. -/
theorem Text.exists_lines_trimEnd {s : Text} (h : isBlankText s = false) :
    ∃ init l rest, lines s = init ++ l :: rest ∧ isBlankText l = false ∧
      (∀ x ∈ rest, isBlankText x = true) ∧ lines (trimEnd s) = init ++ [trimEnd l] := by
  induction s using lineInduction with
  | last s hnl =>
      have hnl' : '\n' ∉ trimEnd s := fun hmem => hnl (trimEnd_subset s hmem)
      exact ⟨[], s, [], lines_of_not_mem hnl, h, by simp, lines_of_not_mem hnl'⟩
  | line s rest hnl ih =>
      have hlines : lines (s ++ '\n' :: rest) = s :: lines rest := by
        rw [lines_append_newline, lines_of_not_mem hnl, List.singleton_append]
      cases hblank : isBlankText rest with
      | true =>
          have hcut : trimEnd (s ++ '\n' :: rest) = trimEnd s :=
            trimEnd_append_of_blank (by simp [hblank]) s
          have hnl' : '\n' ∉ trimEnd s := fun hmem => hnl (trimEnd_subset s hmem)
          have hs : isBlankText s = false := by simpa [hblank] using h
          refine ⟨[], s, lines rest, hlines, hs, fun x hx => isBlankText_of_mem_lines hblank hx, ?_⟩
          rw [hcut, lines_of_not_mem hnl', List.nil_append]
      | false =>
          obtain ⟨init, l, more, hrest, hl, hmore, htrim⟩ := ih hblank
          have hcut : trimEnd (s ++ '\n' :: rest) = s ++ '\n' :: trimEnd rest := by
            have happend : s ++ '\n' :: rest = (s ++ ['\n']) ++ rest := by simp
            rw [happend, trimEnd_append_of_not_blank hblank]
            simp
          refine ⟨s :: init, l, more, by rw [hlines, hrest, List.cons_append], hl, hmore, ?_⟩
          rw [hcut, lines_append_newline, lines_of_not_mem hnl, htrim, List.singleton_append,
            List.cons_append]

theorem Text.exists_lines_eq_concat {t : Text} (htrim : trimEnd t = t) (hne : t ≠ []) :
    ∃ init l, lines t = init ++ [l] ∧ trimEnd l = l ∧ isBlankText l = false := by
  have hfilled : isBlankText t = false := by
    rw [Bool.eq_false_iff, Ne, ← trimEnd_eq_nil_iff, htrim]
    exact hne
  obtain ⟨init, l, -, -, hl, -, hlines⟩ := exists_lines_trimEnd hfilled
  rw [htrim] at hlines
  exact ⟨init, trimEnd l, hlines, trimEnd_trimEnd l, by rwa [isBlankText_trimEnd]⟩

theorem Text.exists_getElem?_of_trimEnd {s l : Text} {i : Nat}
    (h : (lines (trimEnd s))[i]? = some l) :
    ∃ l', (lines s)[i]? = some l' ∧ (l = l' ∨ l = trimEnd l') := by
  cases hs : isBlankText s with
  | true =>
      -- Of a blank text one empty line is left, which was the first one.
      obtain ⟨first, more, hlines⟩ := List.exists_cons_of_ne_nil (pieces_ne_nil '\n' s)
      have hfirst : isBlankText first = true :=
        isBlankText_of_mem_lines hs (by rw [lines, hlines]; exact List.mem_cons_self)
      rw [trimEnd_eq_nil_iff.2 hs, lines_of_not_mem List.not_mem_nil,
        List.getElem?_singleton] at h
      split at h
      · next hi =>
        cases h
        exact ⟨first, by rw [lines, hlines, hi]; rfl, Or.inr (trimEnd_eq_nil_iff.2 hfirst).symm⟩
      · cases h
  | false =>
      obtain ⟨init, last, rest, hlines, -, -, htrim⟩ := exists_lines_trimEnd hs
      rw [htrim] at h
      rw [hlines]
      by_cases hi : i < init.length
      · rw [List.getElem?_append_left hi] at h ⊢
        exact ⟨l, h, Or.inl rfl⟩
      · rw [List.getElem?_append_right (by omega), List.getElem?_singleton] at h
        split at h
        · next hlast =>
          cases h
          exact ⟨last, by rw [List.getElem?_append_right (by omega), hlast]; rfl, Or.inr rfl⟩
        · cases h

theorem Text.mem_lines_trimEnd {s l : Text} (h : l ∈ lines (trimEnd s)) :
    ∃ l' ∈ lines s, l = l' ∨ l = trimEnd l' := by
  obtain ⟨i, hi⟩ := List.getElem?_of_mem h
  obtain ⟨l', hl', hl⟩ := exists_getElem?_of_trimEnd hi
  exact ⟨l', List.mem_of_getElem? hl', hl⟩

namespace PlainDocument

variable {t u : Text} {day : Date} {ls : List Line}

theorem nil : PlainDocument [] := by
  refine ⟨⟨⟨[], .nil⟩, rfl⟩, fun day s hs => ?_⟩
  have hline : s = [] := by
    simpa [dayText, ofText, ofLines, brokenLines, lines, pieces, section?] using hs
  subst hline
  intro e he
  cases he

/-! ## The lines of a plain document -/

theorem plain_of_mem (h : PlainDocument t) {s : Text} (hs : s ∈ lines (dayText t day)) :
    (Line.ofText s).Plain ∧ (Line.ofText s).text = s :=
  Line.plain_ofText (newline_not_mem_of_mem_lines hs) (headless_dayText t day s hs)
    (h.entries day s hs)

theorem plain_dayLines (h : PlainDocument t) : ∀ l ∈ dayLines t day, l.Plain := by
  intro l hl
  rw [dayLines, Line.readAll] at hl
  split at hl
  · simp at hl
  · obtain ⟨s, hs, rfl⟩ := List.mem_map.1 hl
    exact (h.plain_of_mem hs).1

theorem writeAll_dayLines (h : PlainDocument t) (day : Date) :
    Line.writeAll (dayLines t day) = dayText t day := by
  by_cases hnil : dayText t day = []
  · rw [dayLines, hnil]
    rfl
  · rw [Line.writeAll, dayLines, Line.map_text_readAll hnil fun s hs => (h.plain_of_mem hs).2,
      joinLines_lines]

theorem kept_dayLines (h : PlainDocument t) (day : Date) : Line.Kept (dayLines t day) := by
  refine ⟨h.plain_dayLines, fun l hl => ?_⟩
  by_cases hnil : dayText t day = []
  · rw [dayLines, hnil] at hl
    cases hl
  · obtain ⟨init, s, hlines, htrim, hblank⟩ := exists_lines_eq_concat (trimEnd_dayText t day) hnil
    have hs : s ∈ lines (dayText t day) := by simp [hlines]
    have hlast : l = Line.ofText s := by
      rw [dayLines, Line.readAll, if_neg (by simpa using hnil), hlines] at hl
      simpa using hl.symm
    rw [hlast, (h.plain_of_mem hs).2]
    exact ⟨htrim, fun hs => by simp [hs] at hblank⟩

theorem ext_dayLines (ht : PlainDocument t) (hu : PlainDocument u)
    (h : ∀ day, dayLines t day = dayLines u day) : t = u := by
  apply ht.canonical.ext hu.canonical
  intro day
  rw [← ht.writeAll_dayLines, ← hu.writeAll_dayLines, h day]

theorem late_of_line (h : PlainDocument t) (hls : dayLines t day ≠ []) : 1000 ≤ day.year := by
  apply h.canonical.late_of_dayText
  intro hnil
  rw [dayLines, hnil] at hls
  exact hls rfl

/-! ## Updates -/

theorem setLines (h : PlainDocument t) (late : 1000 ≤ day.year) (hls : ∀ l ∈ ls, l.Plain) :
    PlainDocument (setLines t day ls) := by
  have headless : Headless (Line.writeAll ls) :=
    Line.headless_writeAll fun l hl => (hls l hl).headless
  refine ⟨h.canonical.updateDay late headless, fun other s hs => ?_⟩
  rw [Document.setLines] at hs
  by_cases hother : other = day
  · subst hother
    rw [h.canonical.dayText_updateDay late headless] at hs
    obtain ⟨s', hs', hss'⟩ := mem_lines_trimEnd hs
    have hplain : Line.PlainText s' := by
      by_cases hnil : ls = []
      · subst hnil
        have hs'' : s' = [] := by
          simpa [Line.writeAll, joinLines, joinWith, lines, pieces] using hs'
        subst hs''
        intro e he
        cases he
      · rw [Line.lines_writeAll hnil fun l hl => (hls l hl).headless.1] at hs'
        obtain ⟨l, hl, rfl⟩ := List.mem_map.1 hs'
        exact Line.plainText_text (hls l hl)
    rcases hss' with rfl | rfl
    · exact hplain
    · exact hplain.trimEnd
  · rw [dayText_updateDay_of_ne late headless hother] at hs
    exact h.entries other s hs

theorem dayText_setLines_self (h : PlainDocument t) (late : 1000 ≤ day.year)
    (hls : ∀ l ∈ ls, l.Plain) :
    dayText (Document.setLines t day ls) day = trimEnd (Line.writeAll ls) :=
  h.canonical.dayText_updateDay late (Line.headless_writeAll fun l hl => (hls l hl).headless)

end PlainDocument

theorem dayText_setLines_of_ne {t : Text} {day other : Date} {ls : List Line}
    (late : 1000 ≤ day.year) (hls : ∀ l ∈ ls, l.Plain) (hne : other ≠ day) :
    dayText (setLines t day ls) other = dayText t other :=
  dayText_updateDay_of_ne late (Line.headless_writeAll fun l hl => (hls l hl).headless) hne

namespace PlainDocument

variable {t u : Text} {day : Date} {ls : List Line}

theorem dayLines_setLines (h : PlainDocument t) (late : 1000 ≤ day.year) (hls : Line.Kept ls)
    (other : Date) :
    dayLines (Document.setLines t day ls) other = if other = day then ls else dayLines t other := by
  by_cases hother : other = day
  · subst hother
    rw [if_pos rfl, dayLines, h.dayText_setLines_self late hls.plain, hls.steady.trimEnd_writeAll,
      hls.steady.readAll_writeAll]
  · rw [if_neg hother, dayLines, dayText_setLines_of_ne late hls.plain hother]
    rfl

theorem setLines_dayLines (ht : PlainDocument t) (hu : PlainDocument u) (late : 1000 ≤ day.year)
    (h : ∀ other, other ≠ day → dayLines u other = dayLines t other) :
    Document.setLines u day (dayLines t day) = t := by
  have hkept := ht.kept_dayLines day
  apply (hu.setLines late hkept.plain).ext_dayLines ht
  intro other
  rw [hu.dayLines_setLines late hkept]
  by_cases hother : other = day
  · rw [if_pos hother, hother]
  · rw [if_neg hother, h other hother]

theorem updateDay_dayText (h : PlainDocument t) (day : Date) (u : Text) :
    updateDay u day (dayText t day) = Document.setLines u day (dayLines t day) := by
  rw [Document.setLines, h.writeAll_dayLines]

end PlainDocument

end DayJournal

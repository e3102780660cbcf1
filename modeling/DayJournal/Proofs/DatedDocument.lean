import DayJournal.Proofs.PlainDocument

/-!
# Dated documents

A document is dated when no two of its sections have the same day and the year of each has four
digits.  Nothing is asked of the order of the sections, of blanks or of what stands between the
entries.  An update keeps a document dated, and it changes what one day reads and nothing else
(`Dated.dayText_updateDay`).  So documents that read alike read alike after the same update.
-/

namespace DayJournal

open Text Document

namespace Document

def days (t : Text) : List Date := (ofText t).sections.map Section.day

structure Dated (t : Text) : Prop where
  distinct : (days t).Nodup
  late : ∀ day ∈ days t, 1000 ≤ day.year

/-- The documents have the same text for each day, and the same text before the first section up to
blanks at its end. -/
structure ReadsAs (t u : Text) : Prop where
  preamble : trimEnd (ofText t).preamble = trimEnd (ofText u).preamble
  dayText : ∀ day, dayText t day = dayText u day

variable {t u v content : Text} {day : Date}

theorem days_eq_outline (t : Text) : days t = (outline t).sections.map Section.day := by
  rw [days, outline, trimmed, List.map_map]
  rfl

theorem dayText_of_not_mem_days (h : day ∉ days t) : dayText t day = [] := by
  apply dayText_of_not_mem
  intro s hs hday
  apply h
  rw [days_eq_outline, ← hday]
  exact List.mem_map_of_mem hs

theorem preamble_updateDay (late : 1000 ≤ day.year) (headless : Headless content) (t : Text) :
    (outline (updateDay t day content)).preamble = (outline t).preamble := by
  rcases exists_split_at_day (outline t).sections day with
    ⟨before, s, after, h, hbefore, hs⟩ | hnew
  · rw [outline_updateDay_of_mem headless h hbefore hs]
    split <;> rfl
  · obtain ⟨before, after, h, hbefore, hafter⟩ :=
      exists_split_before_later (outline t).sections day
    rw [outline_updateDay_of_not_mem late headless h (h ▸ hnew) hbefore hafter]
    split <;> rfl

namespace Dated

theorem exists_days_updateDay (h : Dated t) (late : 1000 ≤ day.year) (headless : Headless content) :
    ∃ a b, day ∉ a ++ b ∧ (days t = a ++ b ∨ days t = a ++ day :: b) ∧
      days (updateDay t day content) = a ++ (if isBlankText content then [] else [day]) ++ b := by
  rcases exists_split_at_day (outline t).sections day with
    ⟨before, s, after, hsections, hbefore, hs⟩ | hnew
  · refine ⟨before.map Section.day, after.map Section.day, ?_, Or.inr ?_, ?_⟩
    · have hdistinct := h.distinct
      rw [days_eq_outline, hsections, List.map_append, List.map_cons, List.nodup_middle, hs,
        List.nodup_cons] at hdistinct
      exact hdistinct.1
    · rw [days_eq_outline, hsections, List.map_append, List.map_cons, hs]
    · rw [days_eq_outline, outline_updateDay_of_mem headless hsections hbefore hs]
      split <;> simp [hs]
  · obtain ⟨before, after, hsections, hbefore, hafter⟩ :=
      exists_split_before_later (outline t).sections day
    rw [hsections] at hnew
    refine ⟨before.map Section.day, after.map Section.day, ?_, Or.inl ?_, ?_⟩
    · rw [← List.map_append, List.mem_map]
      exact fun ⟨s, hs, hday⟩ => hnew s hs hday
    · rw [days_eq_outline, hsections, List.map_append]
    · rw [days_eq_outline, outline_updateDay_of_not_mem late headless hsections hnew hbefore hafter]
      split <;> simp [hsections]

theorem mem_days_updateDay (h : Dated t) (late : 1000 ≤ day.year) (headless : Headless content)
    (other : Date) :
    other ∈ days (updateDay t day content) ↔
      if other = day then isBlankText content = false else other ∈ days t := by
  obtain ⟨a, b, hnot, hold, hnew⟩ := h.exists_days_updateDay late headless
  rw [hnew]
  by_cases hother : other = day
  · subst hother
    rw [if_pos rfl]
    rw [List.mem_append, not_or] at hnot
    cases isBlankText content <;> simp [hnot]
  · rw [if_neg hother]
    rcases hold with hold | hold <;> rw [hold] <;> split <;> simp [hother]

theorem updateDay (h : Dated t) (late : 1000 ≤ day.year) (headless : Headless content) :
    Dated (updateDay t day content) := by
  refine ⟨?_, fun other hmem => ?_⟩
  · obtain ⟨a, b, hnot, hold, hnew⟩ := h.exists_days_updateDay late headless
    have hrest : (a ++ b).Nodup := by
      have hdistinct := h.distinct
      rcases hold with hold | hold
      · rwa [hold] at hdistinct
      · rw [hold, List.nodup_middle, List.nodup_cons] at hdistinct
        exact hdistinct.2
    rw [hnew]
    split
    · rwa [List.append_nil]
    · rw [List.append_assoc, List.singleton_append, List.nodup_middle]
      exact List.nodup_cons.2 ⟨hnot, hrest⟩
  · rw [h.mem_days_updateDay late headless] at hmem
    by_cases hother : other = day
    · rwa [hother]
    · rw [if_neg hother] at hmem
      exact h.late other hmem

theorem dayText_updateDay (h : Dated t) (late : 1000 ≤ day.year) (headless : Headless content)
    (other : Date) :
    dayText (Document.updateDay t day content) other =
      if other = day then trimEnd content else dayText t other := by
  by_cases hother : other = day
  · subst hother
    rw [if_pos rfl]
    cases hblank : isBlankText content with
    | false => exact dayText_updateDay_self late headless hblank
    | true =>
        -- The section is gone, and there is no other one of the day.
        have hgone : other ∉ days (Document.updateDay t other content) := by
          rw [h.mem_days_updateDay late headless, if_pos rfl, hblank]
          simp
        rw [dayText_of_not_mem_days hgone, trimEnd_eq_nil_iff.2 hblank]
  · rw [if_neg hother, dayText_updateDay_of_ne late headless hother]

theorem late_of_dayText (h : Dated t) (hne : dayText t day ≠ []) : 1000 ≤ day.year := by
  apply h.late
  by_contra hnot
  exact hne (dayText_of_not_mem_days hnot)

theorem late_of_entryIn {place : Address} {e : Entry} (h : Dated t)
    (he : entryIn t place = some e) : 1000 ≤ place.day.year :=
  h.late_of_dayText (dayText_ne_nil_of_entryIn he)

section SetLines

variable {ls : List Line} (h : Dated t) (late : 1000 ≤ day.year) (hls : ∀ l ∈ ls, l.Headless)
include h late hls

theorem setLines : Dated (setLines t day ls) := h.updateDay late (Line.headless_writeAll hls)

theorem dayText_setLines (other : Date) :
    dayText (Document.setLines t day ls) other =
      if other = day then trimEnd (Line.writeAll ls) else dayText t other :=
  h.dayText_updateDay late (Line.headless_writeAll hls) other

theorem mem_days_setLines (other : Date) :
    other ∈ days (Document.setLines t day ls) ↔
      if other = day then trimEnd (Line.writeAll ls) ≠ [] else other ∈ days t := by
  rw [Document.setLines, h.mem_days_updateDay late (Line.headless_writeAll hls), Ne,
    trimEnd_eq_nil_iff, Bool.not_eq_true]

end SetLines

end Dated

theorem Canonical.dated (h : Canonical t) : Dated t := by
  obtain ⟨ps, rfl⟩ := h
  have hdays : days ps.print = ps.list.map Page.day := by
    rw [days, Pages.print, ← Page.print_map_noted, NotedPage.ofText_print, NotedPage.map_day_leaves,
      List.map_map]
    rfl
  refine ⟨?_, fun day hmem => ?_⟩
  · rw [hdays, List.Nodup, List.pairwise_map]
    exact ps.sorted.imp fun hlt => hlt.ne
  · rw [hdays] at hmem
    obtain ⟨p, -, rfl⟩ := List.mem_map.1 hmem
    exact p.late

/-! ## Documents that read alike -/

namespace ReadsAs

theorem refl (t : Text) : ReadsAs t t := ⟨rfl, fun _ => rfl⟩

theorem symm (h : ReadsAs t u) : ReadsAs u t := ⟨h.preamble.symm, fun day => (h.dayText day).symm⟩

theorem trans (h : ReadsAs t u) (h' : ReadsAs u v) : ReadsAs t v :=
  ⟨h.preamble.trans h'.preamble, fun day => (h.dayText day).trans (h'.dayText day)⟩

theorem dayLines_eq (h : ReadsAs t u) (day : Date) : dayLines t day = dayLines u day := by
  rw [dayLines, dayLines, h.dayText]

theorem entryIn_eq (h : ReadsAs t u) (place : Address) : entryIn t place = entryIn u place := by
  rw [entryIn, entryIn, h.dayLines_eq]

theorem updateDay (h : ReadsAs t u) (ht : Dated t) (hu : Dated u) (late : 1000 ≤ day.year)
    (headless : Headless content) :
    ReadsAs (updateDay t day content) (updateDay u day content) := by
  refine ⟨?_, fun other => ?_⟩
  · calc trimEnd (ofText (Document.updateDay t day content)).preamble
        = trimEnd (ofText t).preamble := preamble_updateDay late headless t
      _ = trimEnd (ofText u).preamble := h.preamble
      _ = trimEnd (ofText (Document.updateDay u day content)).preamble :=
          (preamble_updateDay late headless u).symm
  · rw [ht.dayText_updateDay late headless, hu.dayText_updateDay late headless, h.dayText]

end ReadsAs

end Document

end DayJournal

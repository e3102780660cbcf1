import DayJournal.Proofs.EntryMap

/-!
# Entries that are read again

An entry that takes the place of another is written as a line, and what is found at its place from
then on is what that line is read as.  This holds in every document, plain or not, as long as the
line has nothing blank at its end.
-/

namespace DayJournal

open Text Document

theorem Text.getElem?_lines_trimEnd {s l : Text} {i : Nat} (h : (lines s)[i]? = some l)
    (hl : isBlankText l = false) :
    (lines (trimEnd s))[i]? = some l ∨ (lines (trimEnd s))[i]? = some (trimEnd l) := by
  have hs : isBlankText s = false := by
    rw [Bool.eq_false_iff]
    intro hblank
    rw [isBlankText_of_mem_lines hblank (List.mem_of_getElem? h)] at hl
    cases hl
  obtain ⟨init, last, rest, hlines, -, hrest, htrim⟩ := exists_lines_trimEnd hs
  rw [hlines] at h
  rw [htrim]
  rcases Nat.lt_trichotomy i init.length with hi | rfl | hi
  · rw [List.getElem?_append_left hi] at h ⊢
    exact Or.inl h
  · rw [List.getElem?_append_right le_rfl, Nat.sub_self] at h ⊢
    cases h
    exact Or.inr rfl
  -- A line that is not blank is not below the last one that is kept.
  · rw [List.getElem?_append_right hi.le] at h
    obtain ⟨n, hn⟩ : ∃ n, i - init.length = n + 1 := ⟨i - init.length - 1, by omega⟩
    rw [hn, List.getElem?_cons_succ] at h
    rw [hrest l (List.mem_of_getElem? h)] at hl
    cases hl

namespace Entry

theorem exists_ofLine_line (e : Entry) : ∃ e', ofLine? e.line = some e' ∧ e'.line = e.line := by
  obtain ⟨e', he'⟩ : ∃ e', ofLine? e.line = some e' := by
    rw [← Option.isSome_iff_exists, ofLine?, List.findSome?_isSome_iff]
    obtain ⟨kind, content, completed⟩ := e
    have hmarker : ∃ form ∈ forms, kind.marker completed = form.1.marker form.2 := by
      cases kind <;> cases completed <;> decide
    obtain ⟨⟨kind', completed'⟩, hform, heq⟩ := hmarker
    refine ⟨(kind', completed'), hform, ?_⟩
    rw [trimStart_line, line, marker, heq]
    simp only [after_append, Option.map_some, Option.isSome_some]
  exact ⟨e', he', by rw [← line_of_ofLine he', trimStart_line]⟩

theorem not_blank_line (e : Entry) : isBlankText e.line = false := by
  obtain ⟨kind, content, completed⟩ := e
  cases kind <;> cases completed <;> rfl

theorem trimEnd_line_of_content {e : Entry} (h : trimEnd e.content = e.content)
    (hblank : isBlankText e.content = false) : trimEnd e.line = e.line := by
  rw [line, trimEnd_append_of_not_blank hblank, h]

end Entry

namespace Document

variable {t : Text} {place : Address} {e old : Entry}

theorem dayText_updateDay_of_mem {document content : Text} {day : Date}
    (hday : dayText document day ≠ []) (hcontent : Headless content)
    (hblank : isBlankText content = false) :
    dayText (updateDay document day content) day = trimEnd content := by
  rcases exists_split_at_day (outline document).sections day with
    ⟨before, s, after, h, hbefore, hs⟩ | hnone
  · have hout := outline_updateDay_of_mem hcontent h hbefore hs
    rw [hblank] at hout
    exact dayText_of_split hout hbefore hs
  · exact absurd (dayText_of_not_mem hnone) hday

theorem entryIn_putEntry_of_line (hold : entryIn t place = some old) (hnl : '\n' ∉ e.content)
    (htrim : trimEnd e.line = e.line) :
    entryIn (putEntry t place e) place = Entry.ofLine? e.line := by
  obtain ⟨hindex, hget⟩ := Line.getElem_of_entryAt hold
  obtain ⟨hlt, -⟩ := List.getElem?_eq_some_iff.1 hget
  let ls := (dayLines t place.day).set place.line.toNat (.entry e)
  have hget' : ls[place.line.toNat]? = some (.entry e) := List.getElem?_set_self hlt
  have headless : ∀ l ∈ ls, l.Headless := by
    intro l hl
    rcases List.mem_or_eq_of_mem_set hl with hl | rfl
    · exact headless_of_mem_dayLines hl
    · exact Line.headless_entry hnl
  have hlines : lines (Line.writeAll ls) = ls.map Line.text := by
    refine lines_joinLines ?_ (by simpa using fun l hl => (headless l hl).1)
    rw [Ne, List.map_eq_nil_iff]
    exact List.ne_nil_of_mem (List.mem_of_getElem? hget')
  have hwritten : (lines (Line.writeAll ls))[place.line.toNat]? = some e.line := by
    rw [hlines, List.getElem?_map, hget']
    rfl
  have hblank : isBlankText (Line.writeAll ls) = false := by
    rw [Bool.eq_false_iff]
    intro hblank
    have hline := isBlankText_of_mem_lines hblank (List.mem_of_getElem? hwritten)
    rw [e.not_blank_line] at hline
    cases hline
  have hline : (lines (trimEnd (Line.writeAll ls)))[place.line.toNat]? = some e.line := by
    rcases getElem?_lines_trimEnd hwritten e.not_blank_line with h | h
    · exact h
    · rwa [htrim] at h
  have hday : dayText t place.day ≠ [] := by
    intro hnil
    rw [dayLines, hnil] at hlt
    exact absurd hlt (Nat.not_lt_zero _)
  have htext : dayText (putEntry t place e) place.day = trimEnd (Line.writeAll ls) :=
    dayText_updateDay_of_mem hday (Line.headless_writeAll headless) hblank
  rw [entryIn, dayLines, htext, Line.readAll, if_neg (by simpa [trimEnd_eq_nil_iff] using hblank),
    Line.entryAt?, if_pos hindex, List.getElem?_map, hline]
  exact Line.entry_ofText e.line

end Document

end DayJournal

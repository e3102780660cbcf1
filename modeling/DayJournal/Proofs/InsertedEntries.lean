import DayJournal.Proofs.Insertion
import DayJournal.Proofs.TidiedLines

/-!
# Entries where they were put

Entries that are put into a day are found again one below the other, from the line that is answered
on, and the other lines of the day stay as they were.  Nothing is asked of the document: the lines
of a day are read as they are written once they have been read, whatever the day looked like.
-/

namespace DayJournal

open Text Document

namespace Line

variable {ls : List Line} {entries : List Entry}

theorem entryAt_insert {start : Nat} (hstart : start ≤ ls.length) {k : Nat} {e : Entry}
    (he : entries[k]? = some e) :
    entryAt? (ls.take start ++ entries.map entry ++ ls.drop start) (start + k : Nat) = some e := by
  obtain ⟨hk, -⟩ := List.getElem?_eq_some_iff.1 he
  have hlength : (ls.take start).length = start := List.length_take_of_le hstart
  have hline : (ls.take start ++ entries.map entry ++ ls.drop start)[start + k]? =
      some (entry e) := by
    rw [List.getElem?_append_left (by simp [hlength, hk]), List.getElem?_append_right (by omega),
      hlength, Nat.add_sub_cancel_left, List.getElem?_map, he]
    rfl
  rw [entryAt?, if_pos (Int.natCast_nonneg _), Int.toNat_natCast, hline]
  rfl

end Line

namespace Journal

variable {j j' : Journal} {day : Date} {entries : List Entry} {start : Nat}

/-- Entries stand on the lines of a day from one on, where they have been put between the lines that
were there, and no other day has changed. -/
structure Placed (j : Journal) (day : Date) (start : Nat) (entries : List Entry) (j' : Journal) :
    Prop where
  found : ∀ k e, entries[k]? = some e → j'.entry? ⟨day, (start + k : Nat)⟩ = some e
  lines : j'.lines day =
    (j.lines day).take start ++ entries.map .entry ++ (j.lines day).drop start
  elsewhere : ∀ other, other ≠ day → dayText j'.text other = dayText j.text other

theorem exists_placed (late : 1000 ≤ day.year) (hne : entries ≠ [])
    (hentries : ∀ e ∈ entries, e.Plain) (hwrites : j.writesLeft ≠ some 0)
    (hstart : start ≤ (j.lines day).length) :
    ∃ j', j.saveLines day
        ((j.lines day).take start ++ entries.map .entry ++ (j.lines day).drop start) = .ok j' ∧
      Placed j day start entries j' := by
  obtain ⟨ls, hls⟩ : ∃ ls, ls =
      (j.lines day).take start ++ entries.map Line.entry ++ (j.lines day).drop start := ⟨_, rfl⟩
  have hsteady : Line.Steady ls := by
    rw [hls]
    exact (Line.steady_readAll (trimEnd_dayText j.text day)).insert start hentries
  have headless : Headless (Line.writeAll ls) := by
    apply Line.headless_writeAll
    intro l hl
    rw [hls] at hl
    rcases Line.mem_insert hl with hl | ⟨e, he, rfl⟩
    · exact headless_of_mem_dayLines hl
    · exact (Line.plain_entry (hentries e he)).headless
  have hfilled : isBlankText (Line.writeAll ls) = false := by
    obtain ⟨e, more, rfl⟩ := List.exists_cons_of_ne_nil hne
    apply Line.isBlankText_writeAll_of_entry (e := e)
    simp [hls]
  obtain ⟨j', hsave⟩ := exists_save hwrites (updateDay j.text day (Line.writeAll ls))
  have htext : j'.text = updateDay j.text day (Line.writeAll ls) := text_of_save hsave
  have hlines : j'.lines day = ls := by
    rw [Journal.lines, dayLines, htext, dayText_updateDay_self late headless hfilled,
      hsteady.trimEnd_writeAll, hsteady.readAll_writeAll]
  rw [← hls]
  refine ⟨j', hsave, fun k e he => ?_, hlines.trans hls, fun other hother => ?_⟩
  · rw [Journal.entry?, hlines, hls]
    exact Line.entryAt_insert hstart he
  · rw [htext, dayText_updateDay_of_ne late headless hother]

/-- Plain entries that are put into a day from a line on are given positions that follow each other,
from that line on or from the end of the day if the line is beyond it.  They are found at these
positions, the lines of the day are the former ones around them, and no other day has changed.
Entries that are put at the end of a day begin behind its former lines. -/
theorem entries_placed (late : 1000 ≤ day.year) (hne : entries ≠ [])
    (hentries : ∀ e ∈ entries, e.Plain) (hwrites : j.writesLeft ≠ some 0) :
    (∀ line : Nat, ∃ j', j.insert ⟨day, line⟩ entries = .ok
        ((List.range entries.length).map fun k => (min line (j.lines day).length + k : Nat), j') ∧
      Placed j day (min line (j.lines day).length) entries j') ∧
    ∃ j', j.append day entries = .ok ((j.lines day).length, j') ∧
      Placed j day (j.lines day).length entries j' := by
  constructor
  · intro line
    obtain ⟨j', hsave, hplaced⟩ := exists_placed late hne hentries hwrites
      (min_le_right line (j.lines day).length)
    have hinserted : (Line.insertEntries (j.lines day) line entries).1 =
        linesWith j.text ⟨day, (min line (j.lines day).length : Nat)⟩ entries := by
      rw [Nat.cast_min]
      exact (linesWith_eq_insertEntries (Int.natCast_nonneg line) entries).symm
    have hrun : j.insert ⟨day, line⟩ entries =
        (j.saveLines day (Line.insertEntries (j.lines day) line entries).1).map fun saved =>
          ((Line.insertEntries (j.lines day) line entries).2, saved) := rfl
    refine ⟨j', ?_, hplaced⟩
    rw [hrun, hinserted, Line.insertEntries_snd (Int.natCast_nonneg line), linesWith,
      Int.toNat_natCast]
    show (j.saveLines day ((j.lines day).take _ ++ _ ++ (j.lines day).drop _)).map _ = _
    rw [hsave]
    simp [Except.map]
  · obtain ⟨j', hsave, hplaced⟩ := exists_placed late hne hentries hwrites le_rfl
    refine ⟨j', ?_, hplaced⟩
    rw [List.take_length, List.drop_length, List.append_nil] at hsave
    rw [append, hsave]
    rfl

/-- Two entries put below an indented one, in a document out of order. -/
theorem entries_placed_below_indented :
    let day : Date := ⟨2026, 1, 5, by decide⟩
    let j : Journal := ⟨"# 2026/01/09\n* z\n# 2026/01/05\n  - [ ] a\ntext\n".toList, none⟩
    let entries : List Entry := [⟨.note, "b".toList, false⟩, ⟨.task, "c".toList, true⟩]
    (entries ≠ [] ∧ ∀ e ∈ entries, e.Plain) ∧
      ∃ j', j.insert ⟨day, (1 : Nat)⟩ entries = .ok ([1, 2], j') ∧
        j'.entry? ⟨day, (1 + 1 : Nat)⟩ = some ⟨.task, "c".toList, true⟩ := by
  intro day j entries
  have hentries : ∀ e ∈ entries, e.Plain := by
    have hnote : Entry.Plain ⟨.note, "b".toList, false⟩ := ⟨by constructor <;> decide, by simp⟩
    have htask : Entry.Plain ⟨.task, "c".toList, true⟩ := ⟨by constructor <;> decide, by simp⟩
    simpa [entries] using ⟨hnote, htask⟩
  have hne : entries ≠ [] := by simp [entries]
  have late : 1000 ≤ day.year := by decide
  obtain ⟨j', hinsert, hplaced⟩ := (entries_placed (j := j) late hne hentries (by decide)).1 1
  have hstart : min 1 (j.lines day).length = 1 := by decide +kernel
  rw [hstart] at hinsert hplaced
  exact ⟨⟨hne, hentries⟩, j', hinsert, hplaced.found 1 _ rfl⟩

end Journal

end DayJournal

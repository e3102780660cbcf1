import DayJournal.Proofs.HistorySteps
import DayJournal.Proofs.TidiedLines
import Mathlib.Data.Multiset.AddSub

/-!
# Entries that are moved

An entry moves by being taken out of its day and put at the end of another one.  Either of these
writes a day, which may take a section away or make one, and changes the entries of that day and no
others (`Dated.exists_inventory_updateDay`).  So a move loses no entry and makes none, and where
there is no entry to move nothing is written.
-/

namespace DayJournal

open Text Document Change

namespace Document

variable {t content : Text} {day : Date} {place : Address} {e : Entry}

/-! ## The entries of a document -/

/-- The entries of a day in any order, each without blanks at the end of its content. -/
def inventoryOn (t : Text) (day : Date) : Multiset Entry := (entriesOn t day).map Entry.trimmed

def inventory (t : Text) : Multiset Entry := (entries t).map Entry.trimmed

theorem inventory_eq {a b : List Date} (hnot : day ∉ a ++ b)
    (h : days t = a ++ b ∨ days t = a ++ day :: b) :
    inventory t = inventoryOn t day + ((a ++ b).flatMap (entriesOn t)).map Entry.trimmed := by
  rw [inventory, inventoryOn, Multiset.coe_add, ← List.map_append, Multiset.coe_eq_coe]
  apply List.Perm.map
  rw [entries]
  rcases h with h | h
  · rw [entriesOn_of_not_mem (h ▸ hnot), h, List.nil_append]
  · rw [h, ← List.flatMap_cons]
    exact List.perm_middle.flatMap_right _

theorem Dated.exists_inventory_updateDay (h : Dated t) (late : 1000 ≤ day.year)
    (headless : Headless content) :
    ∃ rest, inventory t = inventoryOn t day + rest ∧
      inventory (Document.updateDay t day content) =
        inventoryOn (Document.updateDay t day content) day + rest := by
  obtain ⟨a, b, hnot, hold, hnew⟩ := h.exists_days_updateDay late headless
  have hrest : (a ++ b).flatMap (entriesOn (Document.updateDay t day content)) =
      (a ++ b).flatMap (entriesOn t) := by
    refine List.flatMap_congr fun other hother => ?_
    have hne : other ≠ day := fun heq => hnot (heq ▸ hother)
    rw [entriesOn, entriesOn, dayLines, dayLines, dayText_updateDay_of_ne late headless hne]
  refine ⟨_, inventory_eq hnot hold, ?_⟩
  rw [← hrest]
  apply inventory_eq hnot
  rw [hnew]
  split
  · exact Or.inl (by rw [List.append_nil])
  · exact Or.inr (by rw [List.append_assoc, List.singleton_append])

/-! ## An entry taken out -/

theorem inventoryOn_eq_cons_remove (he : entryIn t place = some e) :
    inventoryOn t place.day = e.trimmed ::ₘ
      ↑(((Line.remove (dayLines t place.day) place.line).filterMap Line.entry?).map
        Entry.trimmed) := by
  obtain ⟨hindex, hline⟩ := Line.getElem_of_entryAt he
  obtain ⟨hlt, hget⟩ := List.getElem?_eq_some_iff.1 hline
  have hperm := (List.getElem_cons_eraseIdx_perm hlt).filterMap Line.entry?
  rw [hget] at hperm
  rw [inventoryOn, Multiset.cons_coe, Multiset.coe_eq_coe, Line.remove, if_pos hindex]
  exact (hperm.map Entry.trimmed).symm

theorem Dated.inventory_removeLine (h : Dated t) (hfirm : ∀ l ∈ dayLines t place.day, l.Firm)
    (he : entryIn t place = some e) :
    inventory t = e.trimmed ::ₘ inventory (Document.removeLine t place) := by
  have hday : inventoryOn t place.day =
      e.trimmed ::ₘ inventoryOn (Document.removeLine t place) place.day := by
    rw [inventoryOn_eq_cons_remove he, inventoryOn, entriesOn, h.dayLines_removeLine_self hfirm he,
      Line.map_trimmed_entries_tidied, Line.cut_eq_remove he]
  obtain ⟨rest, hold, hnew⟩ := h.exists_inventory_updateDay (h.late_of_entryIn he)
    (Line.headless_writeAll (headless_remove t place))
  calc inventory t
      = inventoryOn t place.day + rest := hold
    _ = e.trimmed ::ₘ (inventoryOn (Document.removeLine t place) place.day + rest) := by
        rw [hday, Multiset.cons_add]
    _ = e.trimmed ::ₘ inventory (Document.removeLine t place) := congrArg _ hnew.symm

/-! ## An entry put at the end -/

def appendEntry (t : Text) (day : Date) (e : Entry) : Text :=
  setLines t day (dayLines t day ++ [.entry e])

theorem headless_append (hline : (Line.entry e).Headless) :
    ∀ l ∈ dayLines t day ++ [.entry e], l.Headless := by
  intro l hl
  rcases List.mem_append.1 hl with hl | hl
  · exact headless_of_mem_dayLines hl
  · rwa [List.mem_singleton.1 hl]

section AppendEntry

variable (h : Dated t) (late : 1000 ≤ day.year) (hline : (Line.entry e).Headless)
  (hfirm : ∀ l ∈ dayLines t day, l.Firm) (he : (Line.entry e).Firm)
include h late hline hfirm he

theorem Dated.dayLines_appendEntry :
    dayLines (appendEntry t day e) day = dayLines t day ++ [.entry e.trimmed] := by
  have hlines : ∀ l ∈ dayLines t day ++ [.entry e], l.Firm := by
    intro l hl
    rcases List.mem_append.1 hl with hl | hl
    · exact hfirm l hl
    · rwa [List.mem_singleton.1 hl]
  rw [dayLines, appendEntry, h.dayText_setLines late (headless_append hline), if_pos rfl,
    Line.readAll_trimEnd_writeAll hlines]
  exact Line.tidied_concat _ e.not_blank_line

theorem Dated.inventory_appendEntry :
    inventory (appendEntry t day e) = e.trimmed ::ₘ inventory t := by
  have hday : inventoryOn (appendEntry t day e) day = e.trimmed ::ₘ inventoryOn t day := by
    rw [inventoryOn, entriesOn, h.dayLines_appendEntry late hline hfirm he, List.filterMap_append,
      List.map_append, ← Multiset.coe_add, Multiset.add_comm]
    simp [Line.entry?, inventoryOn, entriesOn]
  obtain ⟨rest, hold, hnew⟩ := h.exists_inventory_updateDay late
    (Line.headless_writeAll (headless_append hline))
  calc inventory (appendEntry t day e)
      = inventoryOn (appendEntry t day e) day + rest := hnew
    _ = e.trimmed ::ₘ (inventoryOn t day + rest) := by rw [hday, Multiset.cons_add]
    _ = e.trimmed ::ₘ inventory t := by rw [hold]

end AppendEntry

/-! ## From one day to another -/

/-- What becomes of a document when the entry at a place is put at the end of another day. -/
structure Moved (t : Text) (place : Address) (day : Date) (e : Entry) (u : Text) : Prop where
  left : dayLines u place.day = Line.tidied (Line.remove (dayLines t place.day) place.line)
  arrived : dayLines u day = dayLines t day ++ [.entry e.trimmed]
  elsewhere : ∀ other, other ≠ place.day → other ≠ day → dayText u other = dayText t other
  inventory : inventory u = inventory t

theorem moved (hdated : Dated t) (hfilled : Filled t) (late : 1000 ≤ day.year)
    (hne : place.day ≠ day) (he : entryIn t place = some e) :
    Moved t place day e (appendEntry (removeLine t place) day e) := by
  have hfirm := hfilled.firm place.day
  have hbetween : Dated (removeLine t place) := hdated.removeLine he
  have hentry : Line.entry e ∈ dayLines t place.day := Line.entry_mem_of_entryAt he
  have hline : (Line.entry e).Headless := headless_of_mem_dayLines hentry
  have hother : ∀ other, other ≠ day → dayText (appendEntry (removeLine t place) day e) other =
      dayText (removeLine t place) other := by
    intro other hother
    rw [appendEntry, hbetween.dayText_setLines late (headless_append hline), if_neg hother]
  have hday : dayLines (removeLine t place) day = dayLines t day := by
    rw [dayLines, hdated.dayText_removeLine he, if_neg (Ne.symm hne)]
    rfl
  have hdayFirm : ∀ l ∈ dayLines (removeLine t place) day, l.Firm := by
    rw [hday]
    exact hfilled.firm day
  refine ⟨?_, ?_, fun other hplace hnew => ?_, ?_⟩
  · rw [dayLines, hother place.day hne, ← Line.cut_eq_remove he]
    exact hdated.dayLines_removeLine_self hfirm he
  · rw [hbetween.dayLines_appendEntry late hline hdayFirm (hfirm _ hentry), hday]
  · rw [hother other hnew, hdated.dayText_removeLine he, if_neg hplace]
  · rw [hbetween.inventory_appendEntry late hline hdayFirm (hfirm _ hentry),
      hdated.inventory_removeLine hfirm he]

end Document

/-! ## The move -/

namespace Action

variable {w : Workspace} {place : Address} {day : Date} {e : Entry}

theorem run_move_of_none (he : entryIn w.journal.text place = none) (day : Date) :
    (move place day).perform.run w = (.error (.nothingToMove place), w) := by
  have hnone : w.journal.entry? place = none := he
  have hdelete : (single (Workspace.delete place)).run w = (.ok none, w) :=
    run_single (by rw [Workspace.delete, hnone])
  exact (run_bind_ok rfl).trans ((run_bind_ok hdelete).trans rfl)

theorem exists_run_move (he : entryIn w.journal.text place = some e)
    (hwrites : w.journal.writesLeft = none) (day : Date) :
    ∃ back w', (move place day).perform.run w = (.ok back, w') ∧
      w'.journal.text = appendEntry (removeLine w.journal.text place) day e := by
  have hin : w.In ⟨w.settings, w.today⟩ := ⟨rfl, rfl⟩
  obtain ⟨e?, between, hdelete, hin', ⟨hfound, htext⟩, hwrites'⟩ :=
    (meets_delete place).exists_run (Change.goes_delete place) hin rfl hwrites
  obtain ⟨index, w', happend, -, ⟨-, htext'⟩, -⟩ :=
    (meets_append day [e]).exists_run (goes_append day [e]) hin' rfl hwrites'
  obtain rfl : e? = some e := hfound.trans he
  rw [if_neg (by simp)] at htext
  refine ⟨moveBack place (dayText w.journal.text place.day) ⟨day, index⟩, w', ?_, ?_⟩
  · exact (run_bind_ok rfl).trans ((run_bind_ok hdelete).trans ((run_bind_ok happend).trans rfl))
  · rw [htext', htext]
    rfl

end Action

namespace Session

variable {s : Session} {location : Location} {place : Address} {day : Date}

theorem run_move (hplace : s.workspace.checked Row.ensureEditable location = .ok place)
    (hne : place.day ≠ day) : (move location day).run s = (execute (.move place day)).run s := by
  refine (run_bind_ok (run_ask hplace)).trans ?_
  rw [if_neg hne]

/-- An entry that is moved to another day leaves the other lines of its day, stands behind the
former lines of the other one, and the text of every other day stays; the document has the same
entries before and after, up to blanks at the ends of their contents.  Where a location names no
entry the move is refused, and nothing at all has changed. -/
theorem move_conserves (hplace : s.workspace.checked Row.ensureEditable location = .ok place)
    (hne : place.day ≠ day) (late : 1000 ≤ day.year) (hdated : Dated s.workspace.journal.text)
    (hfilled : Filled s.workspace.journal.text) (hwrites : s.workspace.journal.writesLeft = none) :
    (∀ e, entryIn s.workspace.journal.text place = some e →
      ∃ s', (move location day).run s = (.ok (Action.move place day).describe.onRun?, s') ∧
        Moved s.workspace.journal.text place day e s'.workspace.journal.text) ∧
    (entryIn s.workspace.journal.text place = none →
      (move location day).run s = (.error (.nothingToMove place), s)) := by
  rw [run_move hplace hne]
  refine ⟨fun e he => ?_, fun hnone => run_execute_error (Action.run_move_of_none hnone day)⟩
  obtain ⟨back, w', hperform, htext⟩ := Action.exists_run_move he hwrites day
  obtain ⟨s', hrun, hworkspace, -⟩ := exists_run_recorded hperform
  refine ⟨s', hrun, ?_⟩
  rw [hworkspace, htext]
  exact moved hdated hfilled late hne he

/-- The only entry of a day, to a day that has no section; below it there is nothing to move. -/
theorem move_conserves_only_entry :
    let first : Date := ⟨2026, 1, 9, by decide⟩
    let day : Date := ⟨2026, 1, 7, by decide⟩
    let s := start ⟨"# 2026/01/09 Fri\n  - [ ] a \n\n# 2026/01/05\n- b\n".toList, none⟩ {} first
    (Dated s.workspace.journal.text ∧ Filled s.workspace.journal.text ∧
      s.workspace.journal.writesLeft = none) ∧
    (∃ s', (move (.daily 0) day).run s =
        (.ok (Action.move ⟨first, 0⟩ day).describe.onRun?, s') ∧
      dayLines s'.workspace.journal.text day = [.entry ⟨.task, "a".toList, false⟩]) ∧
    (move (.daily 1) day).run s = (.error (.nothingToMove ⟨first, 1⟩), s) := by
  intro first day s
  have hdated : Dated s.workspace.journal.text := ⟨by decide +kernel, by decide +kernel⟩
  have hfilled : ∀ e ∈ entries s.workspace.journal.text, isBlankText e.content = false := by
    decide +kernel
  have hplace : ∀ line, line = 0 ∨ line = 1 →
      s.workspace.checked Row.ensureEditable (.daily line) = .ok ⟨first, line⟩ := by
    rintro line (rfl | rfl) <;> rfl
  have hne : first ≠ day := by decide
  have late : 1000 ≤ day.year := by decide
  obtain ⟨s', hrun, hmoved⟩ := (move_conserves (hplace 0 (Or.inl rfl)) hne late hdated hfilled
    rfl).1 ⟨.task, "a".toList, false⟩ (by decide +kernel)
  have hnothing := (move_conserves (hplace 1 (Or.inr rfl)) hne late hdated hfilled rfl).2
    (by decide +kernel)
  refine ⟨⟨hdated, hfilled, rfl⟩, ⟨s', hrun, ?_⟩, hnothing⟩
  rw [hmoved.arrived]
  decide +kernel

end Session

end DayJournal

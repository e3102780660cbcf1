import DayJournal.Proofs.Performing
import DayJournal.Proofs.ReplacedContent
import DayJournal.Proofs.TidiedLines

/-!
# Changes in place

An entry that keeps its content while its marker changes stays on its line, in every document.  The
whole day is written again, without the indentation of its entries, and is read as it was but for
the one entry (`exists_inPlace`): no line moves, no other day reads otherwise, and the headers and
what stands above them stay.  So a task is ticked and opened again by turns, and nothing else shows
a trace of it.
-/

namespace DayJournal

open Text Document

/-! ## Lines with one entry changed -/

theorem Line.Steady.set_content {ls : List Line} (h : Steady ls) {i : Nat} {e e' : Entry}
    (hold : ls[i]? = some (entry e)) (hcontent : e'.content = e.content)
    (hread : (entry e').Rereads) : Steady (ls.set i (entry e')) := by
  refine ⟨fun l hl => ?_, fun l hl => ?_⟩
  · rcases List.mem_or_eq_of_mem_set hl with hl | rfl
    · exact h.rereads l hl
    · exact hread
  · rw [List.getLast?_eq_getElem?, List.length_set] at hl
    by_cases hi : i = ls.length - 1
    · rw [← hi, List.getElem?_set_self (List.getElem?_eq_some_iff.1 hold).1] at hl
      cases hl
      -- The old entry was on the last line, so nothing blank is at the end of its content.
      have hlast : ls.getLast? = some (entry e) := by rw [List.getLast?_eq_getElem?, ← hi, hold]
      obtain ⟨htrim, hfilled⟩ := Entry.content_of_trimmed_line (h.last (entry e) hlast).1
      rw [← hcontent] at htrim hfilled
      exact ⟨Entry.trimEnd_line_of_content htrim hfilled, text_entry_ne_nil e'⟩
    · rw [List.getElem?_set_ne hi, ← List.getLast?_eq_getElem?] at hl
      exact h.last l hl

namespace Entry

variable {e : Entry}

theorem content_toggled (e : Entry) : e.toggled.content = e.content := by
  obtain ⟨kind, content, completed⟩ := e
  cases kind <;> rfl

theorem toggled_of_task (h : e.kind = .task) :
    e.toggled = { e with completed := !e.completed } := by
  rw [toggled, h]

theorem toggled_of_ne_task (h : e.kind ≠ .task) : e.toggled = e := by
  obtain ⟨kind, content, completed⟩ := e
  cases kind with
  | task => exact absurd rfl h
  | note => rfl
  | event => rfl

end Entry

theorem Line.Rereads.toggled {e : Entry} (h : (entry e).Rereads) : (entry e.toggled).Rereads := by
  by_cases htask : e.kind = .task
  · have hnl : '\n' ∉ e.content := fun hmem => h.1 (List.mem_append_right _ hmem)
    have hone : (entry { e with completed := !e.completed }).Headless := headless_entry hnl
    rw [Entry.toggled_of_task htask]
    exact rereads_entry_iff.2
      ⟨hone.1, fun _ => htask, fun hnote => by rw [htask] at hnote; cases hnote⟩
  · rwa [Entry.toggled_of_ne_task htask]

/-! ## Days and headers -/

namespace Document

/-- The documents have the same headers in the same order, and the same text above the first of
them, up to blanks at the ends. -/
structure SameFrame (t u : Text) : Prop where
  preamble : (outline t).preamble = (outline u).preamble
  headers : (outline t).sections.map (fun s => (s.day, s.header)) =
    (outline u).sections.map fun s => (s.day, s.header)

variable {t u v content : Text} {day : Date}

theorem SameFrame.trans (h : SameFrame t u) (h' : SameFrame u v) : SameFrame t v :=
  ⟨h.preamble.trans h'.preamble, h.headers.trans h'.headers⟩

theorem dayText_updateDay_in_place (hday : dayText t day ≠ []) (headless : Headless content)
    (hfilled : isBlankText content = false) :
    dayText (updateDay t day content) day = trimEnd content ∧
      (∀ other, other ≠ day → dayText (updateDay t day content) other = dayText t other) ∧
      SameFrame t (updateDay t day content) := by
  rcases exists_split_at_day (outline t).sections day with
    ⟨before, s, after, h, hbefore, hs⟩ | hnone
  · have hout := outline_updateDay_of_mem headless h hbefore hs
    rw [if_neg (by simp [hfilled])] at hout
    refine ⟨dayText_of_split hout hbefore hs, fun other hother => ?_, ?_, ?_⟩
    · have hne : s.day ≠ other := fun heq => hother (heq.symm.trans hs)
      rw [dayText_eq, dayText_eq, hout, h, find?_append_cons_of_ne before after hne]
      simp only [find?_append_cons_of_ne (s := { s with body := trimEnd content }) before after hne]
    · rw [hout]
    · rw [hout, h]
      simp
  · exact absurd (dayText_of_not_mem hnone) hday

end Document

/-! ## The journal -/

namespace Journal

variable {j j' : Journal} {place : Address} {e : Entry} {f : Entry → Entry}

/-- The entry at a place has become another one, and nothing else of the journal has changed. -/
structure InPlace (j : Journal) (place : Address) (e : Entry) (j' : Journal) : Prop where
  lines : j'.lines place.day = (j.lines place.day).set place.line.toNat (.entry e)
  elsewhere : SameElsewhere place.day j j'
  frame : SameFrame j.text j'.text

theorem InPlace.entry (h : InPlace j place e j') {old : Entry} (hold : j.entry? place = some old) :
    j'.entry? place = some e := by
  rw [Journal.entry?, h.lines, Line.entryAt_set hold, if_pos rfl]

theorem InPlace.lines_of_same (h : InPlace j place e j') (he : j.entry? place = some e)
    (day : Date) : j'.lines day = j.lines day := by
  obtain ⟨-, hline⟩ := Line.getElem_of_entryAt he
  obtain ⟨hlt, hget⟩ := List.getElem?_eq_some_iff.1 hline
  by_cases hday : day = place.day
  · rw [hday, h.lines, ← hget, List.set_getElem_self]
  · exact h.elsewhere day hday

theorem InPlace.trans {j'' : Journal} {e' : Entry} (h : InPlace j place e j')
    (h' : InPlace j' place e' j'') : InPlace j place e' j'' where
  lines := by rw [h'.lines, h.lines, List.set_set]
  elsewhere day hday := (h'.elsewhere day hday).trans (h.elsewhere day hday)
  frame := h.frame.trans h'.frame

theorem exists_inPlace (he : j.entry? place = some e) (hcontent : (f e).content = e.content)
    (hread : (Line.entry (f e)).Rereads) (hwrites : j.writesLeft ≠ some 0) :
    ∃ j', j.changeEntry place f = .ok (some (f e), j') ∧ InPlace j place (f e) j' := by
  obtain ⟨hindex, hline⟩ := Line.getElem_of_entryAt he
  obtain ⟨hlt, -⟩ := List.getElem?_eq_some_iff.1 hline
  let ls := (j.lines place.day).set place.line.toNat (.entry (f e))
  have hsteady : Line.Steady ls :=
    (Line.steady_readAll (trimEnd_dayText j.text place.day)).set_content hline hcontent hread
  have headless : Headless (Line.writeAll ls) := by
    apply Line.headless_writeAll
    intro l hl
    rcases List.mem_or_eq_of_mem_set hl with hl | rfl
    · exact headless_of_mem_dayLines hl
    · exact Line.headless_entry (by rw [hcontent]; exact content_of_entry he)
  have hfilled : isBlankText (Line.writeAll ls) = false :=
    Line.isBlankText_writeAll_of_entry (List.mem_of_getElem? (List.getElem?_set_self hlt))
  obtain ⟨j', hsave⟩ := exists_save hwrites (updateDay j.text place.day (Line.writeAll ls))
  have htext : j'.text = updateDay j.text place.day (Line.writeAll ls) := text_of_save hsave
  obtain ⟨hself, helsewhere, hframe⟩ :=
    dayText_updateDay_in_place (dayText_ne_nil_of_entryIn he) headless hfilled
  refine ⟨j', ?_, ?_, fun other hother => ?_, ?_⟩
  · have hfound : Line.entryAt? (j.lines place.day) place.line = some e := he
    simp only [changeEntry, hfound]
    show (j.save (updateDay j.text place.day (Line.writeAll ls))).map _ = _
    rw [hsave]
    rfl
  · rw [Journal.lines, dayLines, htext, hself, hsteady.trimEnd_writeAll, hsteady.readAll_writeAll]
  · rw [Journal.lines, Journal.lines, dayLines, dayLines, htext, helsewhere other hother]
  · rw [htext]
    exact hframe

/-! ## Tasks that are ticked and opened -/

theorem exists_toggled (he : j.entry? place = some e) (hwrites : j.writesLeft ≠ some 0) :
    ∃ j', j.changeEntry place Entry.toggled = .ok (some e.toggled, j') ∧
      InPlace j place e.toggled j' := by
  have hread : (Line.entry e).Rereads := Line.rereads_of_mem_readAll (Line.entry_mem_of_entryAt he)
  exact exists_inPlace he e.content_toggled hread.toggled hwrites

/-- A toggle at a place flips the task there and changes nothing else, and a second one makes the
lines of every day what they were.  At a note or an event it writes the journal, but no line of it
is read otherwise, and where there is no entry nothing is written. -/
theorem toggle_in_place (hwrites : j.writesLeft ≠ some 0) :
    (∀ e, j.entry? place = some e → e.kind = .task → ∃ j',
      j.changeEntry place Entry.toggled = .ok (some { e with completed := !e.completed }, j') ∧
      InPlace j place { e with completed := !e.completed } j' ∧
      (j'.writesLeft ≠ some 0 → ∃ j'', j'.changeEntry place Entry.toggled = .ok (some e, j'') ∧
        ∀ day, j''.lines day = j.lines day)) ∧
    (∀ e, j.entry? place = some e → e.kind ≠ .task → e.completed = false ∧ ∃ j',
      j.changeEntry place Entry.toggled = .ok (some e, j') ∧ ∀ day, j'.lines day = j.lines day) ∧
    (j.entry? place = none → j.changeEntry place Entry.toggled = .ok (none, j)) := by
  refine ⟨fun e he htask => ?_, fun e he hkind => ?_, fun hnone => ?_⟩
  · obtain ⟨j', hchange, hplace⟩ := exists_toggled he hwrites
    refine ⟨j', ?_, ?_, fun hwrites' => ?_⟩
    · rw [hchange, Entry.toggled_of_task htask]
    · rw [← Entry.toggled_of_task htask]
      exact hplace
    · obtain ⟨j'', hback, hplace'⟩ := exists_toggled (hplace.entry he) hwrites'
      rw [Entry.toggled_involutive] at hback hplace'
      exact ⟨j'', hback, (hplace.trans hplace').lines_of_same he⟩
  · obtain ⟨j', hchange, hplace⟩ := exists_toggled he hwrites
    rw [Entry.toggled_of_ne_task hkind] at hchange hplace
    obtain ⟨-, l, -, hl⟩ := exists_line_of_entryIn he
    have hopen : e.completed = false := by
      rw [Bool.eq_false_iff]
      exact fun hcompleted => hkind (Entry.completed_of_ofLine hl hcompleted)
    exact ⟨hopen, j', hchange, hplace.lines_of_same he⟩
  · have hfound : Line.entryAt? (j.lines place.day) place.line = none := hnone
    simp only [changeEntry, hfound]

/-- A task below a blank line and between lines that are no entries, on a day that comes twice. -/
theorem toggle_in_place_indented :
    let day : Date := ⟨2026, 1, 5, by decide⟩
    let j : Journal :=
      ⟨"# 2026/01/09\n* z\n# 2026/01/05 \n\n  - [ ] a\n b\n# 2026/01/05\n- c".toList, none⟩
    (j.writesLeft ≠ some 0 ∧ j.entry? ⟨day, 1⟩ = some ⟨.task, "a".toList, false⟩) ∧
      ∃ j', j.changeEntry ⟨day, 1⟩ Entry.toggled = .ok (some ⟨.task, "a".toList, true⟩, j') ∧
        j'.lines day = [.plain [], .entry ⟨.task, "a".toList, true⟩, .plain " b".toList] ∧
        SameFrame j.text j'.text ∧
        (j'.writesLeft ≠ some 0 → ∃ j'',
          j'.changeEntry ⟨day, 1⟩ Entry.toggled = .ok (some ⟨.task, "a".toList, false⟩, j'') ∧
            ∀ day, j''.lines day = j.lines day) := by
  intro day j
  have hwrites : j.writesLeft ≠ some 0 := by decide
  have he : j.entry? ⟨day, 1⟩ = some ⟨.task, "a".toList, false⟩ := by decide +kernel
  obtain ⟨j', hchange, hplace, hback⟩ := (toggle_in_place hwrites).1 _ he rfl
  refine ⟨⟨hwrites, he⟩, j', hchange, hplace.lines.trans ?_, hplace.frame, hback⟩
  decide +kernel

end Journal

end DayJournal

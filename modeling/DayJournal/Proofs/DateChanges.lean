import DayJournal.Proofs.Effects
import DayJournal.Proofs.RereadEntries
import DayJournal.Proofs.SavedMarks

/-!
# Changes of the date of an entry

Which day an entry is meant for once its date has been put off by a day or set to today.  Both
changes look at the entry from today, and both may leave out the year of the date mark that they
write, but the mark is read from the day the entry stands on.  The two statements say exactly when
the day that is read is the day that was meant.
-/

namespace DayJournal

open Text Document Change DateMark

/-! ## Changing one entry -/

theorem Entry.tokens_line (e : Entry) : tokens e.line = tokens e.content := by
  have hmarker : ∀ shape : Text, tokens shape = [] →
      tokens (shape ++ ' ' :: e.content) = tokens e.content := by
    intro shape hshape
    rw [tokens, stopsAtBlank_pattern.findAll.append _ _ _ (by decide)]
    exact congrArg (· ++ tokens e.content) hshape
  obtain ⟨kind, content, completed⟩ := e
  cases kind with
  | task =>
      cases completed with
      | false => exact hmarker "- [ ]".toList rfl
      | true => exact hmarker "- [x]".toList rfl
  | event => exact hmarker "*".toList rfl
  | note => exact hmarker "-".toList rfl

/-- The change is made at a place and leads to a content, and the entry that is read at the place
from then on has the dates of that content, unless a favourite breaks its line. -/
def DateChange.Writes (change : DateChange) (w : Workspace) (place : Address) (new : Text) : Prop :=
  ∃ reverse w', (Action.changeDates change [place]).perform.run w = (.ok reverse, w') ∧
    w'.journal.text = mapEntry w.journal.text place (fun e => { e with content := new }) ∧
    ((∀ f ∈ w.settings.favorites, '\n' ∉ f.2) →
      ∃ e, w'.journal.entry? place = some e ∧
        ∀ home, targetDate? e.content home = targetDate? new home)

section Writes

variable {change : DateChange} {w : Workspace} {place : Address} {e : Entry} {t new : Text}
  (he : w.journal.entry? place = some e) (ht : change.transform w.today e.content = .ok (some t))
  (hnew : w.normalize t = .ok new)
include he ht hnew

theorem DateChange.run_perform (hwritable : w.journal.writesLeft ≠ some 0) :
    ∃ reverse w', (Action.changeDates change [place]).perform.run w = (.ok reverse, w') ∧
      w'.journal.text = mapEntry w.journal.text place (fun e => { e with content := new }) := by
  obtain ⟨w', hw'⟩ :=
    Workspace.exists_changeEntry hwritable place fun e => { e with content := new }
  have hcontents : (contents (fun w => change.transform w.today) Change.saveContent [place]).run w =
      (.ok [⟨place, e.content⟩], w') := run_contents he ht (run_saveContent hnew hw')
  refine ⟨_, w', by rw [Action.perform, run_bind_ok hcontents]; rfl, ?_⟩
  exact (changeEntry_eq_ok (k := ⟨w.settings, w.today⟩) ⟨rfl, rfl⟩ hw').2

theorem DateChange.entry_of_mapEntry (hmark : tokens new ≠ [])
    (hfavorites : ∀ f ∈ w.settings.favorites, '\n' ∉ f.2) :
    ∃ e', entryIn (mapEntry w.journal.text place fun e => { e with content := new }) place =
        some e' ∧ ∀ home, targetDate? e'.content home = targetDate? new home := by
  have hnl := Workspace.newline_not_mem_normalize hfavorites
    (DateChange.newline_not_mem_transform (Journal.content_of_entry he) ht) hnew
  have htrim := Workspace.trimEnd_of_normalize hnew
  have hblank : isBlankText new = false := by
    rw [Bool.eq_false_iff]
    exact fun hblank => hmark (stopsAtBlank_pattern.findAll.append_of_blank hblank [])
  let written : Entry := { e with content := new }
  have hline : trimEnd written.line = written.line :=
    Entry.trimEnd_line_of_content htrim hblank
  obtain ⟨e', he', hsame⟩ := written.exists_ofLine_line
  refine ⟨e', ?_, fun home => ?_⟩
  · rw [mapEntry_of_some he, entryIn_putEntry_of_line he hnl hline, he']
  · rw [targetDate?_eq, targetDate?_eq, ← e'.tokens_line, hsame, written.tokens_line]

theorem DateChange.writes (hwritable : w.journal.writesLeft ≠ some 0) (hmark : tokens new ≠ []) :
    change.Writes w place new := by
  obtain ⟨reverse, w', hrun, htext⟩ := DateChange.run_perform he ht hnew hwritable
  refine ⟨reverse, w', hrun, htext, fun hfavorites => ?_⟩
  obtain ⟨e', he', htarget⟩ := DateChange.entry_of_mapEntry he ht hnew hmark hfavorites
  rw [← htext] at he'
  exact ⟨e', he', htarget⟩

end Writes

/-! ## Setting the date to today -/

variable {w : Workspace} {place : Address} {e : Entry}

/-- An entry whose date is set to today is meant for today just when today is upcoming for who
looks from the day of the entry, if the text before its date mark is not given a date mark when it
is saved; otherwise that mark counts. -/
theorem bringToToday_target (he : w.journal.entry? place = some e)
    (hwritable : w.journal.writesLeft ≠ some 0) (hfirst : 2000 ≤ w.today.year)
    (hlast : w.today.year ≤ 2099) :
    ∃ lead new, DateChange.bringToToday.Writes w place new ∧
      w.normalize (DateMark.lead e.content) = .ok lead ∧
      (targetDate? new place.day = some w.today ↔
        if tokens lead = [] then Date.Upcoming place.day w.today
        else targetDate? lead place.day = some w.today) := by
  obtain ⟨new, hnew⟩ : ∃ new, w.normalize (bringTo w.today e.content) = .ok new :=
    ⟨_, w.normalize_eq_ok_iff.2 ⟨readable (by omega) (by omega) _, rfl⟩⟩
  obtain ⟨lead, hlead, hmark, htarget⟩ := Workspace.targetDate?_of_isMarked
    (isRun_monthDay w.today) (isMarked_bringTo w.today e.content) hnew
  refine ⟨lead, new, DateChange.writes he rfl hnew hwritable hmark, hlead, ?_⟩
  rw [htarget]
  split
  · rw [Date.absolute?_monthDay, Date.yearless?_eq_some_iff]
    simp
  · rfl

theorem bringToToday_target_of_same_day :
    ∃ lead new, DateChange.bringToToday.Writes
        (Workspace.start ⟨"# 2026/01/05\n- [ ] a @01/02/26\n".toList, none⟩ {}
          ⟨2026, 1, 5, by decide⟩) ⟨⟨2026, 1, 5, by decide⟩, 0⟩ new ∧
      Workspace.normalize (DateMark.lead "a @01/02/26".toList)
        (Workspace.start ⟨"# 2026/01/05\n- [ ] a @01/02/26\n".toList, none⟩ {}
          ⟨2026, 1, 5, by decide⟩) = .ok lead ∧
      (targetDate? new ⟨2026, 1, 5, by decide⟩ = some ⟨2026, 1, 5, by decide⟩ ↔
        if tokens lead = [] then Date.Upcoming ⟨2026, 1, 5, by decide⟩ ⟨2026, 1, 5, by decide⟩
        else targetDate? lead ⟨2026, 1, 5, by decide⟩ = some ⟨2026, 1, 5, by decide⟩) :=
  bringToToday_target (e := ⟨.task, "a @01/02/26".toList, false⟩) (by decide +kernel)
    (by decide +kernel) (by decide) (by decide)

/-- On a day that is still to come, the date of today is read as a day of the year to come. -/
theorem bringToToday_on_later_day :
    ((Action.changeDates .bringToToday [⟨⟨2026, 2, 1, by decide⟩, 0⟩]).perform.run
        (Workspace.start ⟨"# 2026/02/01\n- [ ] a\n".toList, none⟩ {}
          ⟨2026, 1, 15, by decide⟩)).2.journal.text = "# 2026/02/01\n- [ ] a @01/15\n".toList ∧
      targetDate? "a @01/15".toList ⟨2026, 2, 1, by decide⟩ = some ⟨2027, 1, 15, by decide⟩ := by
  decide +kernel

/-! ## Putting the date off -/

theorem exists_run_write (d today : Date) :
    ∃ run, write d today = '@' :: run ∧ IsRun run ∧
      ∀ home target, Date.absolute? .ahead home run = some target ↔
        target.month = d.month ∧ target.day = d.day ∧
          if Date.Upcoming today d then Date.Upcoming home target
          else target.year = d.year % 100 + 2000 := by
  have hshort : Date.absolute? .ahead today d.monthDay = some d ↔ Date.Upcoming today d :=
    Date.absolute?_monthDay_eq_some_iff
  by_cases hupcoming : Date.Upcoming today d
  · refine ⟨d.monthDay, if_pos (hshort.2 hupcoming), isRun_monthDay d, fun home target => ?_⟩
    rw [Date.absolute?_monthDay, Date.yearless?_eq_some_iff, if_pos hupcoming]
  · refine ⟨d.monthDay ++ '/' :: twoDigits d.year, if_neg (hshort.not.2 hupcoming),
      isRun_monthDayYear d, fun home target => ?_⟩
    rw [Date.absolute?_monthDayYear, Date.ofNumbers?_eq_some_iff, if_neg hupcoming]
    exact ⟨fun ⟨hyear, hmonth, hday⟩ => ⟨hmonth, hday, hyear⟩,
      fun ⟨hmonth, hday, hyear⟩ => ⟨hyear, hmonth, hday⟩⟩

/-- An entry that is meant for a day and is put off is meant for the day after just when that day is
what the new mark says to a reader on the day of the entry.  The mark is written for the day after
the one that is read today, without its year if it is upcoming today. -/
theorem defer_target {T : Date} {deferred new : Text} (he : w.journal.entry? place = some e)
    (hwritable : w.journal.writesLeft ≠ some 0)
    (hT : targetDate? e.content place.day = some T) (hlast : T.year ≤ 2099)
    (hdefer : defer e.content w.today = .ok deferred) (hnew : w.normalize deferred = .ok new) :
    DateChange.defer.Writes w place new ∧
      ∃ lead T' next, w.normalize (DateMark.lead e.content) = .ok lead ∧ T.next? = some T' ∧
        ((targetDate? e.content w.today).getD w.today).next? = some next ∧
        (targetDate? new place.day = some T' ↔
          if tokens lead = [] then
            T'.month = next.month ∧ T'.day = next.day ∧
              if Date.Upcoming w.today next then Date.Upcoming place.day T'
              else T'.year = next.year % 100 + 2000
          else targetDate? lead place.day = some T') := by
  have hmark : tokens e.content ≠ [] := by
    intro hnone
    rw [targetDate?_eq, hnone] at hT
    cases hT
  obtain ⟨T', hT', -⟩ := Date.exists_next? (show T.year < 9999 by omega)
  obtain ⟨next, hnext, hmarked⟩ := isMarked_defer hmark hdefer
  obtain ⟨run, hwrite, hrun, hread⟩ := exists_run_write next w.today
  rw [hwrite] at hmarked
  obtain ⟨lead, hlead, hnewMark, htarget⟩ :=
    Workspace.targetDate?_of_isMarked hrun hmarked hnew
  have htransform : DateChange.defer.transform w.today e.content = .ok (some deferred) :=
    map_eq_ok.2 ⟨deferred, hdefer, rfl⟩
  refine ⟨DateChange.writes he htransform hnew hwritable hnewMark, lead, T', next, hlead, hT',
    hnext, ?_⟩
  rw [htarget]
  split
  · exact hread place.day T'
  · rfl

theorem defer_target_of_tomorrow :
    DateChange.defer.Writes
        (Workspace.start ⟨"# 2026/01/05\n- [ ] a @01/06\n".toList, none⟩ {}
          ⟨2026, 1, 5, by decide⟩) ⟨⟨2026, 1, 5, by decide⟩, 0⟩ "a @01/07".toList ∧
      ∃ lead T' next,
        Workspace.normalize (DateMark.lead "a @01/06".toList)
          (Workspace.start ⟨"# 2026/01/05\n- [ ] a @01/06\n".toList, none⟩ {}
            ⟨2026, 1, 5, by decide⟩) = .ok lead ∧
        Date.next? ⟨2026, 1, 6, by decide⟩ = some T' ∧
        ((targetDate? "a @01/06".toList ⟨2026, 1, 5, by decide⟩).getD
          ⟨2026, 1, 5, by decide⟩).next? = some next ∧
        (targetDate? "a @01/07".toList ⟨2026, 1, 5, by decide⟩ = some T' ↔
          if tokens lead = [] then
            T'.month = next.month ∧ T'.day = next.day ∧
              if Date.Upcoming ⟨2026, 1, 5, by decide⟩ next then
                Date.Upcoming ⟨2026, 1, 5, by decide⟩ T'
              else T'.year = next.year % 100 + 2000
          else targetDate? lead ⟨2026, 1, 5, by decide⟩ = some T') :=
  defer_target (e := ⟨.task, "a @01/06".toList, false⟩) (T := ⟨2026, 1, 6, by decide⟩)
    (by decide +kernel) (by decide +kernel) (by decide +kernel) (by decide)
    (show defer _ _ = .ok "a @01/07".toList from eq_ok_of_toOption (by decide +kernel))
    (eq_ok_of_toOption (by decide +kernel))

/-- A date that is over is taken for one of the year to come when it is put off. -/
theorem defer_overdue :
    targetDate? "a @06/14".toList ⟨2026, 6, 1, by decide⟩ = some ⟨2026, 6, 14, by decide⟩ ∧
      ((Action.changeDates .defer [⟨⟨2026, 6, 1, by decide⟩, 0⟩]).perform.run
        (Workspace.start ⟨"# 2026/06/01\n- [ ] a @06/14\n".toList, none⟩ {}
          ⟨2026, 6, 15, by decide⟩)).2.journal.text = "# 2026/06/01\n- [ ] a @06/15/27\n".toList ∧
      targetDate? "a @06/15/27".toList ⟨2026, 6, 1, by decide⟩ = some ⟨2027, 6, 15, by decide⟩ := by
  decide +kernel

end DayJournal

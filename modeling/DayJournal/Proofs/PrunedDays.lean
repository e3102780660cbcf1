import DayJournal.Proofs.Reversal
import DayJournal.Proofs.TidiedLines

/-!
# Days that lose what is named

Deletions go from the last place up.  Each of them writes, trims and reads its day, so between them
the lines of a day are known only when they are tidied, and they are the old ones cut as often as
each is named (`Deletion.dayLines_run`).  Where the places differ nothing has moved above a place
when its turn comes: a day loses exactly the entries that are named on it, and a day of which none
is found keeps its text (`Action.delete_named`).  Where they do not, entries are lost that were not
named unless those are shielded.
-/

namespace DayJournal

open Text Document

namespace Document

variable {t : Text} {day : Date}

def Touched (t : Text) (places : List Address) (day : Date) : Prop :=
  ∃ place ∈ places, place.day = day ∧ (entryIn t place).isSome

theorem touched_concat (places : List Address) (place : Address) :
    Touched t (places ++ [place]) day ↔
      Touched t places day ∨ place.day = day ∧ (entryIn t place).isSome := by
  simp [Touched, or_and_right, exists_or]

end Document

namespace Deletion

variable {s : Deletion} {t : Text} {place : Address} {places : List Address}

theorem dayLines_step (h : Dated s.text) (hfirm : ∀ l ∈ dayLines s.text place.day, l.Firm)
    (day : Date) :
    dayLines (s.step place).text day =
      if place.day = day ∧ 0 ≤ place.line then
        Line.tidied (Line.cut (dayLines s.text day) place.line.toNat)
      else dayLines s.text day := by
  cases he : entryIn s.text place with
  | none =>
      rw [step_of_none he]
      split
      · next hplace =>
        obtain ⟨rfl, hindex⟩ := hplace
        rw [Line.cut_of_none hindex he,
          Line.tidied_of_steady hfirm (Line.steady_readAll (trimEnd_dayText s.text place.day))]
      · rfl
  | some e =>
      rw [text_step he]
      by_cases hday : place.day = day
      · subst hday
        rw [if_pos ⟨rfl, (Line.getElem_of_entryAt he).1⟩, h.dayLines_removeLine_self hfirm he]
      · rw [if_neg fun hplace => hday hplace.1, dayLines, h.dayText_removeLine he,
          if_neg (Ne.symm hday)]
        rfl

theorem step_elsewhere (h : Dated s.text) {day : Date}
    (hnot : ¬(place.day = day ∧ (entryIn s.text place).isSome)) :
    dayText (s.step place).text day = dayText s.text day ∧
      (day ∈ Document.days (s.step place).text ↔ day ∈ Document.days s.text) := by
  cases he : entryIn s.text place with
  | none =>
      rw [step_of_none he]
      exact ⟨rfl, Iff.rfl⟩
  | some e =>
      have hday : day ≠ place.day := fun hday => hnot ⟨hday.symm, by rw [he]; rfl⟩
      rw [text_step he, h.dayText_removeLine he, if_neg hday, removeLine,
        h.mem_days_setLines (h.late_of_entryIn he) (headless_remove s.text place), if_neg hday]
      exact ⟨rfl, Iff.rfl⟩

/-- The lines of each day are the ones that are left when the old ones are cut as often as they are
named, tidied. -/
theorem dayLines_run (h : Dated t) (hfilled : Filled t)
    (hordered : places.Pairwise fun a b => b.key ≤ a.key) (day : Date) :
    dayLines ((Deletion.mk t [] []).run places).text day =
      Line.tidied (Line.prune (timesNamed places day) (dayLines t day)) := by
  induction places using List.reverseRecOn generalizing day with
  | nil =>
      rw [show timesNamed [] day = fun _ => 0 from rfl, Line.prune_zero,
        Line.tidied_of_steady (hfilled.firm day) (Line.steady_readAll (trimEnd_dayText t day))]
      rfl
  | append_singleton places place ih =>
      obtain ⟨hinit, -, hlast⟩ := List.pairwise_append.1 hordered
      have hfirm : ∀ l ∈ dayLines ((Deletion.mk t [] []).run places).text place.day, l.Firm := by
        rw [ih hinit]
        exact Line.firm_tidied (hfilled.firm_prune _ _)
      rw [run_concat, dayLines_step (from_run h places).dated hfirm, ih hinit, timesNamed_concat]
      split
      · next hplace =>
        obtain ⟨rfl, hindex⟩ := hplace
        -- No line above the place has had its turn.
        have hfirst : ∀ j < place.line.toNat, timesNamed places place.day j = 0 := by
          intro j hj
          refine List.count_eq_zero.2 fun hmem => ?_
          have hle := (Address.key_le_key_iff _ _ _).1 (hlast _ hmem place (by simp))
          omega
        rw [Line.prune_update hfirst, Line.tidied_cut (hfilled.firm_prune _ _)]
      · rfl

/-- Deletions leave the days alone on which none of them finds an entry.  Of the others they write
the lines that are left, if any are. -/
structure Prunes (t : Text) (places : List Address) (u : Text) : Prop where
  touched : ∀ day, Touched t places day → dayText u day = Line.writeAll (dayLines u day) ∧
    (day ∈ Document.days u ↔ dayText u day ≠ [])
  untouched : ∀ day, ¬Touched t places day → dayText u day = dayText t day ∧
    (day ∈ Document.days u ↔ day ∈ Document.days t)

theorem Prunes.step (h : Prunes t places s.text) (hdated : Dated s.text)
    (hfirm : ∀ l ∈ dayLines s.text place.day, l.Firm)
    (hheld : (entryIn s.text place).isSome = (entryIn t place).isSome) :
    Prunes t (places ++ [place]) (s.step place).text := by
  refine ⟨fun day htouched => ?_, fun day hnot => ?_⟩
  · by_cases hplace : place.day = day ∧ (entryIn s.text place).isSome
    · obtain ⟨rfl, hsome⟩ := hplace
      obtain ⟨e, he⟩ := Option.isSome_iff_exists.1 hsome
      rw [text_step he, hdated.dayLines_removeLine_self hfirm he]
      refine ⟨hdated.dayText_removeLine_self hfirm he, ?_⟩
      rw [hdated.dayText_removeLine he, if_pos rfl, removeLine,
        hdated.mem_days_setLines (hdated.late_of_entryIn he) (headless_remove s.text place),
        if_pos rfl]
    · obtain ⟨htext, hdays⟩ := step_elsewhere hdated hplace
      rw [touched_concat, ← hheld] at htouched
      rw [htext, hdays, dayLines, htext]
      exact h.touched day (htouched.resolve_right hplace)
  · rw [touched_concat, ← hheld, not_or] at hnot
    obtain ⟨htext, hdays⟩ := step_elsewhere hdated hnot.2
    rw [htext, hdays]
    exact h.untouched day hnot.1

theorem prunes_run (h : Dated t) (hfilled : Filled t)
    (hordered : places.Pairwise fun a b => b.key < a.key) :
    Prunes t places ((Deletion.mk t [] []).run places).text := by
  induction places using List.reverseRecOn with
  | nil => exact ⟨fun day hday => by simp [Touched] at hday, fun _ _ => ⟨rfl, Iff.rfl⟩⟩
  | append_singleton places place ih =>
      obtain ⟨hinit, -, hlast⟩ := List.pairwise_append.1 hordered
      have hlines := dayLines_run h hfilled (hinit.imp le_of_lt) place.day
      -- Nothing up to the place has had its turn, so it holds an entry just when it did.
      have hfirst : ∀ j : Nat, (j : Int) ≤ place.line → timesNamed places place.day j = 0 := by
        refine fun j hj => List.count_eq_zero.2 fun hmem => ?_
        exact (hlast _ hmem place (by simp)).not_ge ((Address.key_le_key_iff _ _ _).2 hj)
      have hheld : (entryIn ((Deletion.mk t [] []).run places).text place).isSome =
          (entryIn t place).isSome := by
        rw [entryIn, entryIn, Line.entryAt?, Line.entryAt?]
        split
        · rw [hlines, Line.isSome_entry_tidied, Line.getElem?_prune fun j hj => hfirst j (by omega)]
        · rfl
      rw [run_concat]
      refine (ih hinit).step (from_run h places).dated ?_ hheld
      rw [hlines]
      exact Line.firm_tidied (hfilled.firm_prune _ _)

end Deletion

/-! ## Plain documents -/

namespace PlainDocument

variable {t u : Text} {day : Date} {places : List Address}

theorem plain_of_mem_entriesOn {e : Entry} (h : PlainDocument t) (he : e ∈ entriesOn t day) :
    e.Plain := by
  obtain ⟨l, hl, hentry⟩ := List.mem_filterMap.1 he
  cases l with
  | entry e' =>
      cases hentry
      exact (h.plain_dayLines _ hl).entry e rfl
  | plain s => cases hentry

theorem filled (h : PlainDocument t) : Filled t := by
  intro e he
  obtain ⟨day, -, he⟩ := List.mem_flatMap.1 he
  exact (h.plain_of_mem_entriesOn he).content.opens.not_blank

theorem map_trimmed {es : List Entry} (h : PlainDocument t) (hes : es.Sublist (entriesOn t day)) :
    es.map Entry.trimmed = es := by
  have htrimmed : ∀ e ∈ es, e.trimmed = e := by
    intro e he
    rw [Entry.trimmed, (h.plain_of_mem_entriesOn (hes.subset he)).content.no_blank_behind]
  rw [List.map_congr_left htrimmed, List.map_id']

theorem entriesOn_run (h : PlainDocument t) (day : Date)
    (hordered : places.Pairwise fun a b => b.key ≤ a.key) :
    entriesOn ((Deletion.mk t [] []).run places).text day =
      (Line.prune (timesNamed places day) (dayLines t day)).filterMap Line.entry? := by
  have hplain := Deletion.plain_run (s := ⟨t, [], []⟩) h places
  have hleft := (Line.prune_sublist (timesNamed places day) (dayLines t day)).filterMap Line.entry?
  rw [← hplain.map_trimmed (.refl _), ← h.map_trimmed hleft, entriesOn,
    Deletion.dayLines_run h.canonical.dated h.filled hordered, Line.map_trimmed_entries_tidied]

/-- A deletion leaves no other entries than those that were not named, and it leaves all of them
just when they are shielded. -/
theorem entries_deleted (h : PlainDocument t) (places : List Address) {u : Text}
    (hu : u = ((Deletion.mk t [] []).run (Address.lastFirst places)).text) :
    (∀ day, (entriesOn u day).Sublist (entriesSpared places t day)) ∧
      ((∀ day, entriesOn u day = entriesSpared places t day) ↔ Shielded places t) := by
  have hentries : ∀ day, entriesOn u day =
      (Line.prune (timesNamed places day) (dayLines t day)).filterMap Line.entry? := by
    intro day
    rw [hu, h.entriesOn_run day (Address.pairwise_lastFirst places), timesNamed_lastFirst]
  refine ⟨fun day => ?_, forall_congr' fun day => ?_⟩
  · rw [hentries]
    exact (Line.prune_sublist_spare _ _).filterMap Line.entry?
  · rw [hentries]
    exact Line.entries_prune_eq_iff _ _

end PlainDocument

/-! ## The action -/

namespace Action

/-- Deletions at places that differ take from each day the entries at the places that are named.  A
day where one of them held an entry has the text of the lines that stay, without blanks at its end,
and has no section if nothing else is left; every other day has the text that it had. -/
theorem delete_named {w : Workspace} {places : List Address} (hdated : Dated w.journal.text)
    (hfilled : Filled w.journal.text) (hdistinct : places.Nodup)
    (hwrites : w.journal.writesLeft = none) :
    ∃ back w', (delete places).perform.run w = (.ok back, w') ∧ ∀ day,
      (Touched w.journal.text places day →
        dayText w'.journal.text day = trimEnd (Line.writeAll
          (Line.spare (timesNamed places day) (dayLines w.journal.text day))) ∧
        (day ∈ days w'.journal.text ↔ dayText w'.journal.text day ≠ [])) ∧
      (¬Touched w.journal.text places day →
        dayText w'.journal.text day = dayText w.journal.text day ∧
        (day ∈ days w'.journal.text ↔ day ∈ days w.journal.text)) := by
  have hprunes := Deletion.prunes_run hdated hfilled (Address.pairwise_lastFirst_of_nodup hdistinct)
  have htouched : ∀ day, Touched w.journal.text (Address.lastFirst places) day ↔
      Touched w.journal.text places day := by
    intro day
    simp only [Touched, Address.mem_lastFirst]
  obtain ⟨w', hrun, -, htext, -⟩ := (leads_delete (k := ⟨w.settings, w.today⟩) places
    w.journal.text).exists_run (goes_delete places) ⟨rfl, rfl⟩ rfl hwrites
  refine ⟨_, w', hrun, ?_⟩
  rw [htext]
  refine fun day => ⟨fun hday => ?_, fun hday => ?_⟩
  · obtain ⟨hwritten, hsection⟩ := hprunes.touched day ((htouched day).2 hday)
    refine ⟨?_, hsection⟩
    rw [hwritten, Deletion.dayLines_run hdated hfilled (Address.pairwise_lastFirst places),
      Line.writeAll_tidied (hfilled.firm_prune _ _), timesNamed_lastFirst,
      Line.prune_eq_spare (shielded_of_nodup hdistinct _ day)]
  · exact hprunes.untouched day fun hday' => hday ((htouched day).1 hday')

/-- Of one day two entries go and the blank line that comes last then, of another day all there is;
one place holds no entry. -/
theorem delete_named_on_two_days :
    let first : Date := ⟨2026, 1, 9, by decide⟩
    let second : Date := ⟨2026, 1, 5, by decide⟩
    let w := Workspace.start
      ⟨"# 2026/01/09\n  - [ ] a\n* b \n\n- c\n# 2026/01/05 Mon\n- d\n".toList, none⟩ {} first
    let places : List Address := [⟨first, 0⟩, ⟨second, 0⟩, ⟨first, 3⟩, ⟨first, 2⟩]
    (Dated w.journal.text ∧ Filled w.journal.text ∧ places.Nodup ∧ w.journal.writesLeft = none) ∧
      ∃ back w', (delete places).perform.run w = (.ok back, w') ∧
        dayText w'.journal.text first = "* b".toList ∧ second ∉ days w'.journal.text := by
  intro first second w places
  have hdated : Dated w.journal.text := ⟨by decide +kernel, by decide +kernel⟩
  have hfilled : ∀ e ∈ entries w.journal.text, isBlankText e.content = false := by decide +kernel
  have hdistinct : places.Nodup := by decide
  obtain ⟨back, w', hrun, hdays⟩ := delete_named hdated hfilled hdistinct rfl
  obtain ⟨hfirst, -⟩ := (hdays first).1 ⟨⟨first, 0⟩, by simp [places], rfl, by decide +kernel⟩
  obtain ⟨hsecond, hsection⟩ :=
    (hdays second).1 ⟨⟨second, 0⟩, by simp [places], rfl, by decide +kernel⟩
  refine ⟨⟨hdated, hfilled, hdistinct, rfl⟩, back, w', hrun, ?_, ?_⟩
  · rw [hfirst]
    decide +kernel
  · rw [hsection, hsecond, not_not]
    decide +kernel

end Action

end DayJournal

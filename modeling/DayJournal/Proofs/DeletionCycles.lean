import DayJournal.Proofs.HistorySteps
import DayJournal.Proofs.Reversal

/-!
# Deletions taken back and made again

A deletion reads nothing of a document but what its days read, so in documents that read alike it
deletes and remembers the same.  Taken back, it leaves a document that reads as the first one did;
made again from there, it comes to the same as before.  So in a dated document a deletion and its
reverse alternate between two readings, however often (`Session.alternate_delete`).
-/

namespace DayJournal

open Text Document Change

/-! ## Deletions from documents that read alike -/

namespace Deletion

/-- Deletions that have deleted and remembered the same and come to documents that read alike. -/
structure Alike (s s' : Deletion) : Prop where
  left : Dated s.text
  right : Dated s'.text
  text : ReadsAs s.text s'.text
  deleted : s.deleted = s'.deleted
  days : s.days = s'.days

variable {s s' : Deletion} {t u : Text} {places : List Address}

theorem Alike.step (h : Alike s s') (place : Address) : Alike (s.step place) (s'.step place) := by
  have hentry : entryIn s.text place = entryIn s'.text place := h.text.entryIn_eq place
  cases he : entryIn s.text place with
  | none => rwa [step_of_none he, step_of_none (hentry ▸ he)]
  | some e =>
      have he' : entryIn s'.text place = some e := hentry ▸ he
      have hremoved : ReadsAs (removeLine s.text place) (removeLine s'.text place) := by
        rw [removeLine, removeLine, h.text.dayLines_eq place.day]
        exact h.text.updateDay h.left h.right (h.left.late_of_entryIn he)
          (Line.headless_writeAll (headless_remove s'.text place))
      refine ⟨?_, ?_, ?_, ?_, ?_⟩
      · rw [text_step he]
        exact h.left.removeLine he
      · rw [text_step he']
        exact h.right.removeLine he'
      · rwa [text_step he, text_step he']
      · rw [Deletion.step, Deletion.step, he, he', h.deleted]
      · rw [Deletion.step, Deletion.step, he, he', h.days, h.text.dayText place.day]

theorem Alike.run (h : Alike s s') (places : List Address) :
    Alike (s.run places) (s'.run places) := by
  induction places generalizing s s' with
  | nil => exact h
  | cons place more ih => exact ih (h.step place)

def all (t : Text) (places : List Address) : Deletion :=
  (Deletion.mk t [] []).run (Address.lastFirst places)

theorem alike_all (ht : Dated t) (hu : Dated u) (h : ReadsAs u t) (places : List Address) :
    Alike (all u places) (all t places) := by
  have hstart : Alike ⟨u, [], []⟩ ⟨t, [], []⟩ := ⟨hu, ht, h, rfl, rfl⟩
  exact hstart.run _

theorem From.with_text (h : From t s) (hu : Dated u) (hread : ReadsAs u s.text) :
    From t { s with text := u } where
  dated := hu
  preamble := hread.preamble.trans h.preamble
  kept day hnot := (hread.dayText day).trans (h.kept day hnot)
  remembered := h.remembered

/-! ## The two states of a deletion -/

/-- The deletion is not made: the document reads as in the beginning, and the action would delete
the same entries. -/
structure Unmade (t : Text) (places : List Address) (a : Action) (u : Text) : Prop where
  dated : Dated u
  reads : ReadsAs u t
  action : ∃ places', a = .delete places' ∧ all t places' = all t places

/-- The deletion is made: the document reads as after it, and the action would take it back. -/
structure Made (t : Text) (places : List Address) (a : Action) (u : Text) : Prop where
  dated : Dated u
  reads : ReadsAs u (all t places).text
  action : a = .restoreDeleted (all t places).deleted (all t places).days

end Deletion

namespace Action

variable {k : Surroundings} {t u : Text} {places : List Address} {a : Action} {w : Workspace}
  {P Q : Action → Text → Prop}

/-- Where `P` holds of an action and a text, the action can be performed, and `Q` holds of the
action that it gives and the text that it leaves. -/
def Leaves (k : Surroundings) (P Q : Action → Text → Prop) : Prop :=
  ∀ a w, w.In k → w.journal.writesLeft = none → P a w.journal.text →
    ∃ b w', a.perform.run w = (.ok b, w') ∧ w'.In k ∧ w'.journal.writesLeft = none ∧
      Q b w'.journal.text

theorem leaves_made (ht : Dated t) (places : List Address) :
    Leaves k (Deletion.Unmade t places) (Deletion.Made t places) := by
  intro a w hw hwrites h
  obtain ⟨places', rfl, hsame⟩ := h.action
  have halike := Deletion.alike_all ht h.dated h.reads places'
  rw [hsame] at halike
  obtain ⟨w', hrun, hw', htext, hwrites'⟩ :=
    (leads_delete places' w.journal.text).exists_run (goes_delete places') hw rfl hwrites
  refine ⟨_, w', hrun, hw', hwrites', ?_, ?_, ?_⟩
  · rw [htext]
    exact halike.left
  · rw [htext]
    exact halike.text
  · show restoreDeleted (Deletion.all w.journal.text places').deleted
      (Deletion.all w.journal.text places').days = _
    rw [halike.deleted, halike.days]

theorem leaves_unmade (ht : Dated t) (places : List Address) :
    Leaves k (Deletion.Made t places) (Deletion.Unmade t places) := by
  intro a w hw hwrites h
  obtain rfl := h.action
  have hfrom : (Deletion.all t places).From t := Deletion.from_run ht (Address.lastFirst places)
  obtain ⟨hdated, hreads⟩ :=
    (hfrom.with_text h.dated h.reads).readsAs_putDays fun d => mem_sortBy
  obtain ⟨w', hrun, hw', htext, hwrites'⟩ :=
    (leads_putDays (Deletion.all t places).deleted (Deletion.all t places).days
      w.journal.text).exists_run (goes_restoreDeleted _ _) hw rfl hwrites
  refine ⟨_, w', hrun, hw', hwrites', ?_, ?_, _, rfl, Deletion.run_deleted t places⟩
  · rw [htext]
    exact hdated
  · rw [htext]
    exact hreads

end Action

/-! ## To and fro -/

namespace Session

variable {s : Session} {k : Surroundings} {P Q : Action → Text → Prop}

theorem exists_run_alternate (hPQ : Action.Leaves k P Q) (hQP : Action.Leaves k Q P) (n : Nat)
    {a : Action} (hin : s.workspace.In k) (hwrites : s.workspace.journal.writesLeft = none)
    (h : P a s.workspace.journal.text) :
    ∃ steps s', (alternate n a).run s = (.ok steps, s') ∧ steps.length = n ∧
      ∀ i b u, steps[i]? = some (b, u) → ∃ c, if i % 2 = 0 then Q c u else P c u := by
  -- After each step the two conditions change places.
  induction n generalizing s a P Q with
  | zero => exact ⟨[], s, rfl, rfl, by simp⟩
  | succ n ih =>
      obtain ⟨b, w, hperform, hw, hwrites', hb⟩ := hPQ a s.workspace hin hwrites h
      obtain ⟨steps, s', hrun, hlength, hsteps⟩ :=
        ih (s := { s with workspace := w }) hQP hPQ hw hwrites' hb
      refine ⟨(a, w.journal.text) :: steps, s', ?_, by rw [List.length_cons, hlength], ?_⟩
      · refine (run_bind_ok (run_change hperform)).trans ?_
        refine (run_bind_ok rfl).trans ?_
        exact (run_bind_ok hrun).trans rfl
      · intro i b' u hi
        cases i with
        | zero =>
            cases hi
            exact ⟨b, hb⟩
        | succ i =>
            obtain ⟨c, hc⟩ := hsteps i b' u hi
            refine ⟨c, ?_⟩
            by_cases heven : i % 2 = 0
            · rw [if_pos heven] at hc
              rwa [if_neg (by omega)]
            · rw [if_neg heven] at hc
              rwa [if_pos (by omega)]

/-- In a dated document a deletion can be made, taken back, made again and so on.  Whichever places
it names, each day and the text before the first section read by turns as after the first deletion
and as in the beginning. -/
theorem alternate_delete (hdated : Dated s.workspace.journal.text)
    (hwrites : s.workspace.journal.writesLeft = none) (places : List Address) (n : Nat) :
    ∃ back w, (Action.delete places).perform.run s.workspace = (.ok back, w) ∧
      ∃ steps s', (alternate n (.delete places)).run s = (.ok steps, s') ∧ steps.length = n ∧
        ∀ i a u, steps[i]? = some (a, u) →
          ReadsAs u (if i % 2 = 0 then w.journal.text else s.workspace.journal.text) := by
  have hin : s.workspace.In ⟨s.workspace.settings, s.workspace.today⟩ := ⟨rfl, rfl⟩
  have hstart : Deletion.Unmade s.workspace.journal.text places (.delete places)
      s.workspace.journal.text := ⟨hdated, .refl _, places, rfl, rfl⟩
  have hmade := Action.leaves_made (k := ⟨s.workspace.settings, s.workspace.today⟩) hdated places
  obtain ⟨back, w, hperform, -, -, hdone⟩ := hmade _ s.workspace hin hwrites hstart
  obtain ⟨steps, s', hrun, hlength, hsteps⟩ :=
    exists_run_alternate hmade (Action.leaves_unmade hdated places) n hin hwrites hstart
  refine ⟨back, w, hperform, steps, s', hrun, hlength, fun i a u hi => ?_⟩
  obtain ⟨c, hc⟩ := hsteps i a u hi
  split at hc
  · next heven =>
    rw [if_pos heven]
    exact hc.reads.trans hdone.reads.symm
  · next hodd =>
    rw [if_neg hodd]
    exact hc.reads

/-- Sections out of order, an indented entry that is alone on its day and named twice, and a place
without an entry. -/
theorem alternate_delete_out_of_order :
    let day : Date := ⟨2026, 1, 9, by decide⟩
    let s := start
      ⟨"notes \n\n# 2026/01/09 Fri\n  - [ ] a\n\n# 2026/01/05\n* b\n".toList, none⟩ {} day
    let places : List Address := [⟨day, 0⟩, ⟨⟨2026, 1, 5, by decide⟩, 7⟩, ⟨day, 0⟩]
    ∃ steps s', (alternate 4 (.delete places)).run s = (.ok steps, s') ∧ steps.length = 4 ∧
      ∀ a u, steps[3]? = some (a, u) → dayText u day = "  - [ ] a".toList := by
  intro day s places
  have hdated : Dated s.workspace.journal.text := ⟨by decide +kernel, by decide +kernel⟩
  obtain ⟨_, _, -, steps, s', hrun, hlength, hsteps⟩ := alternate_delete hdated rfl places 4
  refine ⟨steps, s', hrun, hlength, fun a u hu => ?_⟩
  have hreads : ReadsAs u s.workspace.journal.text := hsteps 3 a u hu
  rw [hreads.dayText day]
  decide +kernel

end Session

end DayJournal

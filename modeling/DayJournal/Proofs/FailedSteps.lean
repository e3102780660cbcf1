import DayJournal.Proofs.Refusals

/-!
# Steps of the history that fail

Undo and redo take a step off the history before they run it.  When the run fails the step is gone,
and the next undo or redo is about another one.  This is all that stands in the way of running the
step again: a step does not depend on what is shown, and it changes nothing while nothing can be
written, so with the history as it was it would do what it would have done at first.
-/

namespace DayJournal

namespace Session

variable {α : Type} {s s' u v : Session} {e : Fault}
  {command : Command (Option Text)} {side : History Action → List (Step Action)}
  {without : History Action → List (Step Action) → History Action}
  {onto : History Action → List (Step Action) → Step Action → Action → History Action}

/-! ## Runs from sessions that differ in what is shown -/

/-- The same answer or fault, and sessions that differ in nothing but what is shown. -/
def SameRun (r r' : Except Fault α × Session) : Prop := r.1 = r'.1 ∧ r.2.Akin r'.2

theorem Akin.allow (h : u.Akin v) (writes : Option Nat) :
    (u.allow writes).Akin (v.allow writes) := by
  refine ⟨⟨?_, h.workspace.settings, h.workspace.today⟩, h.history, h.status, h.listening,
    h.notices⟩
  simp only [Session.allow, h.workspace.journal]

theorem sameRun_runStep (h : u.Akin v) (step : Step Action) (without : History Action)
    (onto : Action → History Action) :
    SameRun (u.runStep step without onto) (v.runStep step without onto) := by
  have hperform := (Action.tame_perform step.action).blind u.workspace v.workspace h.workspace
  unfold runStep
  rcases hu : step.action.perform.run u.workspace with ⟨result, w⟩
  rcases hv : step.action.perform.run v.workspace with ⟨result', w'⟩
  rw [hu, hv] at hperform
  obtain ⟨rfl, hakin⟩ : result = result' ∧ w.Akin w' := hperform
  cases result with
  | error e => exact ⟨rfl, hakin, rfl, h.status, h.listening, h.notices⟩
  | ok b => exact ⟨rfl, hakin, rfl, h.status, h.listening, h.notices⟩

theorem Shifts.sameRun (hshifts : Shifts command side without onto) (h : u.Akin v) :
    SameRun (command.run u) (command.run v) := by
  cases hside : side v.history with
  | nil =>
      rw [hshifts.nil u (h.history ▸ hside), hshifts.nil v hside]
      exact ⟨rfl, h⟩
  | cons step rest =>
      rw [hshifts.cons u step rest (h.history ▸ hside), hshifts.cons v step rest hside, h.history]
      exact sameRun_runStep h step _ _

theorem sameRun_announced (occasion : Occasion)
    (h : SameRun (command.run u) (command.run v)) :
    SameRun ((command >>= announce occasion).run u) ((command >>= announce occasion).run v) := by
  rcases hu : command.run u with ⟨result, u'⟩
  rcases hv : command.run v with ⟨result', v'⟩
  rw [hu, hv] at h
  obtain ⟨rfl, hakin⟩ : result = result' ∧ u'.Akin v' := h
  cases result with
  | error e =>
      rw [run_bind_error hu, run_bind_error hv]
      exact ⟨rfl, hakin⟩
  | ok status =>
      rw [run_bind_ok hu, run_bind_ok hv]
      refine ⟨rfl, hakin.workspace, hakin.history, rfl, hakin.listening, ?_⟩
      show (if u'.listening then _ else _) = if v'.listening then _ else _
      rw [hakin.listening, hakin.notices]

/-! ## Runs that fail -/

/-- A session after a command that failed is as it was but for the history, and for what the command
may have written.  If nothing could be written, the command would do with the old history what it
would have done at first. -/
structure OnlyForgot (s s' : Session) (command : Command (Option Text)) : Prop where
  status : s'.status = s.status
  notices : s'.notices = s.notices
  locked : s.workspace.journal.writesLeft = some 0 → s'.workspace.Akin s.workspace
  retry : s.workspace.journal.writesLeft = some 0 → ∀ writes,
    SameRun (command.run ({ s' with history := s.history }.allow writes))
      (command.run (s.allow writes))

theorem eq_error_of_announced {occasion : Occasion}
    (h : (command >>= announce occasion).run s = (.error e, s')) :
    command.run s = (.error e, s') := by
  cases hrun : command.run s with
  | mk result s'' =>
      cases result with
      | error e' => rw [← h, run_bind_error hrun]
      | ok status =>
          obtain ⟨a, s''', hannounce⟩ := sure_announce occasion status s''
          rw [run_bind_ok hrun, hannounce] at h
          cases h

theorem Shifts.forgotten (hshifts : Shifts command side without onto) {occasion : Occasion}
    (h : (command >>= announce occasion).run s = (.error e, s')) :
    (∃ step rest, side s.history = step :: rest ∧ s'.history = without s.history rest) ∧
      OnlyForgot s s' (command >>= announce occasion) := by
  have hrun := eq_error_of_announced h
  cases hside : side s.history with
  | nil =>
      rw [hshifts.nil s hside] at hrun
      cases hrun
  | cons step rest =>
      rw [hshifts.cons s step rest hside, runStep] at hrun
      have hlocked := (Action.tame_perform step.action).locked s.workspace
      rcases hperform : step.action.perform.run s.workspace with ⟨_ | b, w⟩ <;>
        rw [hperform] at hrun hlocked
      · cases hrun
        refine ⟨⟨step, rest, rfl, rfl⟩, rfl, rfl, hlocked, fun hwrites writes => ?_⟩
        -- With the old history back, only what is shown can differ.
        have hakin : ({ s with workspace := w } : Session).Akin s :=
          ⟨hlocked hwrites, rfl, rfl, rfl, rfl⟩
        exact sameRun_announced occasion (hshifts.sameRun (hakin.allow writes))
      · cases hrun

/-- When undo or redo fails, the step that it was about is gone from the history; all else is as it
was, save for what the step may have written before it failed.  If nothing could be written, it is
only because of the history that the step cannot be run again. -/
theorem failed_step_forgotten (s : Session) :
    (∀ e s', undo.run s = (.error e, s') →
      (∃ step rest, s.history.undo = step :: rest ∧
        s'.history = { s.history with undo := rest }) ∧ OnlyForgot s s' undo) ∧
    ∀ e s', redo.run s = (.error e, s') →
      (∃ step rest, s.history.redo = step :: rest ∧
        s'.history = { s.history with redo := rest }) ∧ OnlyForgot s s' redo :=
  ⟨fun _ _ => shifts_takeBack.forgotten, fun _ _ => shifts_makeAgain.forgotten⟩

/-- A task completed, and the undo of that while nothing can be written. -/
theorem failed_step_forgotten_of_toggle :
    let s := ((start ⟨"# 2026/01/05\n- [ ] a\n".toList, none⟩ {} ⟨2026, 1, 5, by decide⟩).run
      [⟨none, .toggle [.daily 0]⟩]).allow (some 0)
    ∃ e s', undo.run s = (.error e, s') ∧
      (∃ step rest, s.history.undo = step :: rest ∧
        s'.history = { s.history with undo := rest }) ∧ OnlyForgot s s' undo := by
  intro s
  have hfails : (undo.run s).1.isOk = false := by decide +kernel
  obtain ⟨e, hrun⟩ := exists_run_error hfails
  exact ⟨e, _, hrun, (failed_step_forgotten s).1 e _ hrun⟩

/-- The task stays completed: when writing works again there is nothing left to take back. -/
theorem undo_forgotten :
    let s := ((start ⟨"# 2026/01/05\n- [ ] a\n".toList, none⟩ {} ⟨2026, 1, 5, by decide⟩).run
      [⟨none, .toggle [.daily 0]⟩]).allow (some 0)
    ∃ e s', undo.run s = (.error e, s') ∧
      s.history.undo.length = 1 ∧ s'.history.undo.length = 0 ∧
      (undo.run (s.allow none)).2.workspace.journal.text = "# 2026/01/05\n- [ ] a\n".toList ∧
      (undo.run (s'.allow none)).2.workspace.journal.text = "# 2026/01/05\n- [x] a\n".toList := by
  intro s
  have hfails : (undo.run s).1.isOk = false ∧ s.history.undo.length = 1 ∧
      (undo.run s).2.history.undo.length = 0 ∧
      (undo.run (s.allow none)).2.workspace.journal.text = "# 2026/01/05\n- [ ] a\n".toList ∧
      (undo.run ((undo.run s).2.allow none)).2.workspace.journal.text =
        "# 2026/01/05\n- [x] a\n".toList := by decide +kernel
  obtain ⟨hresult, hrest⟩ := hfails
  obtain ⟨e, hrun⟩ := exists_run_error hresult
  exact ⟨e, _, hrun, hrest⟩

end Session

end DayJournal

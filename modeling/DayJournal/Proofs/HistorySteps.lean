import DayJournal.Proofs.Running
import DayJournal.Proofs.Timeline

/-!
# Steps of the history

What is left of a session when an action that succeeds is run and recorded, taken back, or made
again: the workspace is the one that the action leaves, and the action that it gives goes on the
other side of the history.
-/

namespace DayJournal

namespace Session

variable {s s' : Session} {c : Call} {a b : Action} {w : Workspace} {e : Fault}

theorem succeeds_of_run (h : c.command.run s = (.ok (), s')) :
    s.succeeds c = true ∧ s.after c = s' := by
  rw [succeeds, after, h]
  exact ⟨rfl, rfl⟩

theorem run_change {α : Type} {change : Change α} {answer : α}
    (h : change.run s.workspace = (.ok answer, w)) :
    (Session.change change).run s = (.ok answer, { s with workspace := w }) := by
  show ((change.run s.workspace).1, { s with workspace := (change.run s.workspace).2 }) = _
  rw [h]

theorem run_change_error {α : Type} {change : Change α}
    (h : change.run s.workspace = (.error e, w)) :
    (Session.change change).run s = (.error e, { s with workspace := w }) := by
  show ((change.run s.workspace).1, { s with workspace := (change.run s.workspace).2 }) = _
  rw [h]

theorem run_ask {α : Type} {f : Workspace → Except Fault α} {answer : α}
    (h : f s.workspace = .ok answer) : (ask f).run s = (.ok answer, s) := by
  refine (run_bind_ok rfl).trans ?_
  simp only [h]
  rfl

theorem run_ask_error {α : Type} {f : Workspace → Except Fault α} (h : f s.workspace = .error e) :
    (ask f).run s = (.error e, s) := by
  refine (run_bind_ok rfl).trans ?_
  simp only [h]
  rfl

theorem run_discard {α : Type} {command : Command α} {answer : α}
    (h : command.run s = (.ok answer, s')) : (discard command).run s = (.ok (), s') :=
  (run_bind_ok h).trans rfl

theorem run_appendTag_eq (tag : Text) (locations : List Location) :
    (appendTag tag locations).run s =
      (onAll Row.ensureEditable (Action.appendTag (s.workspace.tagName tag)) locations).run s :=
  run_bind_ok rfl

theorem run_appendTag {tag : Text} (h : Tag.isName (s.workspace.tagName tag) = true)
    (locations : List Location) : (appendTag tag locations).run s = (onAll Row.ensureEditable
      (Action.changeTags (.append (s.workspace.tagName tag))) locations).run s := by
  rw [← Action.appendTag_eq_changeTags h, run_appendTag_eq]

theorem run_batch (hne : c.locations ≠ []) (hplain : c.Plain s.workspace) :
    c.command.run s =
      (discard (onAll c.check (c.action s.workspace) c.locations)).run s := by
  cases c with
  | appendTag tag locations =>
      show (appendTag tag locations >>= fun _ => pure PUnit.unit).run s =
        (onAll Row.ensureEditable _ locations >>= fun _ => pure PUnit.unit).run s
      rw [run_bind, run_bind, run_appendTag hplain]
      rfl
  | delete locations => rfl
  | toggle locations => rfl
  | cycleKinds locations => rfl
  | removeLastTag locations => rfl
  | removeAllTags locations => rfl
  | changeDates change locations => rfl
  | _ => exact absurd rfl hne

theorem run_record (h : a.perform.run s.workspace = (.ok b, w)) :
    (record a).run s = (.ok a.describe.onRun?,
      { s with workspace := w, history := s.history.record b a.describe }) :=
  (run_bind_ok (run_change h)).trans rfl

theorem run_record_error (h : a.perform.run s.workspace = (.error e, w)) :
    (record a).run s = (.error e, { s with workspace := w }) :=
  run_bind_error (run_change_error h)

theorem exists_run_recorded (h : a.perform.run s.workspace = (.ok b, w)) :
    ∃ s', (execute a).run s = (.ok a.describe.onRun?, s') ∧ s'.workspace = w ∧
      s'.history = s.history.record b a.describe :=
  ⟨_, (run_bind_ok (run_record h)).trans rfl, rfl, rfl⟩

theorem exists_run_execute (hdeep : 0 < s.history.depth)
    (h : a.perform.run s.workspace = (.ok b, w)) :
    ∃ s', (execute a).run s = (.ok a.describe.onRun?, s') ∧ s'.workspace = w ∧
      ∃ rest, s'.history.undo = ⟨b, a.describe⟩ :: rest := by
  obtain ⟨s', hrun, hworkspace, hhistory⟩ := exists_run_recorded h
  refine ⟨s', hrun, hworkspace, ?_⟩
  rw [hhistory]
  exact History.exists_undo_record hdeep

theorem run_execute_error (h : a.perform.run s.workspace = (.error e, w)) :
    (execute a).run s = (.error e, { s with workspace := w }) :=
  run_bind_error (run_record_error h)

theorem run_onAll_of_checked {check : Row → Except Fault Unit} {locations : List Location}
    {places : List Address} (hplaces : locations.mapM (s.workspace.checked check) = .ok places)
    (hne : places ≠ []) (action : List Address → Action) :
    (onAll check action locations).run s = (execute (action places)).run s := by
  refine (run_bind_ok (run_ask hplaces)).trans ?_
  rw [if_neg (by simpa using hne)]

theorem run_onAll {check : Row → Except Fault Unit} {location : Location} {place : Address}
    (hplace : s.workspace.checked check location = .ok place) (action : List Address → Action) :
    (onAll check action [location]).run s = (execute (action [place])).run s := by
  refine run_onAll_of_checked ?_ (by simp) action
  rw [List.mapM_cons, hplace]
  rfl

theorem run_edit {location : Location} {place : Address} {content new : Text}
    (hplace : s.workspace.checked Row.ensureEditable location = .ok place)
    (hsave : (Change.single (Workspace.saveContent place content)).run s.workspace = (.ok new, w)) :
    (edit location content).run s = (execute (.edit .recorded place
      ((s.workspace.journal.entry? place).elim [] Entry.content) new)).run
        { s with workspace := w } := by
  have hget : (get : Command Session).run s = (.ok s, s) := rfl
  rw [edit, run_bind_ok (run_ask hplace), run_bind_ok hget, run_bind_ok (run_change hsave)]

section Sides

/-- What a step that is run with a history leaves: when it fails, the history from which it was
taken, and when it gives an action, a history with that action on it. -/
def runStep (s : Session) (step : Step Action) (without : History Action)
    (onto : Action → History Action) : Except Fault (Option Text) × Session :=
  match step.action.perform.run s.workspace with
  | (.ok b, w) => (.ok step.description.onReverse?, { s with workspace := w, history := onto b })
  | (.error e, w) => (.error e, { s with workspace := w, history := without })

/-- The command takes the last step off one side of the history, runs it and puts the action that it
gives on the other side. -/
structure Shifts (command : Command (Option Text)) (side : History Action → List (Step Action))
    (without : History Action → List (Step Action) → History Action)
    (onto : History Action → List (Step Action) → Step Action → Action → History Action) :
    Prop where
  nil : ∀ s, side s.history = [] → command.run s = (.ok none, s)
  cons : ∀ s step rest, side s.history = step :: rest →
    command.run s = s.runStep step (without s.history rest) (onto s.history rest step)

theorem shifts_takeBack : Shifts takeBack History.undo (fun h rest => { h with undo := rest })
    fun h rest step b =>
      { h with undo := rest, redo := ⟨b, step.action.describe⟩ :: h.redo } where
  nil s h := by
    refine (run_bind_ok rfl).trans ?_
    simp only [h]
    rfl
  cons s step rest h := by
    let taken : Session := { s with history := { s.history with undo := rest } }
    refine (run_bind_ok rfl).trans ?_
    simp only [h, runStep]
    refine (run_bind_ok rfl).trans ?_
    cases hperform : step.action.perform.run s.workspace with
    | mk result w =>
        cases result with
        | error e => exact run_bind_error (run_change_error (s := taken) hperform)
        | ok b => exact (run_bind_ok (run_change (s := taken) hperform)).trans rfl

theorem shifts_makeAgain : Shifts makeAgain History.redo (fun h rest => { h with redo := rest })
    fun h rest step b =>
      { h with undo := ⟨b, step.action.describe⟩ :: h.undo, redo := rest } where
  nil s h := by
    refine (run_bind_ok rfl).trans ?_
    simp only [h]
    rfl
  cons s step rest h := by
    let taken : Session := { s with history := { s.history with redo := rest } }
    refine (run_bind_ok rfl).trans ?_
    simp only [h, runStep]
    refine (run_bind_ok rfl).trans ?_
    cases hperform : step.action.perform.run s.workspace with
    | mk result w =>
        cases result with
        | error e => exact run_bind_error (run_change_error (s := taken) hperform)
        | ok b => exact (run_bind_ok (run_change (s := taken) hperform)).trans rfl

variable {command : Command (Option Text)} {side : History Action → List (Step Action)}
  {without : History Action → List (Step Action) → History Action}
  {onto : History Action → List (Step Action) → Step Action → Action → History Action}
  {step : Step Action} {rest : List (Step Action)}

theorem Shifts.exists_run (hshifts : Shifts command side without onto) (occasion : Occasion)
    (hside : side s.history = step :: rest)
    (h : step.action.perform.run s.workspace = (.ok b, w)) :
    ∃ s', (discard (command >>= announce occasion)).run s = (.ok (), s') ∧ s'.workspace = w ∧
      s'.history = onto s.history rest step b := by
  have hrun := hshifts.cons s step rest hside
  rw [runStep, h] at hrun
  exact ⟨_, run_discard ((run_bind_ok hrun).trans rfl), rfl, rfl⟩

theorem exists_run_undo (hundo : s.history.undo = step :: rest)
    (h : step.action.perform.run s.workspace = (.ok b, w)) :
    ∃ s', (Call.command .undo).run s = (.ok (), s') ∧ s'.workspace = w ∧
      s'.history = { s.history with
        undo := rest, redo := ⟨b, step.action.describe⟩ :: s.history.redo } :=
  shifts_takeBack.exists_run .undo hundo h

theorem exists_run_redo (hredo : s.history.redo = step :: rest)
    (h : step.action.perform.run s.workspace = (.ok b, w)) :
    ∃ s', (Call.command .redo).run s = (.ok (), s') ∧ s'.workspace = w ∧
      s'.history = { s.history with
        undo := ⟨b, step.action.describe⟩ :: s.history.undo, redo := rest } :=
  shifts_makeAgain.exists_run .redo hredo h

end Sides

end Session

end DayJournal

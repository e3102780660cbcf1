import DayJournal.Proofs.HistorySteps
import DayJournal.Proofs.TameChanges

/-!
# Changes that are refused

A change that is refused leaves no trace, and neither does a change that fails while nothing can be
written: all checks come before the first write, and nothing is recorded, shown as a message or told
to a listener before the last one.  Undo and redo are left out, since they take the change off the
history before they run it.
-/

namespace DayJournal

namespace Session

/-- The sessions differ in nothing but what is shown of the journal. -/
structure Akin (s s' : Session) : Prop where
  workspace : s.workspace.Akin s'.workspace
  history : s.history = s'.history
  status : s.status = s'.status
  listening : s.listening = s'.listening
  notices : s.notices = s'.notices

theorem Akin.refl (s : Session) : s.Akin s := ⟨Workspace.Akin.refl _, rfl, rfl, rfl, rfl⟩

variable {α β : Type} {s s' : Session} {e : Fault}

/-! ## Commands that cannot fail -/

/-- The command gives an answer whatever the session. -/
def Sure (command : Command α) : Prop := ∀ s, ∃ a s', command.run s = (.ok a, s')

theorem sure_pure (a : α) : Sure (pure a) := fun s => ⟨a, s, rfl⟩

theorem sure_bind {command : Command α} {f : α → Command β} (hcommand : Sure command)
    (hf : ∀ a, Sure (f a)) : Sure (command >>= f) := by
  intro s
  obtain ⟨a, s', hrun⟩ := hcommand s
  rw [run_bind_ok hrun]
  exact hf a s'

theorem sure_get : Sure get := fun s => ⟨s, s, rfl⟩

theorem sure_modify (f : Session → Session) : Sure (modify f) := fun s => ⟨⟨⟩, f s, rfl⟩

theorem sure_say (status : Option Text) : Sure (say status) :=
  sure_bind (sure_modify _) fun _ => sure_pure status

theorem sure_announce (occasion : Occasion) (status : Option Text) :
    Sure (announce occasion status) :=
  sure_bind (sure_modify _) fun _ => sure_say status

theorem sure_execute {a b : Action} (h : a.perform = pure b) : Sure (execute a) := by
  have hchange : Sure (change a.perform) := fun s => ⟨b, s, by rw [h]; rfl⟩
  refine sure_bind (sure_bind hchange fun reverse => ?_) fun _ => sure_announce .run _
  exact sure_bind (sure_modify _) fun _ => sure_pure _

theorem sure_viewDay (day : Option Date) : Sure (viewDay day) := by
  have hview : Sure (do
      let w := (← get).workspace
      return if w.settings.hideCompleted then w.dayView.withoutCompleted else w.dayView) :=
    sure_bind sure_get fun _ => sure_pure _
  refine sure_bind sure_get fun s => ?_
  dsimp only
  split
  · exact hview
  · exact sure_bind (sure_modify _) fun _ => hview
  · split
    · exact hview
    · exact sure_bind (sure_modify _) fun _ => hview

/-! ## Commands that leave no trace -/

/-- If the command is refused, or fails while nothing can be written, all is as it was. -/
def Traceless (s : Session) (command : Command α) : Prop :=
  ∀ e s', command.run s = (.error e, s') →
    e.isRefusal = true ∨ s.workspace.journal.writesLeft = some 0 → s'.Akin s

theorem traceless_of_sure {command : Command α} (h : Sure command) : Traceless s command := by
  intro e s' hrun _
  obtain ⟨a, s'', hok⟩ := h s
  rw [hok] at hrun
  cases hrun

theorem traceless_throw (fault : Fault) : Traceless s (throw fault : Command α) := by
  intro e s' hrun _
  cases hrun
  exact Akin.refl s

theorem traceless_bind_sure {command : Command α} {f : α → Command β}
    (hcommand : Traceless s command) (hf : ∀ a, Sure (f a)) : Traceless s (command >>= f) := by
  intro e s' hrun hcause
  cases hfirst : command.run s with
  | mk result s'' =>
      cases result with
      | error e' =>
          rw [run_bind_error hfirst] at hrun
          cases hrun
          exact hcommand e s' hfirst hcause
      | ok a =>
          obtain ⟨b, s''', hsecond⟩ := hf a s''
          rw [run_bind_ok hfirst, hsecond] at hrun
          cases hrun

theorem traceless_ask_bind {f : Workspace → Except Fault α} {g : α → Command β}
    (hg : ∀ a, Traceless s (g a)) : Traceless s (ask f >>= g) := by
  intro e s' hrun hcause
  cases hf : f s.workspace with
  | error e' =>
      rw [run_bind_error (run_ask_error hf)] at hrun
      cases hrun
      exact Akin.refl s
  | ok a =>
      rw [run_bind_ok (run_ask hf)] at hrun
      exact hg a e s' hrun hcause

theorem traceless_get_bind {g : Session → Command β} (hg : Traceless s (g s)) :
    Traceless s (get >>= g) := by
  intro e s' hrun hcause
  have hget : (get : Command Session).run s = (.ok s, s) := rfl
  rw [run_bind_ok hget] at hrun
  exact hg e s' hrun hcause

theorem traceless_single (f : Workspace → Except Fault (α × Workspace)) :
    Traceless s (change (.single f)) := by
  intro e s' hrun _
  cases hf : f s.workspace with
  | error e' =>
      rw [run_change_error (Change.run_single_error hf)] at hrun
      cases hrun
      exact Akin.refl s
  | ok r =>
      rw [run_change (Change.run_single hf)] at hrun
      cases hrun

theorem traceless_execute (a : Action) : Traceless s (execute a) := by
  have hperform : Traceless s (change a.perform) := by
    intro e s' hrun hcause
    cases hchange : a.perform.run s.workspace with
    | mk result w =>
        cases result with
        | ok b =>
            rw [run_change hchange] at hrun
            cases hrun
        | error e' =>
            rw [run_change_error hchange] at hrun
            cases hrun
            refine ⟨?_, rfl, rfl, rfl, rfl⟩
            rcases hcause with hrefusal | hlocked
            · rw [Action.perform_refused hchange hrefusal]
              exact Workspace.Akin.refl _
            · have hakin := (Action.tame_perform a).locked s.workspace hlocked
              rwa [hchange] at hakin
  refine traceless_bind_sure (traceless_bind_sure hperform fun reverse => ?_) fun _ =>
    sure_announce .run _
  exact sure_bind (sure_modify _) fun _ => sure_pure _

theorem traceless_discard {command : Command α} (h : Traceless s command) :
    Traceless s (discard command) := traceless_bind_sure h fun _ => sure_pure _

/-! ## Calls -/

theorem traceless_viewFilter (query : Text) : Traceless s (viewFilter query) := by
  refine traceless_get_bind (traceless_ask_bind fun opened => traceless_of_sure ?_)
  refine sure_bind (sure_modify _) fun _ => ?_
  split
  · exact sure_bind (sure_say _) fun _ => sure_pure _
  · exact sure_pure _

theorem traceless_add (content : Text) (kind : Kind) (day : Option Date) :
    Traceless s (add content kind day) := by
  refine traceless_get_bind (traceless_ask_bind fun normal => ?_)
  exact traceless_bind_sure (traceless_single _) fun index => sure_execute rfl

theorem traceless_edit (location : Location) (content : Text) :
    Traceless s (edit location content) := by
  refine traceless_ask_bind fun place => traceless_get_bind ?_
  exact traceless_bind_sure (traceless_single _) fun new => sure_execute rfl

theorem traceless_paste (text : Text) (day : Option Date) (line : Option Int) :
    Traceless s (paste text day line) := by
  refine traceless_get_bind (traceless_ask_bind fun entries => ?_)
  dsimp only
  split
  · exact traceless_of_sure (sure_pure none)
  · have hrest : ∀ start : Int, Sure (do
        let start ← pure start
        execute (.paste .recorded ⟨day.getD s.workspace.day, start⟩ entries)) := fun start =>
      sure_bind (sure_pure start) fun _ => sure_execute rfl
    cases line with
    | none => exact traceless_bind_sure (traceless_single _) fun index => hrest index
    | some line => exact traceless_bind_sure (traceless_single _) fun positions => hrest _

theorem traceless_onAll (check : Row → Except Fault Unit) (action : List Address → Action)
    (locations : List Location) : Traceless s (onAll check action locations) := by
  refine traceless_ask_bind fun places => ?_
  split
  · exact traceless_of_sure (sure_pure none)
  · exact traceless_execute (action places)

theorem traceless_move (location : Location) (day : Date) : Traceless s (move location day) := by
  refine traceless_ask_bind fun place => ?_
  split
  · exact traceless_of_sure (sure_say _)
  · exact traceless_execute (.move place day)

theorem traceless_sweepTag (change : SweepChange) (tag : Text) :
    Traceless s (sweepTag change tag) := by
  refine traceless_get_bind ?_
  dsimp only
  split
  · exact traceless_of_sure (sure_say _)
  · exact traceless_execute _

theorem traceless_renameTag (tag newName : Text) : Traceless s (renameTag tag newName) := by
  unfold renameTag
  dsimp only
  split
  · exact traceless_sweepTag _ tag
  · exact traceless_throw _

theorem traceless_command {c : Call} (hundo : c ≠ .undo) (hredo : c ≠ .redo) :
    Traceless s c.command := by
  cases c with
  | viewDay day => exact traceless_discard (traceless_of_sure (sure_viewDay day))
  | viewFilter query => exact traceless_discard (traceless_viewFilter query)
  | exitFilter => exact traceless_of_sure (sure_modify _)
  | add content kind day => exact traceless_discard (traceless_add content kind day)
  | edit location content => exact traceless_discard (traceless_edit location content)
  | paste text day line => exact traceless_discard (traceless_paste text day line)
  | delete locations => exact traceless_discard (traceless_onAll _ _ locations)
  | toggle locations => exact traceless_discard (traceless_onAll _ _ locations)
  | cycleKinds locations => exact traceless_discard (traceless_onAll _ _ locations)
  | appendTag tag locations =>
      exact traceless_discard (traceless_get_bind (traceless_onAll _ _ locations))
  | removeLastTag locations => exact traceless_discard (traceless_onAll _ _ locations)
  | removeAllTags locations => exact traceless_discard (traceless_onAll _ _ locations)
  | changeDates change locations => exact traceless_discard (traceless_onAll _ _ locations)
  | move location day => exact traceless_discard (traceless_move location day)
  | deleteTag tag => exact traceless_discard (traceless_sweepTag _ tag)
  | deleteTagFromCompleted tag => exact traceless_discard (traceless_sweepTag _ tag)
  | renameTag tag newName => exact traceless_discard (traceless_renameTag tag newName)
  | undo => exact absurd rfl hundo
  | redo => exact absurd rfl hredo

/-! ## Rows that are shown away from their home day -/

/-- The check refuses some rows, among them all that are shown away from their home day. -/
structure Guards (check : Row → Except Fault Unit) : Prop where
  refusal : ∀ r e, check r = .error e → e.isRefusal = true
  away : ∀ r, r.origin ≠ .home → ∃ e, check r = .error e

theorem guards_ensureEditable : Guards Row.ensureEditable where
  refusal r e h := by
    unfold Row.ensureEditable at h
    split at h <;> cases h <;> rfl
  away r h := by
    unfold Row.ensureEditable
    split
    · exact ⟨_, rfl⟩
    · next horigin => exact absurd horigin h
    · exact ⟨_, rfl⟩

theorem guards_ensureDateOperable : Guards Row.ensureDateOperable where
  refusal r e h := by
    unfold Row.ensureDateOperable at h
    split at h <;> cases h <;> rfl
  away r h := by
    unfold Row.ensureDateOperable
    split
    · exact ⟨_, rfl⟩
    · exact ⟨_, rfl⟩
    · exact ⟨_, rfl⟩
    · next horigin => exact absurd horigin h

variable {check : Row → Except Fault Unit} {row : Row} {locations : List Location}

theorem isRefusal_of_checked {w : Workspace} {location : Location} (hcheck : Guards check)
    (h : w.checked check location = .error e) : e.isRefusal = true := by
  rcases bind_eq_error.1 h with h | ⟨row?, -, h⟩
  · cases location with
    | daily line => cases h
    | shown row => cases h
    | place address =>
        cases h
        rfl
  · cases row? with
    | none => cases h
    | some row =>
        rcases bind_eq_error.1 h with h | ⟨_, -, h⟩
        · exact hcheck.refusal row e h
        · cases h

theorem exists_run_onAll_refused (hcheck : Guards check) (action : List Address → Action)
    (hrow : .shown row ∈ locations) (haway : row.origin ≠ .home) :
    ∃ e, e.isRefusal = true ∧ (onAll check action locations).run s = (.error e, s) := by
  obtain ⟨e, he⟩ := hcheck.away row haway
  have hchecked : s.workspace.checked check (.shown row) = .error e := bind_eq_error.2
    (Or.inr ⟨some row, rfl, bind_eq_error.2 (Or.inl he)⟩)
  obtain ⟨e', hall⟩ := exists_error_of_mapM hrow hchecked
  obtain ⟨location, -, hlocation⟩ := exists_of_mapM_eq_error hall
  exact ⟨e', isRefusal_of_checked hcheck hlocation, run_bind_error (run_ask_error hall)⟩

/-- Every call but undo and redo, when it is refused or when it fails while nothing can be written,
leaves the journal, the history and the message as they were, and nobody is told.  A row that is
shown away from its home day has the whole batch of a deletion, or of a change of kinds, tags or
dates refused. -/
theorem refused_traceless (s : Session) (c : Call) (hundo : c ≠ .undo) (hredo : c ≠ .redo) :
    (∀ e s', c.command.run s = (.error e, s') →
      e.isRefusal = true ∨ s.workspace.journal.writesLeft = some 0 → s'.Akin s) ∧
    ∀ row, .shown row ∈ c.locations → row.origin ≠ .home → (∀ locations, c ≠ .toggle locations) →
      ∃ e, e.isRefusal = true ∧ c.command.run s = (.error e, s) := by
  refine ⟨traceless_command hundo hredo, fun row hrow haway htoggle => ?_⟩
  have hall : ∀ {check : Row → Except Fault Unit} {action : List Address → Action}
      {locations : List Location}, Guards check → .shown row ∈ locations →
      ∃ e, e.isRefusal = true ∧ (discard (onAll check action locations)).run s = (.error e, s) := by
    intro check action locations hcheck hrow
    obtain ⟨e, he, hrun⟩ := exists_run_onAll_refused hcheck action hrow haway
    exact ⟨e, he, run_bind_error hrun⟩
  cases c with
  | delete locations => exact hall guards_ensureEditable hrow
  | cycleKinds locations => exact hall guards_ensureEditable hrow
  | appendTag tag locations =>
      obtain ⟨e, he, hrun⟩ := exists_run_onAll_refused guards_ensureEditable
        (Action.appendTag (s.workspace.tagName tag)) hrow haway
      rw [← run_appendTag_eq] at hrun
      exact ⟨e, he, run_bind_error hrun⟩
  | removeLastTag locations => exact hall guards_ensureEditable hrow
  | removeAllTags locations => exact hall guards_ensureEditable hrow
  | changeDates change locations => exact hall guards_ensureDateOperable hrow
  | toggle locations => exact absurd rfl (htoggle locations)
  | _ => simp [Call.locations] at hrow

/-- A batch with a row of another day, and a task that is completed while nothing can be written. -/
theorem refused_traceless_of_later_row :
    let s := start ⟨"# 2026/01/05\n- [ ] a\n# 2026/01/04\n- [ ] b @1/5\n".toList, none⟩ {}
      ⟨2026, 1, 5, by decide⟩
    let row : Row := ⟨⟨.task, "b @1/5".toList, false⟩, ⟨2026, 1, 4, by decide⟩, 0, .later⟩
    (row ∈ s.workspace.projected ∧ ∃ e, e.isRefusal = true ∧
      (Call.delete [.daily 0, .shown row]).command.run s = (.error e, s)) ∧
    ∃ e s', (Call.toggle [.daily 0]).command.run (s.allow (some 0)) = (.error e, s') ∧
      s'.Akin (s.allow (some 0)) := by
  intro s row
  have hshown : row ∈ s.workspace.projected := by decide +kernel
  have hfails : (s.allow (some 0)).succeeds (.toggle [.daily 0]) = false := by decide +kernel
  refine ⟨⟨hshown, ?_⟩, ?_⟩
  · exact (refused_traceless s (.delete [.daily 0, .shown row]) nofun nofun).2 row
      (by simp [Call.locations]) (by decide) nofun
  · obtain ⟨e, hrun⟩ := run_of_not_succeeds hfails
    have htoggle := (refused_traceless (s.allow (some 0)) (.toggle [.daily 0]) nofun nofun).1
    exact ⟨e, _, hrun, htoggle e _ hrun (Or.inr rfl)⟩

end Session

end DayJournal

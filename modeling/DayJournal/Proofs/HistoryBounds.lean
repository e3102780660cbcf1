import DayJournal.Proofs.HistorySteps

/-!
# The bound of the history

Only a change that is recorded looks at the depth of the history.  Undo and redo move a step from
one side to the other, or lose it when it fails, so both sides together never grow by them
(`Shifts.within`).  Main statement: whatever is done with a history, and whichever actions fail, it
holds no more steps than its depth; redo forgets nothing, and a change is the first to be taken back
once it is recorded (`history_bounded`).
-/

namespace DayJournal

namespace History

variable {α : Type} {h : History α} {reverse : α} {description : Description} {depth : Nat}

/-- The history has some depth, and both sides of it together are within it. -/
structure Within (depth : Nat) (h : History α) : Prop where
  depth_eq : h.depth = depth
  length_le : h.undo.length + h.redo.length ≤ depth

theorem within_record (hh : h.Within depth) : (h.record reverse description).Within depth := by
  obtain ⟨rfl, hlength⟩ := hh
  have hfits : h.undo.length ≤ h.depth := (Nat.le_add_right _ _).trans hlength
  refine ⟨rfl, ?_⟩
  show (h.record reverse description).undo.length + 0 ≤ h.depth
  rw [undo_record hfits]
  exact List.length_take_le _ _

end History

inductive HistoryCall where
  | record (action : Action)
  | takeBack
  | makeAgain
  | clear

def HistoryCall.command : HistoryCall → Command (Option Text)
  | record action => Session.record action
  | takeBack => Session.takeBack
  | makeAgain => Session.makeAgain
  | clear => do
    Session.clearHistory
    return none

structure HistoryTurn where
  workspace : Workspace
  call : HistoryCall

namespace Session

variable {s : Session} {depth : Nat}

def workingOn (s : Session) (w : Workspace) : Session := { s with workspace := w }

def fresh (s : Session) (depth : Nat) : Session := { s with history := { depth } }

def historyTurn (s : Session) (t : HistoryTurn) : Session :=
  (t.call.command.run (s.workingOn t.workspace)).2

/-- The session after calls one after the other, each on a workspace of its own. -/
def historyRun (s : Session) (turns : List HistoryTurn) : Session := turns.foldl historyTurn s

/-! ## One call -/

theorem within_record (hs : s.history.Within depth) (a : Action) :
    ((record a).run s).2.history.Within depth := by
  rcases hperform : a.perform.run s.workspace with ⟨e | b, w⟩
  · rw [run_record_error hperform]
    exact hs
  · rw [run_record hperform]
    exact History.within_record hs

section Sides

variable {command : Command (Option Text)} {side : History Action → List (Step Action)}
  {without : History Action → List (Step Action) → History Action}
  {onto : History Action → List (Step Action) → Step Action → Action → History Action}

theorem Shifts.history_cases (hshifts : Shifts command side without onto) (s : Session) :
    (side s.history = [] ∧ (command.run s).2.history = s.history) ∨
      ∃ step rest, side s.history = step :: rest ∧
        (((command.run s).1.isOk = false ∧
            (command.run s).2.history = without s.history rest) ∨
          ∃ b, (command.run s).2.history = onto s.history rest step b) := by
  cases hside : side s.history with
  | nil => exact Or.inl ⟨rfl, by rw [hshifts.nil s hside]⟩
  | cons step rest =>
      refine Or.inr ⟨step, rest, rfl, ?_⟩
      rw [hshifts.cons s step rest hside, runStep]
      rcases step.action.perform.run s.workspace with ⟨e | b, w⟩
      · exact Or.inl ⟨rfl, rfl⟩
      · exact Or.inr ⟨b, rfl⟩

theorem Shifts.within (hshifts : Shifts command side without onto)
    (hs : s.history.Within depth)
    (hwithout : ∀ step rest, side s.history = step :: rest →
      (without s.history rest).Within depth)
    (honto : ∀ step rest b, side s.history = step :: rest →
      (onto s.history rest step b).Within depth) :
    (command.run s).2.history.Within depth := by
  rcases hshifts.history_cases s with
    ⟨-, hsame⟩ | ⟨step, rest, hside, ⟨-, hless⟩ | ⟨b, hmoved⟩⟩
  · exact hsame ▸ hs
  · exact hless ▸ hwithout step rest hside
  · exact hmoved ▸ honto step rest b hside

end Sides

theorem within_takeBack (hs : s.history.Within depth) :
    (takeBack.run s).2.history.Within depth := by
  have hlength : ∀ {step rest}, s.history.undo = step :: rest →
      rest.length + 1 + s.history.redo.length ≤ depth := fun h => by
    simpa [h] using hs.length_le
  refine shifts_takeBack.within hs (fun step rest h => ⟨hs.depth_eq, ?_⟩)
    fun step rest b h => ⟨hs.depth_eq, ?_⟩
  · have := hlength h
    dsimp only
    omega
  · have := hlength h
    simp only [List.length_cons]
    omega

theorem within_makeAgain (hs : s.history.Within depth) :
    (makeAgain.run s).2.history.Within depth := by
  have hlength : ∀ {step rest}, s.history.redo = step :: rest →
      s.history.undo.length + (rest.length + 1) ≤ depth := fun h => by
    simpa [h] using hs.length_le
  refine shifts_makeAgain.within hs (fun step rest h => ⟨hs.depth_eq, ?_⟩)
    fun step rest b h => ⟨hs.depth_eq, ?_⟩
  · have := hlength h
    dsimp only
    omega
  · have := hlength h
    simp only [List.length_cons]
    omega

theorem undo_suffix_makeAgain (s : Session) :
    s.history.undo <:+ (makeAgain.run s).2.history.undo := by
  rcases shifts_makeAgain.history_cases s with
    ⟨-, hsame⟩ | ⟨step, rest, -, ⟨-, hless⟩ | ⟨b, hmoved⟩⟩
  · exact hsame ▸ List.suffix_rfl
  · exact hless ▸ List.suffix_rfl
  · exact hmoved ▸ List.suffix_cons _ _

theorem within_historyTurn (hs : s.history.Within depth) (t : HistoryTurn) :
    (s.historyTurn t).history.Within depth := by
  obtain ⟨w, call⟩ := t
  cases call with
  | record action => exact within_record (s := s.workingOn w) hs action
  | takeBack => exact within_takeBack (s := s.workingOn w) hs
  | makeAgain => exact within_makeAgain (s := s.workingOn w) hs
  | clear => exact ⟨hs.depth_eq, Nat.zero_le depth⟩

/-! ## Runs -/

theorem within_historyRun (hs : s.history.Within depth) (turns : List HistoryTurn) :
    (s.historyRun turns).history.Within depth := by
  induction turns generalizing s with
  | nil => exact hs
  | cons t turns ih => exact ih (within_historyTurn hs t)

/-- However a history is used, and whichever actions fail on the workspaces that they find: it stays
within its depth, redo keeps all that can be taken back, and a change that is recorded is the first
to be taken back, with nothing left to make again. -/
theorem history_bounded (s : Session) (depth : Nat) (turns : List HistoryTurn) :
    let s' := (s.fresh depth).historyRun turns
    s'.history.undo.length + s'.history.redo.length ≤ depth ∧
      (∀ w, s'.history.undo <:+ (makeAgain.run (s'.workingOn w)).2.history.undo) ∧
      ∀ w action answer s'', (record action).run (s'.workingOn w) = (.ok answer, s'') →
        s''.history.redo = [] ∧ ∃ reverse, (action.perform.run w).1 = .ok reverse ∧
          (1 ≤ depth → ∃ rest, s''.history.undo = ⟨reverse, action.describe⟩ :: rest) := by
  intro s'
  have hwithin : s'.history.Within depth :=
    within_historyRun (s := s.fresh depth) ⟨rfl, Nat.zero_le depth⟩ turns
  refine ⟨hwithin.length_le, fun w => undo_suffix_makeAgain (s'.workingOn w),
    fun w action answer s'' h => ?_⟩
  rcases hperform : action.perform.run w with ⟨e | reverse, w'⟩
  · rw [run_record_error (s := s'.workingOn w) hperform] at h
    cases h
  · rw [run_record (s := s'.workingOn w) hperform] at h
    cases h
    refine ⟨rfl, reverse, rfl, fun hdepth => ?_⟩
    exact History.exists_undo_record (hdepth.trans_eq hwithin.depth_eq.symm)

/-- A history with room for one change, which loses it to an undo that cannot write; the next change
is taken back, and makes way for a third. -/
theorem history_bounded_of_failed_undo :
    let s := start ⟨"# 2026/01/05\n- [ ] a\n".toList, none⟩ {} ⟨2026, 1, 5, by decide⟩
    let w := s.workspace
    let places : List Address := [⟨⟨2026, 1, 5, by decide⟩, 0⟩]
    let turns : List HistoryTurn := [⟨w, .record (.toggle places)⟩,
      ⟨(s.allow (some 0)).workspace, .takeBack⟩, ⟨w, .record (.cycleKinds places)⟩, ⟨w, .takeBack⟩]
    let s' := (s.fresh 1).historyRun turns
    s'.history.undo.length + s'.history.redo.length = 1 ∧
      ∃ answer s'', (record (.delete places)).run (s'.workingOn w) = (.ok answer, s'') ∧
        s''.history.redo = [] ∧
          ∃ reverse, ((Action.delete places).perform.run w).1 = .ok reverse ∧
            (1 ≤ 1 →
              ∃ rest, s''.history.undo = ⟨reverse, (Action.delete places).describe⟩ :: rest) := by
  intro s w places turns s'
  have hok : s'.history.undo.length + s'.history.redo.length = 1 ∧
      ((record (.delete places)).run (s'.workingOn w)).1.isOk = true := by decide +kernel
  refine ⟨hok.1, ?_⟩
  rcases hrun : (record (.delete places)).run (s'.workingOn w) with ⟨e | answer, s''⟩
  · rw [hrun] at hok
    cases hok.2
  · exact ⟨answer, s'', rfl, (history_bounded s 1 turns).2.2 w _ answer s'' hrun⟩

end Session

end DayJournal

import DayJournal.Action.Basic

/-!
# History

What can be taken back and made again, most recent first.  The history holds at most `depth`
changes to take back; recording a new one forgets the oldest beyond that, and all that could be
made again.
-/

namespace DayJournal

/-- An action that is ready to run, with the description of the one that it follows. -/
structure Step (α : Type) where
  action : α
  description : Description

structure History (α : Type) where
  depth : Nat := 50
  undo : List (Step α) := []
  redo : List (Step α) := []

namespace History

variable {α : Type}

/-- The history with one more change, which `reverse` takes back.  If that is one too many, the
oldest one goes. -/
def record (h : History α) (reverse : α) (description : Description) : History α :=
  let undo := ⟨reverse, description⟩ :: h.undo
  { h with undo := if h.depth < undo.length then undo.dropLast else undo, redo := [] }

def cleared (h : History α) : History α := { h with undo := [], redo := [] }

variable {h : History α} {reverse : α} {description : Description} {step : Step α}

theorem mem_undo_record (hstep : step ∈ (h.record reverse description).undo) :
    step = ⟨reverse, description⟩ ∨ step ∈ h.undo := by
  rw [record] at hstep
  split at hstep
  · exact List.mem_cons.1 (List.dropLast_subset _ hstep)
  · exact List.mem_cons.1 hstep

/-- A history that is within its depth stays within it. -/
theorem undo_record (hfits : h.undo.length ≤ h.depth) :
    (h.record reverse description).undo = (⟨reverse, description⟩ :: h.undo).take h.depth := by
  rw [record]
  split
  · next hmany =>
    have hfull : h.undo.length = h.depth := Nat.le_antisymm hfits (Nat.le_of_lt_succ hmany)
    rw [List.dropLast_eq_take, List.length_cons, hfull]
    rfl
  · next hroom => exact (List.take_of_length_le (Nat.le_of_not_lt hroom)).symm

theorem exists_undo_record (hdeep : 0 < h.depth) :
    ∃ rest, (h.record reverse description).undo = ⟨reverse, description⟩ :: rest := by
  rw [record]
  split
  · next hmany =>
    obtain ⟨oldest, more, hundo⟩ : ∃ oldest more, h.undo = oldest :: more :=
      List.exists_cons_of_length_pos (Nat.lt_of_lt_of_le hdeep (Nat.le_of_lt_succ hmany))
    exact ⟨h.undo.dropLast, by rw [hundo, List.dropLast_cons_cons]⟩
  · exact ⟨h.undo, rfl⟩

end History

end DayJournal

import DayJournal.Proofs.DateOrder
import DayJournal.Row
import Mathlib.Data.Prod.Lex

/-!
# Sorting by a key

What sorting gives when the order is that of a key: the elements in the order of their keys, and
the same list for the same elements if no two share a key.  Leaving elements out before or after
sorting makes no difference.  Places and rows are ordered by their days and, within a day, by their
lines.
-/

namespace DayJournal

section Sorting

variable {α β : Type} [LinearOrder β] {key : α → β} {isBefore : α → α → Bool}

theorem pairwise_insertBy (h : ∀ a b, isBefore a b = true ↔ key a < key b) (a : α) {l : List α}
    (hl : l.Pairwise fun a b => key a ≤ key b) :
    (insertBy isBefore a l).Pairwise fun a b => key a ≤ key b := by
  induction l with
  | nil => simp [insertBy]
  | cons b rest ih =>
      obtain ⟨hb, hrest⟩ := List.pairwise_cons.1 hl
      rw [insertBy]
      split
      · next hba =>
        refine List.pairwise_cons.2 ⟨fun x hx => ?_, ih hrest⟩
        rcases List.mem_cons.1 ((insertBy_perm isBefore a rest).mem_iff.1 hx) with rfl | hx
        · exact le_of_lt ((h _ _).1 hba)
        · exact hb x hx
      -- `isBefore` is strict, so equal keys may stand in either order.
      · next hba =>
        have hab : key a ≤ key b := le_of_not_gt fun hlt => hba ((h _ _).2 hlt)
        refine List.pairwise_cons.2 ⟨fun x hx => ?_, hl⟩
        rcases List.mem_cons.1 hx with rfl | hx
        · exact hab
        · exact hab.trans (hb x hx)

theorem pairwise_sortBy (h : ∀ a b, isBefore a b = true ↔ key a < key b) (l : List α) :
    (sortBy isBefore l).Pairwise fun a b => key a ≤ key b := by
  induction l with
  | nil => exact .nil
  | cons a rest ih => exact pairwise_insertBy h a ih

theorem pairwise_lt_sortBy (h : ∀ a b, isBefore a b = true ↔ key a < key b) {l : List α}
    (hl : l.Pairwise fun a b => key a ≠ key b) :
    (sortBy isBefore l).Pairwise fun a b => key a < key b := by
  have hne : (sortBy isBefore l).Pairwise fun a b => key a ≠ key b :=
    ((sortBy_perm isBefore l).pairwise_iff fun hab => Ne.symm hab).2 hl
  exact ((pairwise_sortBy h l).and hne).imp fun hab => lt_of_le_of_ne hab.1 hab.2

theorem sortBy_eq_of_perm (h : ∀ a b, isBefore a b = true ↔ key a < key b)
    (hkey : Function.Injective key) {l l' : List α} (hperm : l.Perm l')
    (hl' : l'.Pairwise fun a b => key a ≤ key b) : sortBy isBefore l = l' :=
  List.Perm.eq_of_pairwise (fun _ _ _ _ hab hba => hkey (le_antisymm hab hba))
    (pairwise_sortBy h l) hl' ((sortBy_perm isBefore l).trans hperm)

theorem insertBy_of_forall {a : α} {l : List α} (h : ∀ b ∈ l, isBefore b a = false) :
    insertBy isBefore a l = a :: l := by
  cases l with
  | nil => rfl
  | cons b rest => rw [insertBy, if_neg (by simp [h b])]

theorem filter_insertBy (h : ∀ a b, isBefore a b = true ↔ key a < key b) (p : α → Bool) (a : α)
    {l : List α} (hl : l.Pairwise fun a b => key a ≤ key b) :
    (insertBy isBefore a l).filter p =
      if p a then insertBy isBefore a (l.filter p) else l.filter p := by
  induction l with
  | nil => cases hp : p a <;> simp [insertBy, hp]
  | cons b rest ih =>
      obtain ⟨hb, hrest⟩ := List.pairwise_cons.1 hl
      rw [insertBy]
      cases hba : isBefore b a with
      | true =>
          rw [if_pos rfl, List.filter_cons, List.filter_cons, ih hrest]
          cases p a <;> cases p b <;> simp [insertBy, hba]
      -- Nothing behind `b` comes before `a` either, whatever is left of it.
      | false =>
          have hab : key a ≤ key b := le_of_not_gt fun hlt => by simp [(h b a).2 hlt] at hba
          have hnone : ∀ x ∈ (b :: rest).filter p, isBefore x a = false := by
            intro x hx
            rw [Bool.eq_false_iff, Ne, h, not_lt]
            rcases List.mem_cons.1 (List.mem_filter.1 hx).1 with rfl | hx
            · exact hab
            · exact hab.trans (hb x hx)
          rw [insertBy_of_forall hnone, if_neg (by simp), List.filter_cons]

theorem filter_sortBy (h : ∀ a b, isBefore a b = true ↔ key a < key b) (p : α → Bool) (l : List α) :
    (sortBy isBefore l).filter p = sortBy isBefore (l.filter p) := by
  induction l with
  | nil => rfl
  | cons a rest ih =>
      rw [sortBy, filter_insertBy h p a (pairwise_sortBy h rest), ih, List.filter_cons]
      cases p a <;> rfl

theorem map_sortBy {γ : Type} {f : α → γ} {isBefore' : γ → γ → Bool}
    (h : ∀ a b, isBefore' (f a) (f b) = isBefore a b) (l : List α) :
    (sortBy isBefore l).map f = sortBy isBefore' (l.map f) := by
  have hinsert : ∀ a (l : List α),
      (insertBy isBefore a l).map f = insertBy isBefore' (f a) (l.map f) := by
    intro a l
    induction l with
    | nil => rfl
    | cons b rest ih =>
        rw [List.map_cons, insertBy, insertBy, h]
        split
        · rw [List.map_cons, ih]
        · rfl
  induction l with
  | nil => rfl
  | cons a rest ih => rw [sortBy, hinsert, ih, List.map_cons, sortBy]

end Sorting

/-! ## Places and rows -/

namespace Address

def key (a : Address) : Date ×ₗ Int := toLex (a.day, a.line)

theorem key_injective : Function.Injective key := by
  rintro ⟨day, line⟩ ⟨day', line'⟩ h
  have hpair : (day, line) = (day', line') := toLex.injective h
  cases hpair
  rfl

end Address

namespace Row

theorem isBefore_iff (r s : Row) : r.isBefore s = true ↔ r.place.key < s.place.key := by
  simp [isBefore, place, Address.key, Prod.Lex.toLex_lt_toLex]

theorem filter_inOrder (p : Row → Bool) (rows : List Row) :
    (inOrder rows).filter p = inOrder (rows.filter p) :=
  filter_sortBy isBefore_iff p rows

theorem map_inOrder {f : Row → Row} (h : ∀ r, (f r).place = r.place) (rows : List Row) :
    (inOrder rows).map f = inOrder (rows.map f) := by
  refine map_sortBy (fun a b => ?_) rows
  rw [Bool.eq_iff_iff, isBefore_iff, isBefore_iff, h, h]

end Row

end DayJournal

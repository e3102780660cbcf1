import DayJournal.Calendar.Date
import Mathlib.Order.Defs.LinearOrder

/-!
# The order of days

A month has at most 31 days, so two days of one rank are the same day and `≤` is a linear order.
-/

namespace DayJournal.Date

theorem daysInMonth_le (year month : Nat) : daysInMonth year month ≤ 31 := by
  unfold daysInMonth
  split
  · split <;> omega
  · split <;> omega

theorem rank_injective {a b : Date} (h : a.rank = b.rank) : a = b := by
  obtain ⟨ya, ma, da, hya, hya', hma, hma', hda, hda'⟩ := a
  obtain ⟨yb, mb, db, hyb, hyb', hmb, hmb', hdb, hdb'⟩ := b
  have ha := daysInMonth_le ya ma
  have hb := daysInMonth_le yb mb
  simp only [rank] at h
  have hyear : ya = yb := by omega
  have hmonth : ma = mb := by omega
  have hday : da = db := by omega
  subst hyear hmonth hday
  rfl

instance : LinearOrder Date where
  le a b := a ≤ b
  lt a b := a < b
  le_refl a := Nat.le_refl a.rank
  le_trans _ _ _ hab hbc := Nat.le_trans hab hbc
  lt_iff_le_not_ge a b := by
    show a.rank < b.rank ↔ a.rank ≤ b.rank ∧ ¬b.rank ≤ a.rank
    omega
  le_antisymm _ _ hab hba := rank_injective (Nat.le_antisymm hab hba)
  le_total a b := Nat.le_total a.rank b.rank
  toDecidableLE a b := inferInstance
  toDecidableEq a b := inferInstance
  toDecidableLT a b := inferInstance

end DayJournal.Date

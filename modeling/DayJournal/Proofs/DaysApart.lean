import DayJournal.Proofs.DateRange

/-!
# Days apart

Moving by days changes the number of a day by as many, and it ends nowhere but at the first and the
last day of the calendar (`exists_later?_of_ordinal`, `exists_earlier?_of_ordinal`).  The nearest
day with a given weekday is one to seven days away on either side.
-/

namespace DayJournal.Date

variable {d e : Date} {n : Nat}

/-! ## One day back -/

theorem ordinal_previous? (h : d.previous? = some e) : e.ordinal + 1 = d.ordinal := by
  obtain ⟨-, -, hmonth1, -, hday1, -⟩ := d.valid
  unfold previous? at h
  split at h
  · obtain ⟨hyear, hmonth, hday⟩ := ofNumbers?_eq_some_iff.1 h
    rw [ordinal, ordinal, hyear, hmonth, hday]
    omega
  · split at h
    · next hlater =>
      obtain ⟨hyear, hmonth, hday⟩ := ofNumbers?_eq_some_iff.1 h
      have hdays : daysBeforeMonth d.year (d.month - 1 + 1) = _ := daysBeforeMonth_succ (by omega)
      rw [Nat.sub_add_cancel hmonth1] at hdays
      rw [ordinal, ordinal, hyear, hmonth, hday, hdays]
      omega
    · obtain ⟨hyear, hmonth, hday⟩ := ofNumbers?_eq_some_iff.1 h
      have hjanuary : d.month = 1 := by omega
      have hyears : d.year = e.year + 1 := by
        have := e.valid.1
        omega
      have hdecember : daysBeforeMonth e.year 13 = daysBeforeMonth e.year 12 + 31 :=
        daysBeforeMonth_succ (by decide)
      have hnone : daysBeforeMonth (e.year + 1) 1 = 0 := rfl
      rw [ordinal, ordinal, hmonth, hday, hyears, hjanuary, daysBeforeYear_succ e.valid.1, hnone,
        hdecember]
      omega

theorem eq_first_of_previous? (h : d.previous? = none) : d = first := by
  obtain ⟨hyear1, hyear9999, hmonth1, hmonth12, hday1, hday⟩ := d.valid
  have hyear : d.year = 1 := by
    by_contra hne
    obtain ⟨e, he⟩ := exists_previous? (d := d) (by omega)
    rw [he] at h
    cases h
  unfold previous? at h
  split at h
  · rw [ofNumbers?_of_isCalendarDay ⟨hyear1, hyear9999, hmonth1, hmonth12, by omega, by omega⟩] at h
    cases h
  · split at h
    · have hlast := le_daysInMonth d.year (d.month - 1)
      rw [ofNumbers?_of_isCalendarDay ⟨hyear1, hyear9999, by omega, by omega, by omega, le_refl _⟩]
        at h
      cases h
    · apply rank_injective
      rw [rank, hyear, show d.month = 1 by omega, show d.day = 1 by omega]
      rfl

/-! ## Several days -/

theorem ordinal_later? (h : later? n d = some e) : e.ordinal = d.ordinal + n := by
  induction n generalizing d with
  | zero =>
      cases h
      rfl
  | succ n ih =>
      obtain ⟨x, hx, h⟩ := Option.bind_eq_some_iff.1 h
      rw [ih h, ordinal_next? hx]
      omega

theorem ordinal_earlier? (h : earlier? n d = some e) : e.ordinal + n = d.ordinal := by
  induction n generalizing d with
  | zero =>
      cases h
      rfl
  | succ n ih =>
      obtain ⟨x, hx, h⟩ := Option.bind_eq_some_iff.1 h
      have hn := ih h
      have hone := ordinal_previous? hx
      omega

theorem exists_later?_of_ordinal (h : d.ordinal + n ≤ last.ordinal) :
    ∃ e, later? n d = some e ∧ e.ordinal = d.ordinal + n := by
  suffices hsome : ∃ e, later? n d = some e by
    obtain ⟨e, he⟩ := hsome
    exact ⟨e, he, ordinal_later? he⟩
  induction n generalizing d with
  | zero => exact ⟨d, rfl⟩
  | succ n ih =>
      cases hnext : d.next? with
      | none =>
          rw [eq_last_of_next? hnext] at h
          omega
      | some x =>
          obtain ⟨e, he⟩ := ih (d := x) (by rw [ordinal_next? hnext]; omega)
          exact ⟨e, by rw [later?, hnext, Option.bind_some, he]⟩

theorem exists_earlier?_of_ordinal (h : first.ordinal + n ≤ d.ordinal) :
    ∃ e, earlier? n d = some e ∧ e.ordinal + n = d.ordinal := by
  suffices hsome : ∃ e, earlier? n d = some e by
    obtain ⟨e, he⟩ := hsome
    exact ⟨e, he, ordinal_earlier? he⟩
  induction n generalizing d with
  | zero => exact ⟨d, rfl⟩
  | succ n ih =>
      cases hprevious : d.previous? with
      | none =>
          rw [eq_first_of_previous? hprevious] at h
          omega
      | some x =>
          obtain ⟨e, he⟩ := ih (d := x) (by have := ordinal_previous? hprevious; omega)
          exact ⟨e, by rw [earlier?, hprevious, Option.bind_some, he]⟩

/-! ## Weekdays -/

theorem val_weekday (d : Date) : d.weekday.val = (d.ordinal + 6) % 7 := rfl

/-- How many days after a weekday the next one comes that is a given weekday, never the day
itself. -/
def daysToWeekday (v w : Weekday) : Nat := if w = v then 7 else (w - v).val

theorem daysToWeekday_bounds (v w : Weekday) : 1 ≤ daysToWeekday v w ∧ daysToWeekday v w ≤ 7 := by
  revert v w
  decide

theorem add_daysToWeekday (v w : Weekday) : (v.val + daysToWeekday v w) % 7 = w.val := by
  revert v w
  decide

theorem exists_nextWeekday? (h : d.ordinal + 7 ≤ last.ordinal) (w : Weekday) :
    ∃ e n, d.nextWeekday? w = some e ∧ e.ordinal = d.ordinal + n ∧ 1 ≤ n ∧ n ≤ 7 ∧
      e.weekday = w := by
  obtain ⟨h1, h7⟩ := daysToWeekday_bounds d.weekday w
  obtain ⟨e, he, hordinal⟩ := exists_later?_of_ordinal (d := d) (n := daysToWeekday d.weekday w)
    (by omega)
  refine ⟨e, _, he, hordinal, h1, h7, ?_⟩
  have hsum := add_daysToWeekday d.weekday w
  rw [val_weekday] at hsum
  apply Fin.ext
  rw [val_weekday]
  omega

theorem exists_previousWeekday? (h : first.ordinal + 7 ≤ d.ordinal) (w : Weekday) :
    ∃ e n, d.previousWeekday? w = some e ∧ e.ordinal + n = d.ordinal ∧ 1 ≤ n ∧ n ≤ 7 ∧
      e.weekday = w := by
  obtain ⟨h1, h7⟩ := daysToWeekday_bounds w d.weekday
  obtain ⟨e, he, hordinal⟩ := exists_earlier?_of_ordinal (d := d) (n := daysToWeekday w d.weekday)
    (by omega)
  refine ⟨e, _, ?_, hordinal, h1, h7, ?_⟩
  · rw [← he, previousWeekday?, daysToWeekday]
    simp only [eq_comm]
  · have hsum := add_daysToWeekday w d.weekday
    rw [val_weekday] at hsum
    apply Fin.ext
    rw [val_weekday]
    omega

end DayJournal.Date

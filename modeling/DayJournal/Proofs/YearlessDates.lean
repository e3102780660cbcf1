import DayJournal.Entry.DateMark
import DayJournal.Proofs.Header

/-!
# Dates without a year

A month and a day without a year mean the next day with that month and day, the day of the reader
included.  `Upcoming` says which days can be written in this way for a reader who looks ahead, and
`yearless?_eq_some_iff` that they are the days that are read.  A 29th of February of the year to
come is none of them: the year is chosen by looking at the same month and day of this year, and
this year has no such day.
-/

namespace DayJournal

open Text

namespace Date

/-- The day is what its month and day alone mean to who looks ahead from `reference`. -/
def Upcoming (reference d : Date) : Prop :=
  d.year = reference.year ∧ reference ≤ d ∨
    d.year = reference.year + 1 ∧
      (d.month < reference.month ∨ d.month = reference.month ∧ d.day < reference.day) ∧
      ¬(d.month = 2 ∧ d.day = 29)

instance (reference d : Date) : Decidable (Upcoming reference d) := by
  unfold Upcoming; infer_instance

/-! ## Order and validity in numbers -/

theorem day_le (d : Date) : d.day ≤ 31 := d.valid.2.2.2.2.2.trans (daysInMonth_le _ _)

theorem lt_iff_of_year_eq {a b : Date} (h : a.year = b.year) :
    a < b ↔ a.month < b.month ∨ a.month = b.month ∧ a.day < b.day := by
  have ha := a.day_le
  have hb := b.day_le
  show a.rank < b.rank ↔ _
  simp only [rank]
  omega

theorem lt_of_year_lt {a b : Date} (h : a.year < b.year) : a < b := by
  have ha := a.day_le
  have hmonth := a.valid.2.2.2.1
  show a.rank < b.rank
  simp only [rank]
  omega

theorem ofNumbers?_eq_some_iff {year month day : Nat} {d : Date} :
    ofNumbers? year month day = some d ↔ d.year = year ∧ d.month = month ∧ d.day = day := by
  constructor
  · intro h
    unfold ofNumbers? at h
    split at h
    · cases h
      exact ⟨rfl, rfl, rfl⟩
    · cases h
  · rintro ⟨rfl, rfl, rfl⟩
    exact ofNumbers?_self d

theorem le_daysInMonth_of_ne {year year' month day : Nat} (hday : day ≤ daysInMonth year month)
    (h : ¬(month = 2 ∧ day = 29)) : day ≤ daysInMonth year' month := by
  unfold daysInMonth at hday ⊢
  split at hday
  · next hmonth =>
    rw [if_pos hmonth]
    split at hday <;> split <;> omega
  · next hmonth =>
    rw [if_neg hmonth]
    exact hday

theorem not_leap_day_twice {year : Nat} (h : 29 ≤ daysInMonth year 2) :
    ¬29 ≤ daysInMonth (year + 1) 2 := by
  have hleap : ∀ y, 29 ≤ daysInMonth y 2 → y % 4 = 0 := by
    intro y hy
    simp only [daysInMonth, if_true] at hy
    split at hy
    · next h =>
      simp only [isLeapYear, Bool.and_eq_true, beq_iff_eq] at h
      exact h.1
    · omega
  intro h'
  have := hleap _ h
  have := hleap _ h'
  omega

/-! ## Reading a month and a day -/

theorem yearless?_eq_some_iff {reference d : Date} {month day : Nat} :
    yearless? .ahead reference month day = some d ↔
      d.month = month ∧ d.day = day ∧ Upcoming reference d := by
  rw [yearless?, Option.bind_eq_some_iff]
  constructor
  · rintro ⟨x, hx, hd⟩
    obtain ⟨hyear, rfl, rfl⟩ := ofNumbers?_eq_some_iff.1 hx
    by_cases hpast : x < reference
    · rw [if_pos hpast] at hd
      obtain ⟨hyear', hmonth, hday⟩ := ofNumbers?_eq_some_iff.1 hd
      refine ⟨hmonth, hday, Or.inr ⟨hyear', ?_, ?_⟩⟩
      · rw [hmonth, hday]
        exact (lt_iff_of_year_eq hyear).1 hpast
      · rintro ⟨h2, h29⟩
        have hx29 := x.valid.2.2.2.2.2
        have hd29 := d.valid.2.2.2.2.2
        rw [← hmonth, ← hday, h2, h29, hyear] at hx29
        rw [h2, h29, hyear'] at hd29
        exact not_leap_day_twice hx29 hd29
    · rw [if_neg hpast] at hd
      cases hd
      exact ⟨rfl, rfl, Or.inl ⟨hyear, not_lt.1 hpast⟩⟩
  · rintro ⟨rfl, rfl, ⟨hyear, hle⟩ | ⟨hyear, hearlier, hleap⟩⟩
    · refine ⟨d, ofNumbers?_eq_some_iff.2 ⟨hyear, rfl, rfl⟩, ?_⟩
      rw [if_neg (not_lt.2 hle)]
    -- The same month and day of this year have passed.
    · obtain ⟨-, -, hm1, hm12, hd1, hdmonth⟩ := d.valid
      obtain ⟨hy1, hy9999, -⟩ := reference.valid
      let x : Date := ⟨reference.year, d.month, d.day,
        hy1, hy9999, hm1, hm12, hd1, le_daysInMonth_of_ne hdmonth hleap⟩
      have hpast : x < reference := (lt_iff_of_year_eq (a := x) (b := reference) rfl).2 hearlier
      refine ⟨x, ofNumbers?_eq_some_iff.2 ⟨rfl, rfl, rfl⟩, ?_⟩
      rw [if_pos hpast]
      exact ofNumbers?_eq_some_iff.2 ⟨hyear, rfl, rfl⟩

theorem Upcoming.le {reference d : Date} (h : Upcoming reference d) : reference ≤ d := by
  rcases h with ⟨-, hle⟩ | ⟨hyear, -, -⟩
  · exact hle
  · exact le_of_lt (lt_of_year_lt (by omega))

/-! ## A few days ahead -/

theorem next?_eq_some {d e : Date} (h : d.next? = some e) :
    e.year = d.year ∧ e.month = d.month ∧ e.day = d.day + 1 ∨
      28 ≤ d.day ∧ e.year = d.year ∧ e.month = d.month + 1 ∧ e.day = 1 ∨
      d.month = 12 ∧ d.day = 31 ∧ e.year = d.year + 1 ∧ e.month = 1 ∧ e.day = 1 := by
  obtain ⟨-, -, -, hm12, -, hdmonth⟩ := d.valid
  unfold next? at h
  split at h
  · exact Or.inl (ofNumbers?_eq_some_iff.1 h)
  · next hlast =>
    have hd : d.day = daysInMonth d.year d.month := by omega
    split at h
    · refine Or.inr (Or.inl ⟨?_, ofNumbers?_eq_some_iff.1 h⟩)
      rw [hd]
      unfold daysInMonth
      split
      · split <;> omega
      · split <;> omega
    · next hmonth =>
      have hdecember : d.month = 12 := by omega
      rw [hdecember] at hd
      exact Or.inr (Or.inr ⟨hdecember, hd, ofNumbers?_eq_some_iff.1 h⟩)

theorem later?_succ (n : Nat) (d : Date) : later? (n + 1) d = (later? n d).bind next? := by
  induction n generalizing d with
  | zero =>
      show (next? d).bind (later? 0) = next? d
      cases next? d <;> rfl
  | succ n ih =>
      show (next? d).bind (later? (n + 1)) = ((next? d).bind (later? n)).bind next?
      rw [Option.bind_assoc]
      congr 1
      funext e
      exact ih e

/-- Where a day stands that is at most a week ahead: no more than one month ends on the way. -/
theorem later?_eq_some_of_le {n : Nat} (hn : n ≤ 7) {today d : Date} (h : later? n today = some d) :
    d.year = today.year ∧ d.month = today.month ∧ d.day = today.day + n ∨
      d.year = today.year ∧ d.month = today.month + 1 ∧ d.day ≤ n ∨
      today.month = 12 ∧ d.year = today.year + 1 ∧ d.month = 1 ∧ d.day ≤ n := by
  induction n generalizing d with
  | zero =>
      cases h
      exact Or.inl ⟨rfl, rfl, rfl⟩
  | succ n ih =>
      rw [later?_succ, Option.bind_eq_some_iff] at h
      obtain ⟨e, he, hnext⟩ := h
      have hd1 := today.valid.2.2.2.2.1
      rcases ih (by omega) he with hsame | hmonth | hyear <;>
        rcases next?_eq_some hnext with hday | hday | hday <;> omega

theorem upcoming_of_later? {n : Nat} (hn : n ≤ 7) {today d : Date} (h : later? n today = some d) :
    Upcoming today d := by
  rcases later?_eq_some_of_le hn h with hsame | hmonth | hyear
  · refine Or.inl ⟨hsame.1, not_lt.1 fun hlt => ?_⟩
    rw [lt_iff_of_year_eq hsame.1] at hlt
    omega
  · refine Or.inl ⟨hmonth.1, not_lt.1 fun hlt => ?_⟩
    rw [lt_iff_of_year_eq hmonth.1] at hlt
    omega
  · refine Or.inr ⟨hyear.2.1, Or.inl ?_, ?_⟩ <;> omega

theorem lt_of_previous? {d e : Date} (h : d.previous? = some e) : e < d := by
  unfold previous? at h
  split at h
  · obtain ⟨hyear, hmonth, hday⟩ := ofNumbers?_eq_some_iff.1 h
    exact (lt_iff_of_year_eq hyear).2 (Or.inr ⟨hmonth, by omega⟩)
  · split at h
    · obtain ⟨hyear, hmonth, -⟩ := ofNumbers?_eq_some_iff.1 h
      exact (lt_iff_of_year_eq hyear).2 (Or.inl (by omega))
    · obtain ⟨hyear, -, -⟩ := ofNumbers?_eq_some_iff.1 h
      have h1 := d.valid.1
      exact lt_of_year_lt (by omega)

end Date

/-! ## Dates as they are written -/

theorem Text.numeralValue_twoDigits (n : Nat) : numeralValue (twoDigits n) = n % 100 := by
  simp only [twoDigits, numeralValue, List.foldl_cons, List.foldl_nil,
    digitValue?_digitChar (Nat.mod_lt (n / 10) (by decide)),
    digitValue?_digitChar (Nat.mod_lt n (by decide)), Option.getD_some]
  omega

theorem Text.isNumeral_twoDigits (n : Nat) : isNumeral (twoDigits n) = true := by
  simp [isNumeral, twoDigits, isDigit, digitValue?_digitChar (Nat.mod_lt _ (by decide : 0 < 10))]

theorem Text.slash_not_mem_twoDigits (n : Nat) : '/' ∉ twoDigits n :=
  fun h => absurd (isDigit_of_mem_twoDigits h) (by decide)

theorem Date.pieces_monthDay (d : Date) :
    pieces '/' d.monthDay = [twoDigits d.month, twoDigits d.day] := by
  rw [Date.monthDay, pieces_append_cons, pieces_of_not_mem (slash_not_mem_twoDigits _),
    pieces_of_not_mem (slash_not_mem_twoDigits _)]
  rfl

theorem Date.pieces_monthDayYear (d : Date) :
    pieces '/' (d.monthDay ++ '/' :: twoDigits d.year) =
      [twoDigits d.month, twoDigits d.day, twoDigits d.year] := by
  rw [pieces_append_cons, Date.pieces_monthDay, pieces_of_not_mem (slash_not_mem_twoDigits _)]
  rfl

theorem Date.month_mod_hundred (d : Date) : d.month % 100 = d.month := by
  have hmonth := d.valid.2.2.2.1
  exact Nat.mod_eq_of_lt (by omega)

theorem Date.day_mod_hundred (d : Date) : d.day % 100 = d.day := by
  have hday := d.day_le
  exact Nat.mod_eq_of_lt (by omega)

theorem Date.absolute?_monthDay (outlook : Outlook) (reference d : Date) :
    absolute? outlook reference d.monthDay = yearless? outlook reference d.month d.day := by
  simp only [absolute?, pieces_monthDay, List.all_cons, List.all_nil, isNumeral_twoDigits,
    numeralValue_twoDigits, month_mod_hundred, day_mod_hundred, Bool.and_self, if_true]

theorem Date.absolute?_monthDay_eq_some_iff {reference d : Date} :
    absolute? .ahead reference d.monthDay = some d ↔ Upcoming reference d := by
  rw [absolute?_monthDay, yearless?_eq_some_iff]
  simp

theorem Date.absolute?_monthDayYear (outlook : Outlook) (reference d : Date) :
    absolute? outlook reference (d.monthDay ++ '/' :: twoDigits d.year) =
      ofNumbers? (d.year % 100 + 2000) d.month d.day := by
  simp only [absolute?, pieces_monthDayYear, List.all_cons, List.all_nil, isNumeral_twoDigits,
    numeralValue_twoDigits, month_mod_hundred, day_mod_hundred, Bool.and_self, if_true]
  rw [if_neg (by simp [twoDigits]), if_pos (Nat.mod_lt _ (by decide))]

end DayJournal

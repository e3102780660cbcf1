import DayJournal.Proofs.DateChanges
import Mathlib.Order.Bounds.Defs

/-!
# The nearest date with a month and day

A month and a day without a year are looked for in this year and the next by who looks ahead, and
in this year and the last by who looks back.  What is read is the nearest such date on the side that
is looked at (`isLeast_of_yearless?`, `isGreatest_of_yearless?`).  A date mark is written without
its year just when it is read in this way as the day that is meant; with its year it is read as that
day in any case, so what is written is read back (`write_read_back`).
-/

namespace DayJournal

open Text

namespace Date

/-- The dates of this year and the next that have a month and day and are not before today. -/
def notBefore (today : Date) (month day : Nat) : Set Date :=
  {d | d.month = month ∧ d.day = day ∧ today ≤ d ∧
    (d.year = today.year ∨ d.year = today.year + 1)}

def notAfter (today : Date) (month day : Nat) : Set Date :=
  {d | d.month = month ∧ d.day = day ∧ d ≤ today ∧
    (d.year = today.year ∨ d.year + 1 = today.year)}

variable {today d e : Date} {month day : Nat}

theorem eq_of_numbers (hyear : d.year = e.year) (hmonth : d.month = e.month)
    (hday : d.day = e.day) : d = e :=
  Option.some.inj ((ofNumbers?_self d).symm.trans (ofNumbers?_eq_some_iff.2
    ⟨hyear.symm, hmonth.symm, hday.symm⟩))

/-! ## Looking ahead -/

theorem Upcoming.isLeast (h : Upcoming today d) : IsLeast (notBefore today d.month d.day) d := by
  refine ⟨⟨rfl, rfl, h.le, ?_⟩, ?_⟩
  · rcases h with ⟨hyear, -⟩ | ⟨hyear, -⟩
    · exact Or.inl hyear
    · exact Or.inr hyear
  · rintro e ⟨hmonth, hday, hle, hyears⟩
    rcases h with ⟨hyear, -⟩ | ⟨hyear, hearlier, -⟩
    · rcases hyears with hsame | hnext
      · exact le_of_eq (eq_of_numbers (hyear.trans hsame.symm) hmonth.symm hday.symm)
      · exact le_of_lt (lt_of_year_lt (by omega))
    · rcases hyears with hsame | hnext
      -- This year the month and day have passed.
      · have hpast : e < today := (lt_iff_of_year_eq hsame).2 (by rwa [hmonth, hday])
        exact absurd hle (not_le.2 hpast)
      · exact le_of_eq (eq_of_numbers (hyear.trans hnext.symm) hmonth.symm hday.symm)

theorem isLeast_of_yearless? (h : yearless? .ahead today month day = some d) :
    IsLeast (notBefore today month day) d := by
  obtain ⟨rfl, rfl, hupcoming⟩ := yearless?_eq_some_iff.1 h
  exact hupcoming.isLeast

/-- A day is upcoming when this year has its month and day and it is the first date from today on
that has them. -/
theorem upcoming_iff :
    Upcoming today d ↔
      IsCalendarDay today.year d.month d.day ∧ IsLeast (notBefore today d.month d.day) d := by
  constructor
  · intro h
    refine ⟨?_, h.isLeast⟩
    obtain ⟨-, -, hm1, hm12, hd1, hdmonth⟩ := d.valid
    obtain ⟨hy1, hy9999, -⟩ := today.valid
    refine ⟨hy1, hy9999, hm1, hm12, hd1, ?_⟩
    rcases h with ⟨hyear, -⟩ | ⟨-, -, hleap⟩
    · rwa [← hyear]
    · exact le_daysInMonth_of_ne hdmonth hleap
  · rintro ⟨hvalid, ⟨-, -, hle, hyears⟩, hleast⟩
    rcases hyears with hsame | hnext
    · exact Or.inl ⟨hsame, hle⟩
    · let x : Date := ⟨today.year, d.month, d.day, hvalid⟩
      have hpast : x < today := by
        by_contra hcoming
        have hdx : d ≤ x := hleast ⟨rfl, rfl, not_lt.1 hcoming, Or.inl rfl⟩
        have hxd : x < d := lt_of_year_lt (show today.year < d.year by omega)
        exact absurd hdx (not_le.2 hxd)
      refine Or.inr ⟨hnext, (lt_iff_of_year_eq (a := x) (b := today) rfl).1 hpast, ?_⟩
      rintro ⟨h2, h29⟩
      have hthis := hvalid.2.2.2.2.2
      have hcoming := d.valid.2.2.2.2.2
      rw [h2, h29] at hthis
      rw [h2, h29, hnext] at hcoming
      exact not_leap_day_twice hthis hcoming

/-! ## Looking back -/

theorem isGreatest_of_yearless? (h : yearless? .back today month day = some d) :
    IsGreatest (notAfter today month day) d := by
  rw [yearless?, Option.bind_eq_some_iff] at h
  obtain ⟨x, hx, hd⟩ := h
  obtain ⟨hxyear, hxmonth, hxday⟩ := ofNumbers?_eq_some_iff.1 hx
  by_cases hcoming : today < x
  · rw [if_pos hcoming] at hd
    obtain ⟨hyear, hmonth, hday⟩ := ofNumbers?_eq_some_iff.1 hd
    have hlast : d.year + 1 = today.year := by
      have := today.valid.1
      omega
    refine ⟨⟨hmonth, hday, le_of_lt (lt_of_year_lt (by omega)), Or.inr hlast⟩, ?_⟩
    rintro e ⟨hmonth', hday', hle, hsame | hlast'⟩
    · have hex : e = x := eq_of_numbers (hsame.trans hxyear.symm) (hmonth'.trans hxmonth.symm)
        (hday'.trans hxday.symm)
      exact absurd hle (not_le.2 (hex ▸ hcoming))
    · exact le_of_eq (eq_of_numbers (by omega) (hmonth'.trans hmonth.symm) (hday'.trans hday.symm))
  · rw [if_neg hcoming] at hd
    cases hd
    refine ⟨⟨hxmonth, hxday, not_lt.1 hcoming, Or.inl hxyear⟩, ?_⟩
    rintro e ⟨hmonth', hday', -, hsame | hlast⟩
    · exact le_of_eq (eq_of_numbers (hsame.trans hxyear.symm) (hmonth'.trans hxmonth.symm)
        (hday'.trans hxday.symm))
    · exact le_of_lt (lt_of_year_lt (by omega))

end Date

namespace DateMark

theorem short_ne_long (d : Date) : short d ≠ long d := by
  intro h
  have hlength := congrArg List.length h
  simp [long] at hlength

theorem write_eq_short_iff {d today : Date} : write d today = short d ↔ Date.Upcoming today d := by
  rw [← Date.absolute?_monthDay_eq_some_iff, write]
  split
  · next h => exact iff_of_true rfl h
  · next h => exact iff_of_false (short_ne_long d).symm h

/-- The mark that is written for a day of this century is a date mark as a whole and is read as that
day from today.  It has no year just when this year has the month and day and the day is the first
date from today on, in this year and the next, that has them. -/
theorem write_read_back {d today : Date} (hfirst : 2000 ≤ d.year) (hlast : d.year ≤ 2099) :
    (∃ run, pattern none (write d today) = some ((write d today).length, run)) ∧
      targetDate? (write d today) today = some d ∧
      (write d today = short d ↔
        IsCalendarDay today.year d.month d.day ∧
          IsLeast (Date.notBefore today d.month d.day) d) := by
  obtain ⟨run, hwrite, hrun, hread⟩ := exists_run_write d today
  refine ⟨⟨run, ?_⟩, ?_, write_eq_short_iff.trans Date.upcoming_iff⟩
  · rw [hwrite]
    exact hrun.pattern_eq
  · rw [targetDate?_eq, hwrite, hrun.tokens]
    refine (hread today d).2 ⟨rfl, rfl, ?_⟩
    split
    · assumption
    · omega

/-- A leap day of next year is the first to come, but this year has none: its mark has the year. -/
theorem write_read_back_leap_day :
    2000 ≤ 2028 ∧ 2028 ≤ 2099 ∧
      write ⟨2028, 2, 29, by decide⟩ ⟨2027, 3, 1, by decide⟩ = "@02/29/28".toList ∧
      targetDate? (write ⟨2028, 2, 29, by decide⟩ ⟨2027, 3, 1, by decide⟩)
        ⟨2027, 3, 1, by decide⟩ = some ⟨2028, 2, 29, by decide⟩ ∧
      ¬(IsCalendarDay 2027 2 29 ∧
        IsLeast (Date.notBefore ⟨2027, 3, 1, by decide⟩ 2 29) ⟨2028, 2, 29, by decide⟩) := by
  have h := @write_read_back ⟨2028, 2, 29, by decide⟩ ⟨2027, 3, 1, by decide⟩ (by decide)
    (by decide)
  refine ⟨by decide, by decide, by decide +kernel, h.2.1, ?_⟩
  rw [← h.2.2]
  decide +kernel

end DateMark

end DayJournal

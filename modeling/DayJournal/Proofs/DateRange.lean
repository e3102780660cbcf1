import DayJournal.Proofs.RelativeMarks
import Mathlib.Order.Monotone.Basic

/-!
# Ranges of days

The number of a day grows by one from each day to the next, so it orders the days, and the days of
a range are those from its first to its last day, each once.
-/

namespace DayJournal.Date

/-! ## The number of a day -/

theorem daysBeforeMonth_succ {year month : Nat} (h : 1 ≤ month) :
    daysBeforeMonth year (month + 1) = daysBeforeMonth year month + daysInMonth year month := by
  rw [daysBeforeMonth, if_neg (by omega)]

theorem monotone_daysBeforeMonth (year : Nat) : Monotone (daysBeforeMonth year) :=
  monotone_nat_of_le_succ fun _ => Nat.le_add_right _ _

theorem daysBeforeMonth_thirteen (year : Nat) :
    daysBeforeMonth year 13 = if isLeapYear year then 366 else 365 := by
  simp only [daysBeforeMonth, daysInMonth]
  cases isLeapYear year <;> rfl

theorem daysBeforeYear_succ {year : Nat} (h : 1 ≤ year) :
    daysBeforeYear (year + 1) = daysBeforeYear year + daysBeforeMonth year 13 := by
  obtain ⟨y, rfl⟩ : ∃ y, year = y + 1 := ⟨year - 1, by omega⟩
  have hcenturies : y / 100 ≤ y / 4 := Nat.div_le_div_left (by decide) (by decide)
  -- A quotient grows just when the year is a multiple of its divisor.
  have h100 : 100 ∣ y + 1 → 4 ∣ y + 1 := (show 4 ∣ 100 by decide).trans
  have h400 : 400 ∣ y + 1 → 100 ∣ y + 1 := (show 100 ∣ 400 by decide).trans
  have hleap : isLeapYear (y + 1) = true ↔ 4 ∣ y + 1 ∧ (¬100 ∣ y + 1 ∨ 400 ∣ y + 1) := by
    simp [isLeapYear, Nat.dvd_iff_mod_eq_zero]
  rw [daysBeforeMonth_thirteen, daysBeforeYear, daysBeforeYear, Nat.add_sub_cancel,
    Nat.add_sub_cancel, Nat.succ_div, Nat.succ_div, Nat.succ_div]
  generalize y / 4 = fours, y / 100 = hundreds, y / 400 = cycles at *
  split_ifs <;> first | omega | simp_all

theorem daysBeforeYear_le {year year' : Nat} (h : 1 ≤ year) (hle : year ≤ year') :
    daysBeforeYear year ≤ daysBeforeYear year' := by
  induction year', hle using Nat.le_induction with
  | base => exact Nat.le_refl _
  | succ n hn ih =>
      rw [daysBeforeYear_succ (h.trans hn)]
      omega

theorem ordinal_le_of_month_lt (d : Date) {month : Nat} (h : d.month < month) :
    d.ordinal ≤ daysBeforeYear d.year + daysBeforeMonth d.year month := by
  have hday := d.valid.2.2.2.2.2
  have hmonth : daysBeforeMonth d.year (d.month + 1) = _ := daysBeforeMonth_succ d.valid.2.2.1
  have hmono := monotone_daysBeforeMonth d.year (show d.month + 1 ≤ month from h)
  rw [ordinal]
  omega

theorem strictMono_ordinal : StrictMono ordinal := by
  intro a b h
  have hb := b.valid.2.2.2.2.1
  rcases Nat.lt_trichotomy a.year b.year with hyear | hyear | hyear
  · have ha := a.ordinal_le_of_month_lt (show a.month < 13 from Nat.lt_succ_of_le a.valid.2.2.2.1)
    have hyears := daysBeforeYear_le (a.valid.1.trans (Nat.le_succ _)) hyear
    rw [daysBeforeYear_succ a.valid.1] at hyears
    rw [show b.ordinal = daysBeforeYear b.year + daysBeforeMonth b.year b.month + b.day from rfl]
    omega
  · rcases (lt_iff_of_year_eq hyear).1 h with hmonth | ⟨hmonth, hday⟩
    · have ha := a.ordinal_le_of_month_lt hmonth
      rw [hyear] at ha
      rw [show b.ordinal = daysBeforeYear b.year + daysBeforeMonth b.year b.month + b.day from rfl]
      omega
    · rw [ordinal, ordinal, hyear, hmonth]
      omega
  · exact absurd (lt_of_year_lt hyear) (lt_asymm h)

theorem ordinal_next? {d e : Date} (h : d.next? = some e) : e.ordinal = d.ordinal + 1 := by
  obtain ⟨hyear1, -, hmonth1, hmonth12, -, hday⟩ := d.valid
  unfold next? at h
  split at h
  · obtain ⟨hyear, hmonth, hday'⟩ := ofNumbers?_eq_some_iff.1 h
    rw [ordinal, ordinal, hyear, hmonth, hday']
    omega
  · split at h
    · obtain ⟨hyear, hmonth, hday'⟩ := ofNumbers?_eq_some_iff.1 h
      rw [ordinal, ordinal, hyear, hmonth, hday', daysBeforeMonth_succ hmonth1]
      omega
    · obtain ⟨hyear, hmonth, hday'⟩ := ofNumbers?_eq_some_iff.1 h
      have hdecember : d.month + 1 = 13 := by omega
      have hfirst : daysBeforeMonth (d.year + 1) 1 = 0 := rfl
      rw [ordinal, ordinal, hyear, hmonth, hday', daysBeforeYear_succ hyear1, hfirst, ← hdecember,
        daysBeforeMonth_succ hmonth1]
      omega

/-! ## The days of a range -/

theorem le_last (d : Date) : d ≤ last := by
  have hday := d.day_le
  obtain ⟨-, hyear, -, hmonth, -, -⟩ := d.valid
  show 10000 * d.year + 100 * d.month + d.day ≤ 99991231
  omega

theorem eq_last_of_next? {d : Date} (h : d.next? = none) : d = last := by
  obtain ⟨hyear1, hyear9999, hmonth1, hmonth12, hday1, hday⟩ := d.valid
  have hyear : d.year = 9999 := by
    by_contra hne
    obtain ⟨e, he, -⟩ := exists_next? (d := d) (by omega)
    rw [he] at h
    cases h
  unfold next? at h
  split at h
  · next hlt =>
    rw [ofNumbers?_of_isCalendarDay ⟨hyear1, hyear9999, hmonth1, hmonth12, by omega, hlt⟩] at h
    cases h
  · next hfull =>
    split at h
    · next hmonth =>
      have hlast := le_daysInMonth d.year (d.month + 1)
      rw [ofNumbers?_of_isCalendarDay ⟨hyear1, hyear9999, by omega, hmonth, le_refl 1,
        (show 1 ≤ 28 by decide).trans hlast⟩] at h
      cases h
    · have hdecember : d.month = 12 := by omega
      have hdays : daysInMonth d.year d.month = 31 := by
        rw [hyear, hdecember]
        rfl
      have hday31 : d.day = 31 := by omega
      apply rank_injective
      rw [rank, hyear, hdecember, hday31]
      rfl

theorem mem_days {n : Nat} {start d : Date} :
    d ∈ days n start ↔ start.ordinal ≤ d.ordinal ∧ d.ordinal < start.ordinal + n := by
  induction n generalizing start with
  | zero => simp [days]
  | succ n ih =>
      have hstart : d = start ↔ d.ordinal = start.ordinal :=
        strictMono_ordinal.injective.eq_iff.symm
      rw [days, List.mem_cons, hstart]
      cases hnext : start.next? with
      | some e =>
          have hordinal := ordinal_next? hnext
          simp only [ih]
          omega
      | none =>
          have hlast := strictMono_ordinal.monotone d.le_last
          rw [← eq_last_of_next? hnext] at hlast
          simp only [List.not_mem_nil, or_false]
          omega

theorem pairwise_days (n : Nat) (start : Date) : (days n start).Pairwise (· < ·) := by
  induction n generalizing start with
  | zero => exact .nil
  | succ n ih =>
      rw [days]
      cases hnext : start.next? with
      | none => exact List.pairwise_singleton _ _
      | some e =>
          refine List.pairwise_cons.2 ⟨fun d hd => ?_, ih e⟩
          have hordinal := ordinal_next? hnext
          rw [← strictMono_ordinal.lt_iff_lt]
          have hd' := (mem_days.1 hd).1
          omega

theorem mem_range {start finish d : Date} : d ∈ range start finish ↔ start ≤ d ∧ d ≤ finish := by
  rw [range, mem_days, strictMono_ordinal.le_iff_le.symm, strictMono_ordinal.le_iff_le.symm]
  omega

end DayJournal.Date

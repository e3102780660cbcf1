import DayJournal.Proofs.PatternBounds
import DayJournal.Proofs.PlainContent
import DayJournal.Proofs.SmallLetters
import DayJournal.Proofs.YearlessDates
import Mathlib.Data.List.Induction

/-!
# Relative date marks

A relative date mark is turned into a date mark when its content is saved.  This module says which
date marks are written (`normalize_eq_ok_iff`), that in the years of the program each relative mark
stands for a day, and when the date mark that is written means that day to a reader of the same day
(`normalize_keeps_day`).  The mark for today has its year.  All others have none, so yesterday is
lost, and a day further ahead is kept just when it is upcoming.
-/

namespace DayJournal

open Text

/-! ## Which words name a day -/

namespace Text

theorem digitValue?_getD_le (c : Char) : (digitValue? c).getD 0 ≤ 9 := by
  unfold digitValue?
  cases h : digitZeros.find? fun z => z ≤ c.toNat && c.toNat ≤ z + 9 with
  | none => exact Nat.zero_le 9
  | some first =>
      have hfirst := List.find?_some h
      simp only [Bool.and_eq_true, decide_eq_true_eq] at hfirst
      simp only [Option.map_some, Option.getD_some]
      omega

theorem numeralValue_lt (s : Text) : numeralValue s < 10 ^ s.length := by
  induction s using List.reverseRecOn with
  | nil => decide
  | append_singleton s c ih =>
      have hc := digitValue?_getD_le c
      rw [numeralValue] at ih ⊢
      rw [List.foldl_append, List.length_append, List.length_singleton, Nat.pow_succ]
      simp only [List.foldl_cons, List.foldl_nil]
      omega

end Text

theorem Outlook.signed_lower (outlook : Outlook) {word : Text}
    (h : ∀ c ∈ word, isWordChar c = true) :
    outlook.signed (lower word) = (lower word, outlook) := by
  have hsign : ∀ sign : Char, 0 < sign.toNat → sign.toNat < 65 → isWordChar sign = false →
      (lower word).getLast? ≠ some sign := by
    intro sign hpos hlt hword hlast
    rw [h sign (mem_lowerFrom hpos hlt (List.mem_of_getLast? hlast))] at hword
    cases hword
  unfold Outlook.signed
  split
  · next hlast => exact absurd hlast (hsign '+' (by decide) (by decide) (by decide +kernel))
  · next hlast => exact absurd hlast (hsign '-' (by decide) (by decide) (by decide +kernel))
  · rfl

theorem Weekday.ofLowerName?_of_isDigit {c : Char} (h : c.isDigit = true) (rest : Text) :
    ofLowerName? (c :: rest) = none := by
  have hnames : names.all (fun name => !name.head?.any Char.isDigit) = true := by decide
  rw [ofLowerName?, Option.map_eq_none_iff, List.idxOf?_eq_none_iff]
  intro hmem
  have hname := List.all_eq_true.1 hnames _ hmem
  rw [List.head?_cons, Option.any_some, h] at hname
  cases hname

namespace RelativeDay

theorem dayCount?_of_isDigit {c : Char} (h : c.isDigit = true) (rest : Text) :
    dayCount? (c :: rest) = none := by
  have hd : c ≠ 'd' := by
    rintro rfl
    cases h
  unfold dayCount?
  split
  · next heq => exact absurd (List.cons.inj heq).1 hd
  · rfl

theorem dayCount?_lt {word : Text} {n : Nat} (h : dayCount? word = some n) : n < 1000 := by
  unfold dayCount? at h
  split at h
  · next digits =>
    split at h
    · next hdigits =>
      cases h
      simp only [Bool.and_eq_true, decide_eq_true_eq] at hdigits
      exact (numeralValue_lt digits).trans_le
        (Nat.pow_le_pow_right (n := 10) (by decide) hdigits.1.2)
    · cases h
  · cases h

theorem ofToken?_of_isDigit {c : Char} (h : c.isDigit = true) (outlook : Outlook) (rest : Text) :
    ofToken? outlook (c :: rest) = none := by
  have hname : ∀ name : Text, name.head?.any Char.isDigit = false → lower (c :: rest) ≠ name := by
    rintro name hdigit rfl
    rw [lower, lowerFrom_of_isDigit h, List.head?_cons, Option.any_some, h] at hdigit
    cases hdigit
  have hbase : ∀ base, base <+: lower (c :: rest) →
      dayCount? base = none ∧ Weekday.ofLowerName? base = none := by
    intro base hstart
    cases base with
    | nil => exact ⟨rfl, rfl⟩
    | cons x base =>
        rw [lower, lowerFrom_of_isDigit h, List.cons_prefix_cons] at hstart
        rw [hstart.1]
        exact ⟨dayCount?_of_isDigit h base, Weekday.ofLowerName?_of_isDigit h base⟩
  have hsigned : (outlook.signed (lower (c :: rest))).1 <+: lower (c :: rest) := by
    unfold Outlook.signed
    split
    · exact List.dropLast_prefix _
    · exact List.dropLast_prefix _
    · exact List.prefix_refl _
  obtain ⟨hcount, hweekday⟩ := hbase _ hsigned
  simp only [ofToken?, if_neg (hname "today".toList (by decide)),
    if_neg (hname "tomorrow".toList (by decide)), if_neg (hname "yesterday".toList (by decide)),
    hcount, hweekday, Option.map_none]

theorem ofToken?_ahead {word : Text} (h : ∀ c ∈ word, isWordChar c = true) {day : RelativeDay}
    (hday : ofToken? .ahead word = some day) :
    day = .today ∧ lower word = "today".toList ∨ lower word ≠ "today".toList ∧
      (day = .tomorrow ∨ day = .yesterday ∨ (∃ n < 1000, day = .daysAway n .ahead) ∨
        ∃ w, day = .weekday w .ahead) := by
  unfold ofToken? at hday
  simp only [Outlook.signed_lower .ahead h] at hday
  split at hday
  · next htoday =>
    cases hday
    exact Or.inl ⟨rfl, htoday⟩
  · next htoday =>
    refine Or.inr ⟨htoday, ?_⟩
    split at hday
    · cases hday
      exact Or.inl rfl
    · split at hday
      · cases hday
        exact Or.inr (Or.inl rfl)
      · split at hday
        · next count hcount =>
          cases hday
          exact Or.inr (Or.inr (Or.inl ⟨count, dayCount?_lt hcount, rfl⟩))
        · obtain ⟨w, -, rfl⟩ := Option.map_eq_some_iff.1 hday
          exact Or.inr (Or.inr (Or.inr ⟨w, rfl⟩))

end RelativeDay

/-! ## Days within reach -/

namespace Date

theorem le_daysInMonth (year month : Nat) : 28 ≤ daysInMonth year month := by
  unfold daysInMonth
  split
  · split <;> omega
  · split <;> omega

theorem ofNumbers?_of_isCalendarDay {year month day : Nat} (h : IsCalendarDay year month day) :
    ofNumbers? year month day = some ⟨year, month, day, h⟩ := dif_pos h

theorem exists_next? {d : Date} (h : d.year < 9999) :
    ∃ e, d.next? = some e ∧ e.year ≤ d.year + 1 := by
  obtain ⟨h1, -, hm1, hm12, -, -⟩ := d.valid
  unfold next?
  split
  · next hday =>
    exact ⟨_, ofNumbers?_of_isCalendarDay ⟨h1, by omega, hm1, hm12, by omega, hday⟩, Nat.le_succ _⟩
  · split
    · next hmonth =>
      have hlast := le_daysInMonth d.year (d.month + 1)
      exact ⟨_, ofNumbers?_of_isCalendarDay ⟨h1, by omega, by omega, hmonth, le_refl 1,
        (show 1 ≤ 28 by decide).trans hlast⟩, Nat.le_succ _⟩
    · have hlast := le_daysInMonth (d.year + 1) 1
      exact ⟨_, ofNumbers?_of_isCalendarDay ⟨by omega, h, le_refl 1, by decide, le_refl 1,
        (show 1 ≤ 28 by decide).trans hlast⟩, le_refl _⟩

theorem exists_later? {n : Nat} {d : Date} (h : d.year + n ≤ 9999) : ∃ e, later? n d = some e := by
  induction n generalizing d with
  | zero => exact ⟨d, rfl⟩
  | succ n ih =>
      obtain ⟨e, he, hyear⟩ := exists_next? (d := d) (by omega)
      obtain ⟨e', he'⟩ := ih (d := e) (by omega)
      exact ⟨e', by rw [later?, he, Option.bind_some, he']⟩

theorem exists_previous? {d : Date} (h : 1 < d.year) : ∃ e, d.previous? = some e := by
  obtain ⟨h1, h9999, hm1, hm12, -, hday⟩ := d.valid
  unfold previous?
  split
  · exact ⟨_, ofNumbers?_of_isCalendarDay ⟨h1, h9999, hm1, hm12, by omega, by omega⟩⟩
  · split
    · have hlast := le_daysInMonth d.year (d.month - 1)
      exact ⟨_, ofNumbers?_of_isCalendarDay ⟨h1, h9999, by omega, by omega, by omega, le_refl _⟩⟩
    · exact ⟨_, ofNumbers?_of_isCalendarDay
        ⟨by omega, by omega, by decide, le_refl 12, by decide, le_refl 31⟩⟩

theorem nextWeekday?_eq (d : Date) (w : Weekday) : ∃ n ≤ 7, d.nextWeekday? w = later? n d := by
  unfold nextWeekday?
  split
  · exact ⟨7, le_refl 7, rfl⟩
  · exact ⟨(w - d.weekday).val, (w - d.weekday).isLt.le, rfl⟩

end Date

namespace RelativeDay

/-- Whether a reader of today is still told the day `d`, once its year is left out wherever a date
mark has none. -/
def Kept (today d : Date) : RelativeDay → Prop
  | .today | .tomorrow | .weekday _ _ => True
  | .yesterday => False
  | .daysAway _ _ => Date.Upcoming today d

theorem exists_resolve {today : Date} (hfirst : 1 < today.year) (hlast : today.year ≤ 9000)
    {word : Text} (hword : ∀ c ∈ word, isWordChar c = true) {day : RelativeDay}
    (hday : ofToken? .ahead word = some day) : ∃ d, day.resolve today = .ok (some d) := by
  rcases ofToken?_ahead hword hday with ⟨rfl, -⟩ | ⟨-, rfl | rfl | ⟨n, hn, rfl⟩ | ⟨w, rfl⟩⟩
  · exact ⟨today, rfl⟩
  · obtain ⟨d, hd, -⟩ := Date.exists_next? (d := today) (by omega)
    exact ⟨d, congrArg Except.ok hd⟩
  · obtain ⟨d, hd⟩ := Date.exists_previous? hfirst
    exact ⟨d, congrArg Except.ok hd⟩
  · obtain ⟨d, hd⟩ := Date.exists_later? (n := n) (d := today) (by omega)
    exact ⟨d, congrArg Except.ok hd⟩
  · obtain ⟨n, hn, hnext⟩ := Date.nextWeekday?_eq today w
    obtain ⟨d, hd⟩ := Date.exists_later? (n := n) (d := today) (by omega)
    exact ⟨d, by rw [resolve, hnext, hd]; rfl⟩

theorem upcoming_iff_kept {today d : Date} {word : Text}
    (hword : ∀ c ∈ word, isWordChar c = true) {day : RelativeDay}
    (hday : ofToken? .ahead word = some day) (htoday : lower word ≠ "today".toList)
    (hd : day.resolve today = .ok (some d)) : Date.Upcoming today d ↔ day.Kept today d := by
  rcases ofToken?_ahead hword hday with ⟨-, htoday'⟩ | ⟨-, rfl | rfl | ⟨n, hn, rfl⟩ | ⟨w, rfl⟩⟩
  · exact absurd htoday' htoday
  · have hnext : today.later? 1 = some d := by
      rw [Date.later?_succ]
      exact Except.ok.inj hd
    exact iff_of_true (Date.upcoming_of_later? (by decide) hnext) trivial
  · have hlt := Date.lt_of_previous? (Except.ok.inj hd)
    exact iff_of_false (fun hupcoming => absurd hlt (not_lt.2 hupcoming.le)) id
  · rfl
  · obtain ⟨n, hn, hnext⟩ := Date.nextWeekday?_eq today w
    rw [resolve, hnext] at hd
    cases hlater : today.later? n with
    | none =>
        rw [hlater] at hd
        cases hd
    | some e =>
        rw [hlater] at hd
        cases hd
        exact iff_of_true (Date.upcoming_of_later? hn hlater) trivial

end RelativeDay

/-! ## Reading a date mark again -/

namespace Date

theorem ofToken_of_relative {outlook : Outlook} {token : Text} {day : RelativeDay} (today : Date)
    (h : RelativeDay.ofToken? outlook token = some day) :
    ofToken outlook today token = day.resolve today := by
  simp only [ofToken, h]

theorem monthDay_eq_cons (d : Date) : ∃ c rest, d.monthDay = c :: rest ∧ c.isDigit = true :=
  ⟨Nat.digitChar (d.month / 10 % 10), _, rfl,
    isDigit_of_mem_twoDigits (n := d.month) (by simp [twoDigits])⟩

theorem oversized?_eq_none {token : Text} (h : ∀ part ∈ pieces '/' token, part.length ≤ 4) :
    oversized? token = none := by
  have hnone :
      (pieces '/' token).find? (fun part => Fault.longestNumeral < part.length) = none := by
    rw [List.find?_eq_none]
    intro part hpart
    have := h part hpart
    have : 4 ≤ Fault.longestNumeral := by decide
    simp only [decide_eq_true_eq]
    omega
  unfold oversized?
  simp only [hnone, Option.map_none, ite_self]

theorem ofToken_monthDay (outlook : Outlook) (today d : Date) :
    ofToken outlook today d.monthDay = .ok (yearless? outlook today d.month d.day) := by
  obtain ⟨c, rest, hcons, hdigit⟩ := d.monthDay_eq_cons
  have hnone : RelativeDay.ofToken? outlook d.monthDay = none := by
    rw [hcons]
    exact RelativeDay.ofToken?_of_isDigit hdigit outlook rest
  have hsize : oversized? d.monthDay = none :=
    oversized?_eq_none (by rw [pieces_monthDay]; simp [twoDigits])
  simp only [ofToken, hnone, hsize, absolute?_monthDay]

theorem ofToken_monthDayYear (outlook : Outlook) (today d : Date) :
    ofToken outlook today (d.monthDay ++ '/' :: twoDigits d.year) =
      .ok (ofNumbers? (d.year % 100 + 2000) d.month d.day) := by
  obtain ⟨c, rest, hcons, hdigit⟩ := d.monthDay_eq_cons
  have hnone : RelativeDay.ofToken? outlook (d.monthDay ++ '/' :: twoDigits d.year) = none := by
    rw [hcons]
    exact RelativeDay.ofToken?_of_isDigit hdigit outlook _
  have hsize : oversized? (d.monthDay ++ '/' :: twoDigits d.year) = none :=
    oversized?_eq_none (by rw [pieces_monthDayYear]; simp [twoDigits])
  simp only [ofToken, hnone, hsize, absolute?_monthDayYear]

end Date

/-! ## Contents with relative marks -/

namespace DateMark

variable {content : Text} {today : Date}

theorem of_found_mem {text token : Text}
    (h : .found text token ∈ Pattern.segments relativePattern content) :
    text = '@' :: token ∧ (∀ c ∈ token, isWordChar c = true) ∧
      ∃ day, RelativeDay.ofToken? .ahead token = some day := by
  obtain ⟨before, place, taken, -, hfound, rfl⟩ := Pattern.exists_of_found_mem h
  unfold relativePattern at hfound
  split at hfound
  · next rest =>
    dsimp only at hfound
    split at hfound
    · next hword =>
      cases hfound
      have htext := List.prefix_iff_eq_take.1 (List.takeWhile_prefix isWordChar (l := rest))
      refine ⟨congrArg (List.cons '@') htext.symm, List.all_eq_true.1 List.all_takeWhile, ?_⟩
      · rw [Bool.and_eq_true] at hword
        have hrelative := hword.2
        unfold isRelativeToken at hrelative
        split at hrelative
        · next heq => exact ⟨_, heq⟩
        · next day _ heq => exact ⟨_, heq⟩
        · cases hrelative
    · cases hfound
  · cases hfound

def Readable (today : Date) (content : Text) : Prop :=
  ∀ token ∈ Pattern.findAll relativePattern content,
    ∃ written, absoluteFor today ('@' :: token) token = .ok written

def normalText (today : Date) (content : Text) : Text :=
  (Pattern.segments relativePattern content).flatMap (normalSegment today)

theorem normalize_eq_ok_iff {t : Text} :
    normalize content today = .ok t ↔ Readable today content ∧ t = normalText today content := by
  obtain ⟨step, hnormalize, hother, hfound⟩ : ∃ step : Segment Text → Except Fault Text,
      normalize content today = ((Pattern.segments relativePattern content).mapM step >>=
        fun parts => pure parts.flatten) ∧
      (∀ c, step (.other c) = .ok [c]) ∧
      ∀ text token, step (.found text token) = absoluteFor today text token :=
    ⟨_, rfl, fun _ => rfl, fun _ _ => rfl⟩
  have hstep : ∀ seg written, step seg = .ok written → normalSegment today seg = written := by
    intro seg written h
    cases seg with
    | other c => exact Except.ok.inj ((hother c).symm.trans h)
    | found text token =>
        show (absoluteFor today text token).toOption.getD ['@'] = written
        rw [← hfound, h]
        rfl
  have hreadable : Readable today content ↔
      ∀ seg ∈ Pattern.segments relativePattern content, ∃ written, step seg = .ok written := by
    constructor
    · intro h seg hseg
      cases seg with
      | other c => exact ⟨[c], hother c⟩
      | found text token =>
          obtain ⟨rfl, -, -⟩ := of_found_mem hseg
          rw [hfound]
          exact h token (Pattern.mem_findAll.2 ⟨_, hseg⟩)
    · intro h token hmem
      obtain ⟨text, hseg⟩ := Pattern.mem_findAll.1 hmem
      obtain ⟨rfl, -, -⟩ := of_found_mem hseg
      rw [← hfound]
      exact h _ hseg
  rw [hnormalize, bind_eq_ok, hreadable]
  simp only [mapM_eq_ok_iff hstep]
  constructor
  · rintro ⟨parts, ⟨hok, rfl⟩, ht⟩
    cases ht
    exact ⟨hok, List.flatMap_def.symm⟩
  · rintro ⟨hok, rfl⟩
    exact ⟨_, ⟨hok, rfl⟩, congrArg Except.ok List.flatMap_def.symm⟩

theorem readable (hfirst : 1 < today.year) (hlast : today.year ≤ 9000) (content : Text) :
    Readable today content := by
  intro token h
  obtain ⟨text, hseg⟩ := Pattern.mem_findAll.1 h
  obtain ⟨-, hword, day, hday⟩ := of_found_mem hseg
  obtain ⟨d, hd⟩ := RelativeDay.exists_resolve hfirst hlast hword hday
  exact ⟨_, by rw [absoluteFor, (Date.ofToken_of_relative today hday).trans hd]; rfl⟩

/-- What is written for a relative mark, and when it is read as the day that the mark names: the
mark for today carries its year, and any other day is kept just when it is upcoming. -/
theorem exists_mark (hfirst : 2000 ≤ today.year) (hlast : today.year ≤ 2090) {text token : Text}
    (h : .found text token ∈ Pattern.segments relativePattern content) :
    ∃ day d mark, RelativeDay.ofToken? .ahead token = some day ∧
      Date.ofToken .ahead today token = .ok (some d) ∧
      normalSegment today (.found text token) = '@' :: mark ∧
      (Date.ofToken .ahead today mark = .ok (some d) ↔ day.Kept today d) := by
  obtain ⟨-, hword, day, hday⟩ := of_found_mem h
  obtain ⟨d, hd⟩ := RelativeDay.exists_resolve (show 1 < today.year by omega) (by omega) hword hday
  have htoken := (Date.ofToken_of_relative today hday).trans hd
  have hwritten : normalSegment today (.found text token) =
      if lower token = "today".toList then long d else short d := by
    show (absoluteFor today text token).toOption.getD ['@'] = _
    rw [absoluteFor, htoken]
    rfl
  by_cases htoday : lower token = "today".toList
  · have hsame : day = .today := by
      rcases RelativeDay.ofToken?_ahead hword hday with ⟨hsame, -⟩ | ⟨hnot, -⟩
      · exact hsame
      · exact absurd htoday hnot
    subst hsame
    cases hd
    refine ⟨.today, today, today.monthDay ++ '/' :: twoDigits today.year, hday, htoken, ?_, ?_⟩
    · rw [hwritten, if_pos htoday]
      rfl
    · have hyear : today.year % 100 + 2000 = today.year := by omega
      rw [Date.ofToken_monthDayYear, hyear, Date.ofNumbers?_self]
      exact iff_of_true rfl trivial
  · refine ⟨day, d, d.monthDay, hday, htoken, ?_, ?_⟩
    · rw [hwritten, if_neg htoday]
      rfl
    · rw [Date.ofToken_monthDay, Except.ok.injEq, Date.yearless?_eq_some_iff,
        ← RelativeDay.upcoming_iff_kept hword hday htoday hd]
      simp

/-- From 2000 to 2090 every content can be saved, with a date mark for each relative mark, and the
date mark is read as the day that the relative mark named just when that day is kept. -/
theorem normalize_keeps_day (hfirst : 2000 ≤ today.year) (hlast : today.year ≤ 2090)
    (content : Text) :
    normalize content today = .ok (normalText today content) ∧
      ∀ text token, .found text token ∈ Pattern.segments relativePattern content →
        text = '@' :: token ∧
        ∃ day d mark, RelativeDay.ofToken? .ahead token = some day ∧
          Date.ofToken .ahead today token = .ok (some d) ∧
          normalSegment today (.found text token) = '@' :: mark ∧
          (Date.ofToken .ahead today mark = .ok (some d) ↔ day.Kept today d) := by
  constructor
  · exact normalize_eq_ok_iff.2 ⟨readable (by omega) (by omega) content, rfl⟩
  · intro text token h
    exact ⟨(of_found_mem h).1, exists_mark hfirst hlast h⟩

theorem normalize_keeps_day_of_tomorrow :
    (normalize "Call @tomorrow".toList ⟨2026, 1, 5, by decide⟩).toOption =
        some "Call @01/06".toList ∧
      ∃ day d mark, RelativeDay.ofToken? .ahead "tomorrow".toList = some day ∧
        Date.ofToken .ahead ⟨2026, 1, 5, by decide⟩ "tomorrow".toList = .ok (some d) ∧
        normalSegment ⟨2026, 1, 5, by decide⟩ (.found "@tomorrow".toList "tomorrow".toList) =
          '@' :: mark ∧
        (Date.ofToken .ahead ⟨2026, 1, 5, by decide⟩ mark = .ok (some d) ↔
          day.Kept ⟨2026, 1, 5, by decide⟩ d) := by
  have h := @normalize_keeps_day ⟨2026, 1, 5, by decide⟩ (by decide) (by decide)
    "Call @tomorrow".toList
  refine ⟨?_, (h.2 "@tomorrow".toList "tomorrow".toList ?_).2⟩
  · rw [h.1]
    decide +kernel
  · exact List.mem_of_getElem? (i := 5) (by rfl)

/-- Yesterday is written without its year, and read as a day of the year to come. -/
theorem normalize_yesterday :
    (normalize "@yesterday".toList ⟨2026, 1, 5, by decide⟩).toOption = some "@01/04".toList ∧
      (Date.ofToken .ahead ⟨2026, 1, 5, by decide⟩ "yesterday".toList).toOption =
        some (some ⟨2026, 1, 4, by decide⟩) ∧
      (Date.ofToken .ahead ⟨2026, 1, 5, by decide⟩ "01/04".toList).toOption =
        some (some ⟨2027, 1, 4, by decide⟩) := by
  decide +kernel

end DateMark

end DayJournal

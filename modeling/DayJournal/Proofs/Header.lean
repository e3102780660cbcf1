import DayJournal.Document.Basic
import DayJournal.Proofs.DateOrder
import DayJournal.Proofs.Text
import Mathlib.Tactic.IntervalCases

/-!
# Day headers

A line is recognised as a day header by its first twelve characters, and the last of them is a
digit.  So blanks at the end of a line never make a header and never undo one.  The header that
is written for a day of year 1000 or later is recognised as the header of that day; the year of an
earlier day is too short for that.
-/

namespace DayJournal

open Text

/-! ## Digits are not blank -/

theorem isBlank_of_digitValue {c : Char} (h : (digitValue? c).isSome) : isBlank c = false := by
  have htables : ∀ z ∈ digitZeros, ∀ r ∈ blankRanges, z + 9 < r.1 ∨ r.2 < z := by decide
  rw [digitValue?, Option.isSome_map, List.find?_isSome] at h
  obtain ⟨z, hz, hc⟩ := h
  rw [Bool.eq_false_iff]
  intro hb
  rw [isBlank, inRanges, List.any_eq_true] at hb
  obtain ⟨r, hr, hcr⟩ := hb
  have hzr := htables z hz r hr
  simp only [Bool.and_eq_true, decide_eq_true_eq] at hc hcr
  omega

theorem Date.isBlank_of_dayNumber {a b : Char} {n : Nat} (h : Date.dayNumber? [a, b] = some n) :
    isBlank b = false := by
  apply isBlank_of_digitValue
  simp only [Date.dayNumber?] at h
  split at h
  · cases hb : digitValue? b with
    | none => simp [hb] at h
    | some v => rfl
  · split at h
    · simp [h]
    · split at h
      · next h3 =>
        simp only [Bool.and_eq_true, Bool.or_eq_true, decide_eq_true_eq] at h3
        rcases h3.2 with rfl | rfl <;> decide
      · simp at h

/-! ## Recognising a header -/

theorem headedDay?_eq_some_iff {l : Text} {day : Date} :
    headedDay? l = some day ↔
      ∃ y1 y2 y3 y4 m1 m2 d1 d2 rest,
        l = '#' :: ' ' :: y1 :: y2 :: y3 :: y4 :: '/' :: m1 :: m2 :: '/' :: d1 :: d2 :: rest ∧
          Date.ofParts? [y1, y2, y3, y4] [m1, m2] [d1, d2] = some day := by
  constructor
  · intro h
    unfold headedDay? at h
    split at h
    · exact ⟨_, _, _, _, _, _, _, _, _, rfl, h⟩
    · simp at h
  · rintro ⟨y1, y2, y3, y4, m1, m2, d1, d2, rest, rfl, h⟩
    exact h

theorem headedDay?_append_of_some {l : Text} {day : Date} (h : headedDay? l = some day)
    (t : Text) : headedDay? (l ++ t) = some day := by
  obtain ⟨y1, y2, y3, y4, m1, m2, d1, d2, rest, rfl, hparts⟩ := headedDay?_eq_some_iff.1 h
  exact headedDay?_eq_some_iff.2 ⟨_, _, _, _, _, _, _, _, _, rfl, hparts⟩

theorem Date.exists_dayNumber_of_ofParts {y m d : Text} {day : Date}
    (h : Date.ofParts? y m d = some day) : ∃ n, Date.dayNumber? d = some n := by
  unfold Date.ofParts? at h
  split at h
  · obtain ⟨_, -, h⟩ := Option.bind_eq_some_iff.1 h
    obtain ⟨n, hn, -⟩ := Option.bind_eq_some_iff.1 h
    exact ⟨n, hn⟩
  · simp at h

theorem headedDay?_append_of_blank (l : Text) {t : Text} (ht : isBlankText t = true) :
    headedDay? (l ++ t) = headedDay? l := by
  cases h : headedDay? (l ++ t) with
  | none =>
      cases hl : headedDay? l with
      | none => rfl
      | some day => rw [headedDay?_append_of_some hl] at h; exact h.symm
  | some day =>
      obtain ⟨y1, y2, y3, y4, m1, m2, d1, d2, rest, hlt, hparts⟩ := headedDay?_eq_some_iff.1 h
      -- The twelfth character is a digit, so it lies before the blanks.
      have hlen : 12 ≤ l.length := by
        by_contra hshort
        obtain ⟨n, hn⟩ := Date.exists_dayNumber_of_ofParts hparts
        have hd2 : (l ++ t)[11]? = some d2 := by rw [hlt]; rfl
        rw [List.getElem?_append_right (by omega)] at hd2
        have hblank : isBlank d2 = true := List.all_eq_true.1 ht d2 (List.mem_of_getElem? hd2)
        rw [Date.isBlank_of_dayNumber hn] at hblank
        simp at hblank
      have htake : l.take 12 =
          ['#', ' ', y1, y2, y3, y4, '/', m1, m2, '/', d1, d2] := by
        have hprefix : (l ++ t).take 12 = l.take 12 := List.take_append_of_le_length hlen
        rw [← hprefix, hlt]
        rfl
      rw [← List.take_append_drop 12 l, htake]
      exact (headedDay?_eq_some_iff.2 ⟨_, _, _, _, _, _, _, _, _, rfl, hparts⟩).symm

theorem headedDay?_of_ne {c : Char} (h : c ≠ '#') (rest : Text) :
    headedDay? (c :: rest) = none := by
  cases hd : headedDay? (c :: rest) with
  | none => rfl
  | some day =>
      obtain ⟨y1, y2, y3, y4, m1, m2, d1, d2, rest', hl, -⟩ := headedDay?_eq_some_iff.1 hd
      simp only [List.cons.injEq] at hl
      exact absurd hl.1 h

theorem exists_cons_of_headedDay {l : Text} {day : Date} (h : headedDay? l = some day) :
    ∃ rest, l = '#' :: rest := by
  obtain ⟨y1, y2, y3, y4, m1, m2, d1, d2, rest, rfl, -⟩ := headedDay?_eq_some_iff.1 h
  exact ⟨_, rfl⟩

/-! ## The header that is written -/

theorem digitValue?_digitChar {n : Nat} (h : n < 10) : digitValue? (Nat.digitChar n) = some n := by
  interval_cases n <;> decide

theorem monthNumber?_twoDigits {n : Nat} (h1 : 1 ≤ n) (h : n ≤ 12) :
    Date.monthNumber? (twoDigits n) = some n := by
  interval_cases n <;> decide

theorem dayNumber?_twoDigits {n : Nat} (h1 : 1 ≤ n) (h : n ≤ 31) :
    Date.dayNumber? (twoDigits n) = some n := by
  interval_cases n <;> decide

theorem ofNat_eq_fourDigits {n : Nat} (h1 : 1000 ≤ n) (h : n ≤ 9999) :
    ofNat n = [Nat.digitChar (n / 1000), Nat.digitChar (n / 100 % 10),
      Nat.digitChar (n / 10 % 10), Nat.digitChar (n % 10)] := by
  -- The year has four digits just because it is not below 1000.
  rw [ofNat, Nat.toDigits_of_base_le (by omega) (by omega),
    Nat.toDigits_of_base_le (by omega) (by omega), Nat.toDigits_of_base_le (by omega) (by omega),
    Nat.toDigits_of_lt_base (by omega)]
  simp only [Nat.div_div_eq_div_mul, List.cons_append, List.nil_append]

theorem numeralValue_fourDigits {a b c d : Nat} (ha : a < 10) (hb : b < 10) (hc : c < 10)
    (hd : d < 10) :
    numeralValue [Nat.digitChar a, Nat.digitChar b, Nat.digitChar c, Nat.digitChar d] =
      1000 * a + 100 * b + 10 * c + d := by
  simp only [numeralValue, List.foldl_cons, List.foldl_nil, digitValue?_digitChar, ha, hb, hc, hd,
    Option.getD_some]
  omega

theorem isNumeral_fourDigits {a b c d : Nat} (ha : a < 10) (hb : b < 10) (hc : c < 10)
    (hd : d < 10) :
    isNumeral [Nat.digitChar a, Nat.digitChar b, Nat.digitChar c, Nat.digitChar d] = true := by
  simp [isNumeral, isDigit, digitValue?_digitChar, ha, hb, hc, hd]

theorem Date.ofNumbers?_self (d : Date) : Date.ofNumbers? d.year d.month d.day = some d := by
  rw [Date.ofNumbers?, dif_pos d.valid]

theorem headedDay?_dayHeader {day : Date} (h : 1000 ≤ day.year) :
    headedDay? (dayHeader day) = some day := by
  obtain ⟨-, hyear, hm1, hm12, hd1, hdmonth⟩ := day.valid
  have hd31 : day.day ≤ 31 := hdmonth.trans (Date.daysInMonth_le _ _)
  rw [headedDay?_eq_some_iff, dayHeader, Date.slashed, Date.monthDay,
    ofNat_eq_fourDigits h hyear]
  refine ⟨_, _, _, _, _, _, _, _, _, rfl, ?_⟩
  have hyearValue := numeralValue_fourDigits (a := day.year / 1000) (b := day.year / 100 % 10)
    (c := day.year / 10 % 10) (d := day.year % 10) (by omega) (by omega) (by omega) (by omega)
  rw [Date.ofParts?, isNumeral_fourDigits (by omega) (by omega) (by omega) (by omega), hyearValue]
  change (if _ then (Date.monthNumber? (twoDigits day.month)).bind fun m =>
    (Date.dayNumber? (twoDigits day.day)).bind fun d => _ else _) = _
  rw [monthNumber?_twoDigits hm1 hm12, dayNumber?_twoDigits hd1 hd31, if_pos (by simp)]
  simp only [Option.bind_some]
  rw [← Date.ofNumbers?_self day]
  congr 1
  omega

theorem isDigit_of_mem_twoDigits {n : Nat} {c : Char} (h : c ∈ twoDigits n) : c.isDigit := by
  have hdigit : ∀ k, k < 10 → (Nat.digitChar k).isDigit := by decide
  simp only [twoDigits, List.mem_cons, List.not_mem_nil, or_false] at h
  rcases h with rfl | rfl <;> exact hdigit _ (Nat.mod_lt _ (by decide))

theorem newline_not_mem_dayHeader (day : Date) : '\n' ∉ dayHeader day := by
  have hdigits : ∀ {s : Text}, (∀ c ∈ s, c.isDigit) → '\n' ∉ s :=
    fun hs hmem => absurd (hs _ hmem) (by decide)
  have hyear : '\n' ∉ ofNat day.year :=
    hdigits fun c hc => Nat.isDigit_of_mem_toDigits (by decide) (by decide) hc
  have hmonth : '\n' ∉ twoDigits day.month := hdigits fun c => isDigit_of_mem_twoDigits
  have hday : '\n' ∉ twoDigits day.day := hdigits fun c => isDigit_of_mem_twoDigits
  simp [dayHeader, Date.slashed, Date.monthDay, hyear, hmonth, hday]

theorem trimEnd_dayHeader (day : Date) : trimEnd (dayHeader day) = dayHeader day := by
  have hlast : isBlank (Nat.digitChar (day.day % 10)) = false :=
    isBlank_of_digitValue (by
      rw [digitValue?_digitChar (Nat.mod_lt _ (by decide))]
      rfl)
  have h : dayHeader day = "# ".toList ++ ofNat day.year ++ '/' :: twoDigits day.month ++
      ['/', Nat.digitChar (day.day / 10 % 10)] ++ [Nat.digitChar (day.day % 10)] := by
    simp [dayHeader, Date.slashed, Date.monthDay, twoDigits]
  rw [h, trimEnd_append_of_not_blank (by simp [hlast])]
  simp [trimEnd, trimEndOf, hlast]

end DayJournal

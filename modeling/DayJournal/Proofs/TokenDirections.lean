import DayJournal.Proofs.DaysApart
import DayJournal.Proofs.NearestDates

/-!
# The two ways a date token looks

A token without a sign looks the way of its reader, and a sign at its end settles the way
(`ofToken?_of_unsigned`, `ofToken?_append_sign`).  So who looks back reads a token as who looks
ahead reads it with a `-`, and the other way round with a `+`.  The two days that are read lie on
the two sides of today (`Opposite`).
-/

namespace DayJournal

open Text

/-! ## Small letters behind and before a sign -/

def Outlook.sign : Outlook → Char
  | ahead => '+'
  | back => '-'

namespace Text

theorem meetsCased_append {c : Char} (hcased : isCased c = false)
    (hignorable : isCaseIgnorable c = false) (s : Text) : meetsCased (s ++ [c]) = meetsCased s := by
  induction s with
  | nil => simp [meetsCased, hcased, hignorable]
  | cons d s ih =>
      unfold meetsCased at ih ⊢
      rw [List.cons_append, List.dropWhile_cons, List.dropWhile_cons]
      by_cases hd : isCaseIgnorable d = true
      · rw [if_pos hd, if_pos hd]
        exact ih
      · rw [if_neg hd, if_neg hd]

theorem lowerFrom_append_sign (side : Outlook) (before s : Text) :
    lowerFrom before (s ++ [side.sign]) = lowerFrom before s ++ [side.sign] := by
  have hcased : isCased side.sign = false := by cases side <;> decide +kernel
  have hignorable : isCaseIgnorable side.sign = false := by cases side <;> decide +kernel
  induction s generalizing before with
  | nil => cases side <;> rfl
  | cons c s ih =>
      have hat : lowerAt before c (s ++ [side.sign]) = lowerAt before c s := by
        rw [lowerAt, lowerAt, meetsCased_append hcased hignorable]
      rw [List.cons_append, lowerFrom, lowerFrom, hat, ih, List.append_assoc]

theorem lower_append_sign (side : Outlook) (s : Text) :
    lower (s ++ [side.sign]) = lower s ++ [side.sign] := lowerFrom_append_sign side [] s

theorem lowerFrom_eq_nil_iff {before s : Text} : lowerFrom before s = [] ↔ s = [] := by
  cases s with
  | nil => simp [lowerFrom]
  | cons c s =>
      have hat : lowerAt before c s ≠ [] := by
        unfold lowerAt
        split_ifs <;> simp
      simp [lowerFrom, hat]

theorem getLast?_of_lowerFrom {sign : Char} (hpos : 0 < sign.toNat) (hsign : sign.toNat < 65)
    {before s : Text} (h : (lowerFrom before s).getLast? = some sign) :
    s.getLast? = some sign := by
  induction s generalizing before with
  | nil => exact h
  | cons c s ih =>
      rw [lowerFrom, List.getLast?_append] at h
      cases hlast : (lowerFrom (c :: before) s).getLast? with
      | none =>
          rw [hlast, Option.none_or] at h
          rw [List.getLast?_eq_none_iff, lowerFrom_eq_nil_iff] at hlast
          rw [hlast, eq_of_mem_lowerAt hpos hsign (List.mem_of_getLast? h)]
          rfl
      | some d =>
          rw [hlast, Option.some_or] at h
          rw [h] at hlast
          rw [List.getLast?_cons, ih hlast]
          rfl

theorem slash_mem_lowerFrom {before s : Text} (h : '/' ∈ s) : '/' ∈ lowerFrom before s := by
  induction s generalizing before with
  | nil => exact h
  | cons c s ih =>
      rw [lowerFrom, List.mem_append]
      rcases List.mem_cons.1 h with rfl | h
      · exact Or.inl (List.mem_singleton.2 rfl)
      · exact Or.inr (ih h)

/-! ## Digits of any script -/

theorem exists_zero_of_isDigit {c : Char} (h : isDigit c = true) :
    ∃ first ∈ digitZeros, first ≤ c.toNat ∧ c.toNat ≤ first + 9 := by
  rw [isDigit, digitValue?, Option.isSome_map, List.find?_isSome] at h
  simpa using h

theorem smallForm_of_isDigit {c : Char} (h : isDigit c = true) : smallForm c = c := by
  have hcapitals : ∀ first ∈ digitZeros, first + 9 < 65 ∨ 90 < first := by decide
  have hruns : ∀ run ∈ capitalRuns, ∀ first ∈ digitZeros,
      run.2.1 < first ∨ first + 9 < run.1 := by decide +kernel
  obtain ⟨first, hfirst, hle, hle'⟩ := exists_zero_of_isDigit h
  unfold smallForm
  split
  · rw [Char.toLower_eq_of_not_isUpper]
    intro hupper
    have := capital_code hupper
    have := hcapitals first hfirst
    omega
  · split
    · next run _ _ small hrun =>
      have hinside := List.find?_some hrun
      have houtside := hruns _ (List.mem_of_find?_eq_some hrun) first hfirst
      simp only [Bool.and_eq_true, decide_eq_true_eq] at hinside houtside
      omega
    · rfl

theorem lowerFrom_of_digits {s : Text} (h : ∀ c ∈ s, isDigit c = true) (before : Text) :
    lowerFrom before s = s := by
  induction s generalizing before with
  | nil => rfl
  | cons c s ih =>
      obtain ⟨hc, hs⟩ := List.forall_mem_cons.1 h
      have hsigma : c ≠ 'Σ' := by
        rintro rfl
        exact absurd hc (by decide)
      have hdotted : c ≠ 'İ' := by
        rintro rfl
        exact absurd hc (by decide)
      rw [lowerFrom_cons hsigma hdotted, smallForm_of_isDigit hc, ih hs]

theorem isDigit_of_isNumeral {s : Text} (h : isNumeral s = true) : ∀ c ∈ s, isDigit c = true :=
  List.all_eq_true.1 (Bool.and_eq_true_iff.1 h).2

theorem slash_not_mem_of_isNumeral {s : Text} (h : isNumeral s = true) : '/' ∉ s :=
  fun hmem => absurd (isDigit_of_isNumeral h _ hmem) (by decide)

end Text

/-! ## What a name stands for -/

theorem Weekday.ofLowerName?_of_not_mem {c : Char} (hnames : ∀ name ∈ names, c ∉ name) {s : Text}
    (h : c ∈ s) : ofLowerName? s = none := by
  rw [ofLowerName?, Option.map_eq_none_iff, List.idxOf?_eq_none_iff]
  exact fun hmem => hnames s hmem h

theorem Weekday.ofLowerName?_cons_d (rest : Text) : ofLowerName? ('d' :: rest) = none := by
  have hnames : ∀ name ∈ names, name.head? ≠ some 'd' := by decide
  rw [ofLowerName?, Option.map_eq_none_iff, List.idxOf?_eq_none_iff]
  exact fun hmem => hnames _ hmem rfl

namespace RelativeDay

/-- The words that mean the same whichever way they are looked at. -/
def fixedNames : List Text := ["today".toList, "tomorrow".toList, "yesterday".toList]

/-- The number of days or the weekday that a name in small letters stands for, on a side of
today. -/
def named (side : Outlook) (name : Text) : Option RelativeDay :=
  match dayCount? name with
  | some count => some (.daysAway count side)
  | none => (Weekday.ofLowerName? name).map (.weekday · side)

theorem exists_of_dayCount? {name : Text} {n : Nat} (h : dayCount? name = some n) :
    ∃ digits, name = 'd' :: digits ∧ n = numeralValue digits ∧ isNumeral digits = true ∧ 1 ≤ n := by
  unfold dayCount? at h
  split at h
  · next digits =>
    split at h
    · next hdigits =>
      cases h
      simp only [Bool.and_eq_true, decide_eq_true_eq] at hdigits
      exact ⟨digits, rfl, rfl, hdigits.1.1, hdigits.2⟩
    · cases h
  · cases h

theorem named_eq_none_of_slash {name : Text} (h : '/' ∈ name) (side : Outlook) :
    named side name = none := by
  have hcount : dayCount? name = none := by
    rw [Option.eq_none_iff_forall_ne_some]
    intro n hn
    obtain ⟨digits, rfl, -, hdigits, -⟩ := exists_of_dayCount? hn
    rcases List.mem_cons.1 h with heq | hmem
    · exact absurd heq (by decide)
    · exact slash_not_mem_of_isNumeral hdigits hmem
  simp only [named, hcount, Weekday.ofLowerName?_of_not_mem (c := '/') (by decide) h,
    Option.map_none]

variable {outlook : Outlook} {w : Text}

theorem ofToken?_of_fixed (h : lower w ∉ fixedNames) :
    ofToken? outlook w = named (outlook.signed (lower w)).2 (outlook.signed (lower w)).1 := by
  simp only [fixedNames, List.mem_cons, List.not_mem_nil, or_false, not_or] at h
  simp only [ofToken?, if_neg h.1, if_neg h.2.1, if_neg h.2.2]
  rfl

theorem ofToken?_of_unsigned (hfixed : lower w ∉ fixedNames) (hplus : w.getLast? ≠ some '+')
    (hminus : w.getLast? ≠ some '-') : ofToken? outlook w = named outlook (lower w) := by
  have hsigned : outlook.signed (lower w) = (lower w, outlook) := by
    unfold Outlook.signed
    split
    · next hlast => exact absurd (getLast?_of_lowerFrom (by decide) (by decide) hlast) hplus
    · next hlast => exact absurd (getLast?_of_lowerFrom (by decide) (by decide) hlast) hminus
    · rfl
  rw [ofToken?_of_fixed hfixed, hsigned]

theorem ofToken?_append_sign (side : Outlook) :
    ofToken? outlook (w ++ [side.sign]) = named side (lower w) := by
  have hfixed : lower (w ++ [side.sign]) ∉ fixedNames := by
    have hlast : ∀ name ∈ fixedNames, name.getLast? ≠ some side.sign := by
      cases side <;> decide
    intro hmem
    exact hlast _ hmem (by rw [lower_append_sign, List.getLast?_concat])
  have hsigned : outlook.signed (lower w ++ [side.sign]) = (lower w, side) := by
    cases side <;> simp [Outlook.signed, Outlook.sign]
  rw [ofToken?_of_fixed hfixed, lower_append_sign, hsigned]

theorem ofToken?_of_slash (h : '/' ∈ w) : ofToken? outlook w = none := by
  have hlower : '/' ∈ lower w := slash_mem_lowerFrom h
  have hfixed : lower w ∉ fixedNames := by
    have hnames : ∀ name ∈ fixedNames, '/' ∉ name := by decide
    exact fun hmem => hnames _ hmem hlower
  have hbase : '/' ∈ (outlook.signed (lower w)).1 := by
    have hdropped : ∀ {sign : Char} {s : Text}, sign ≠ '/' → '/' ∈ s → s.getLast? = some sign →
        '/' ∈ s.dropLast := by
      intro sign s hsign hmem hlast
      rw [← List.dropLast_append_getLast? sign hlast, List.mem_append, List.mem_singleton] at hmem
      exact hmem.resolve_right hsign.symm
    unfold Outlook.signed
    split
    · next hlast => exact hdropped (by decide) hlower hlast
    · next hlast => exact hdropped (by decide) hlower hlast
    · exact hlower
  rw [ofToken?_of_fixed hfixed]
  exact named_eq_none_of_slash hbase _

end RelativeDay

namespace Date

variable {today d : Date} {w month day : Text}

/-! ## Tokens without a slash -/

theorem ofToken_of_slash_not_mem (outlook : Outlook) (today : Date) (h : '/' ∉ w) :
    ofToken outlook today w =
      (RelativeDay.ofToken? outlook w).elim (.ok none) (RelativeDay.resolve today) := by
  have hpieces : pieces '/' w = [w] := pieces_of_not_mem h
  have hsize : oversized? w = none := by
    simp only [oversized?, hpieces, Bool.and_false, Bool.false_eq_true, if_false]
  have hnone : absolute? outlook today w = none := by
    simp only [absolute?, hpieces, ite_self]
  unfold ofToken
  cases RelativeDay.ofToken? outlook w with
  | none => simp only [hsize, hnone, Option.elim_none]
  | some day => rfl

theorem ofToken_append_sign (outlook side : Outlook) (today : Date) (h : '/' ∉ w) :
    ofToken outlook today (w ++ [side.sign]) =
      (RelativeDay.named side (lower w)).elim (.ok none) (RelativeDay.resolve today) := by
  have hslash : '/' ∉ w ++ [side.sign] := by
    rw [List.mem_append, List.mem_singleton, not_or]
    exact ⟨h, by cases side <;> decide⟩
  rw [ofToken_of_slash_not_mem outlook today hslash, RelativeDay.ofToken?_append_sign]

/-- The day is at least 999 days away from either end of the calendar. -/
def WellInside (today : Date) : Prop :=
  first.ordinal + 999 ≤ today.ordinal ∧ today.ordinal + 999 ≤ last.ordinal

instance (today : Date) : Decidable today.WellInside := by unfold WellInside; infer_instance

theorem WellInside.exists_later? (h : today.WellInside) {n : Nat} (hn : n ≤ 999) :
    ∃ e, later? n today = some e ∧ e.ordinal = today.ordinal + n :=
  exists_later?_of_ordinal ((Nat.add_le_add_left hn _).trans h.2)

theorem WellInside.exists_earlier? (h : today.WellInside) {n : Nat} (hn : n ≤ 999) :
    ∃ e, earlier? n today = some e ∧ e.ordinal + n = today.ordinal :=
  exists_earlier?_of_ordinal ((Nat.add_le_add_left hn _).trans h.1)

/-- What a token is read as by who looks ahead and by who looks back: a day on either side of today,
at most 999 days away; the nearest such weekday for the name of a weekday, and as many days away as
a token such as `d3` says. -/
structure Opposite (today : Date) (w : Text) (ahead back : Date) : Prop where
  ahead_bounds : today.ordinal + 1 ≤ ahead.ordinal ∧ ahead.ordinal ≤ today.ordinal + 999
  back_bounds : back.ordinal + 1 ≤ today.ordinal ∧ today.ordinal ≤ back.ordinal + 999
  weekday : ∀ day, Weekday.ofName? w = some day →
    ahead.weekday = day ∧ ahead.ordinal ≤ today.ordinal + 7 ∧
      back.weekday = day ∧ today.ordinal ≤ back.ordinal + 7
  count : ∀ digits, isNumeral digits = true → w = 'd' :: digits ∨ w = 'D' :: digits →
    ahead.ordinal = today.ordinal + numeralValue digits ∧
      today.ordinal = back.ordinal + numeralValue digits

theorem lower_of_count {digits : Text} (hdigits : isNumeral digits = true)
    (h : w = 'd' :: digits ∨ w = 'D' :: digits) : lower w = 'd' :: digits := by
  rcases h with rfl | rfl <;>
    rw [lower, lowerFrom, lowerFrom_of_digits (isDigit_of_isNumeral hdigits)] <;> rfl

theorem WellInside.opposite_of_count (hinside : today.WellInside) {n : Nat}
    (hcount : RelativeDay.dayCount? (lower w) = some n) :
    ∃ ahead back, Opposite today w ahead back ∧
      later? n today = some ahead ∧ earlier? n today = some back := by
  obtain ⟨digits, hname, hn, -, hn1⟩ := RelativeDay.exists_of_dayCount? hcount
  have hn999 : n < 1000 := RelativeDay.dayCount?_lt hcount
  obtain ⟨ahead, hahead, hordinal⟩ := hinside.exists_later? (n := n) (by omega)
  obtain ⟨back, hback, hordinal'⟩ := hinside.exists_earlier? (n := n) (by omega)
  refine ⟨ahead, back, ⟨by omega, by omega, ?_, ?_⟩, hahead, hback⟩
  · intro day hday
    rw [Weekday.ofName?, hname, Weekday.ofLowerName?_cons_d] at hday
    cases hday
  · intro digits' hdigits' hw
    rw [lower_of_count hdigits' hw] at hname
    cases hname
    omega

theorem WellInside.opposite_of_weekday (hinside : today.WellInside) {v : Weekday}
    (hname : Weekday.ofLowerName? (lower w) = some v) :
    ∃ ahead back, Opposite today w ahead back ∧
      today.nextWeekday? v = some ahead ∧ today.previousWeekday? v = some back := by
  obtain ⟨ahead, n, hahead, hordinal, hn1, hn7, hweekday⟩ :=
    exists_nextWeekday? ((Nat.add_le_add_left (by decide) _).trans hinside.2) v
  obtain ⟨back, m, hback, hordinal', hm1, hm7, hweekday'⟩ :=
    exists_previousWeekday? ((Nat.add_le_add_left (by decide) _).trans hinside.1) v
  refine ⟨ahead, back, ⟨by omega, by omega, ?_, ?_⟩, hahead, hback⟩
  · intro day hday
    obtain rfl : v = day := Option.some.inj (hname.symm.trans hday)
    exact ⟨hweekday, by omega, hweekday', by omega⟩
  · intro digits hdigits hw
    rw [lower_of_count hdigits hw, Weekday.ofLowerName?_cons_d] at hname
    cases hname

theorem exists_opposite (hinside : today.WellInside) (w : Text) :
    (∀ side, RelativeDay.named side (lower w) = none) ∨
      ∃ ahead back, Opposite today w ahead back ∧
        (RelativeDay.named .ahead (lower w)).map (RelativeDay.resolve today) =
          some (.ok (some ahead)) ∧
        (RelativeDay.named .back (lower w)).map (RelativeDay.resolve today) =
          some (.ok (some back)) := by
  cases hcount : RelativeDay.dayCount? (lower w) with
  | some n =>
      obtain ⟨ahead, back, hopposite, hahead, hback⟩ := hinside.opposite_of_count hcount
      refine Or.inr ⟨ahead, back, hopposite, ?_, ?_⟩
      · simp only [RelativeDay.named, hcount, Option.map_some, RelativeDay.resolve, hahead]
      · simp only [RelativeDay.named, hcount, Option.map_some, RelativeDay.resolve, hback]
  | none =>
      cases hname : Weekday.ofLowerName? (lower w) with
      | none =>
          left
          intro side
          simp only [RelativeDay.named, hcount, hname, Option.map_none]
      | some v =>
          obtain ⟨ahead, back, hopposite, hahead, hback⟩ := hinside.opposite_of_weekday hname
          refine Or.inr ⟨ahead, back, hopposite, ?_, ?_⟩
          · simp only [RelativeDay.named, hcount, hname, Option.map_some, RelativeDay.resolve,
              hahead]
            rfl
          · simp only [RelativeDay.named, hcount, hname, Option.map_some, RelativeDay.resolve,
              hback]
            rfl

/-! ## Tokens of a month and a day -/

theorem yearless?_of_ofToken {outlook : Outlook} (hmonth : isNumeral month = true)
    (hday : isNumeral day = true) (h : ofToken outlook today (month ++ '/' :: day) = .ok (some d)) :
    yearless? outlook today (numeralValue month) (numeralValue day) = some d := by
  have hpieces : pieces '/' (month ++ '/' :: day) = [month, day] := by
    rw [pieces_append_cons, pieces_of_not_mem (slash_not_mem_of_isNumeral hmonth),
      pieces_of_not_mem (slash_not_mem_of_isNumeral hday)]
    rfl
  have habsolute : absolute? outlook today (month ++ '/' :: day) =
      yearless? outlook today (numeralValue month) (numeralValue day) := by
    simp only [absolute?, hpieces, List.all_cons, List.all_nil, hmonth, hday, Bool.and_self,
      if_true]
  have hrelative : RelativeDay.ofToken? outlook (month ++ '/' :: day) = none :=
    RelativeDay.ofToken?_of_slash (by simp)
  simp only [ofToken, hrelative, habsolute] at h
  cases hsize : oversized? (month ++ '/' :: day) with
  | some digits =>
      rw [hsize] at h
      cases h
  | none =>
      rw [hsize] at h
      exact Except.ok.inj h

/-- A token without a slash and without a sign is read ahead as it is read back with a `+`, and back
as it is read ahead with a `-`; well inside of the calendar both readings succeed, and they give no
day or two days on the two sides of today.  A month and a day are read as the nearest date with that
month and day, in this year and the next or the last. -/
theorem ofToken_directions (today : Date) :
    (today.WellInside → ∀ w : Text,
      '/' ∉ w → w.getLast? ≠ some '+' → w.getLast? ≠ some '-' →
      lower w ∉ ["today".toList, "tomorrow".toList, "yesterday".toList] →
        ofToken .back today w = ofToken .ahead today (w ++ ['-']) ∧
        ofToken .ahead today w = ofToken .back today (w ++ ['+']) ∧
        (ofToken .ahead today w = .ok none ∧ ofToken .back today w = .ok none ∨
          ∃ ahead back, ofToken .ahead today w = .ok (some ahead) ∧
            ofToken .back today w = .ok (some back) ∧ Opposite today w ahead back)) ∧
    ∀ month day : Text, isNumeral month = true → isNumeral day = true → ∀ d,
      (ofToken .ahead today (month ++ '/' :: day) = .ok (some d) →
        IsLeast (notBefore today (numeralValue month) (numeralValue day)) d) ∧
      (ofToken .back today (month ++ '/' :: day) = .ok (some d) →
        IsGreatest (notAfter today (numeralValue month) (numeralValue day)) d) := by
  constructor
  · intro hinside w hslash hplus hminus hfixed
    have hread : ∀ outlook, ofToken outlook today w =
        (RelativeDay.named outlook (lower w)).elim (.ok none) (RelativeDay.resolve today) := by
      intro outlook
      rw [ofToken_of_slash_not_mem outlook today hslash,
        RelativeDay.ofToken?_of_unsigned hfixed hplus hminus]
    refine ⟨?_, ?_, ?_⟩
    · exact (hread .back).trans (ofToken_append_sign .ahead .back today hslash).symm
    · exact (hread .ahead).trans (ofToken_append_sign .back .ahead today hslash).symm
    · rcases exists_opposite hinside w with hnone | ⟨ahead, back, hopposite, hahead, hback⟩
      · left
        rw [hread, hread, hnone, hnone]
        exact ⟨rfl, rfl⟩
      · right
        obtain ⟨x, hx, hahead⟩ := Option.map_eq_some_iff.1 hahead
        obtain ⟨y, hy, hback⟩ := Option.map_eq_some_iff.1 hback
        refine ⟨ahead, back, ?_, ?_, hopposite⟩
        · rw [hread, hx]
          exact hahead
        · rw [hread, hy]
          exact hback
  · intro month day hmonth hday d
    exact ⟨fun h => isLeast_of_yearless? (yearless?_of_ofToken hmonth hday h),
      fun h => isGreatest_of_yearless? (yearless?_of_ofToken hmonth hday h)⟩

/-- On a Monday, `Mon` is read as a day on either side.  On the 15th of January of a leap year, the
29th of February is ahead, and the 16th of January is last year's when looked back at. -/
theorem ofToken_directions_of_monday :
    (∃ ahead back,
      ofToken .ahead ⟨2024, 1, 15, by decide⟩ "Mon".toList = .ok (some ahead) ∧
      ofToken .back ⟨2024, 1, 15, by decide⟩ "Mon".toList = .ok (some back) ∧
      Opposite ⟨2024, 1, 15, by decide⟩ "Mon".toList ahead back) ∧
    ofToken .ahead ⟨2024, 1, 15, by decide⟩ "2/29".toList = .ok (some ⟨2024, 2, 29, by decide⟩) ∧
    IsLeast (notBefore ⟨2024, 1, 15, by decide⟩ 2 29) ⟨2024, 2, 29, by decide⟩ ∧
    ofToken .back ⟨2024, 1, 15, by decide⟩ "1/16".toList = .ok (some ⟨2023, 1, 16, by decide⟩) ∧
    IsGreatest (notAfter ⟨2024, 1, 15, by decide⟩ 1 16) ⟨2023, 1, 16, by decide⟩ := by
  have h := ofToken_directions ⟨2024, 1, 15, by decide⟩
  have hmonday := (h.1 (by decide +kernel) "Mon".toList (by decide) (by decide) (by decide)
    (by decide +kernel)).2.2
  have hleap := (h.2 "2".toList "29".toList (by decide) (by decide) ⟨2024, 2, 29, by decide⟩).1
  have hpast := (h.2 "1".toList "16".toList (by decide) (by decide) ⟨2023, 1, 16, by decide⟩).2
  have hread : (ofToken .ahead ⟨2024, 1, 15, by decide⟩ "2/29".toList).toOption =
        some (some ⟨2024, 2, 29, by decide⟩) ∧
      (ofToken .back ⟨2024, 1, 15, by decide⟩ "1/16".toList).toOption =
        some (some ⟨2023, 1, 16, by decide⟩) ∧
      (ofToken .ahead ⟨2024, 1, 15, by decide⟩ "Mon".toList).toOption ≠ some none := by
    decide +kernel
  obtain ⟨hahead, hback, hsome⟩ := hread
  refine ⟨hmonday.resolve_left fun hnone => hsome ?_, eq_ok_of_toOption hahead,
    hleap (eq_ok_of_toOption hahead), eq_ok_of_toOption hback, hpast (eq_ok_of_toOption hback)⟩
  rw [hnone.1]
  rfl

end Date

end DayJournal

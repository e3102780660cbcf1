import DayJournal.Entry.DateMark
import DayJournal.Proofs.Header
import DayJournal.Query.Shorthand

/-!
# Patterns that stop at blanks

Date marks, relative date marks, favourites and the names of saved queries never reach over a
blank.  So a text is read in the parts between its blanks: what such a pattern finds in a text is
what it finds before a blank and what it finds behind it, and replacing what is found works on both
sides by itself.
-/

namespace DayJournal

open Text

namespace Text

/-! ## The classes of characters -/

theorem isWordChar_of_isBlank {c : Char} (h : isBlank c = true) : isWordChar c = false := by
  have htables : ∀ b ∈ blankRanges, ∀ w ∈ wordRanges, w.2 < b.1 ∨ b.2 < w.1 := by decide +kernel
  rw [isBlank, inRanges, List.any_eq_true] at h
  obtain ⟨b, hb, hcb⟩ := h
  rw [Bool.eq_false_iff]
  intro hword
  rw [isWordChar, inRanges, List.any_eq_true] at hword
  obtain ⟨w, hw, hcw⟩ := hword
  have hbw := htables b hb w hw
  simp only [Bool.and_eq_true, decide_eq_true_eq] at hcb hcw
  omega

theorem isDigit_of_isBlank {c : Char} (h : isBlank c = true) : isDigit c = false := by
  rw [Bool.eq_false_iff]
  intro hdigit
  rw [isBlank_of_digitValue hdigit] at h
  cases h

theorem isBlank_of_isDigit {c : Char} (h : c.isDigit = true) : isBlank c = false := by
  have hcode : 48 ≤ c.toNat ∧ c.toNat ≤ 57 := by
    simpa [Char.isDigit, UInt32.le_iff_toNat_le] using h
  simp only [isBlank, inRanges, blankRanges, List.any_cons, List.any_nil, Bool.or_false,
    Bool.or_eq_false_iff, Bool.and_eq_false_iff, decide_eq_false_iff_not]
  omega

theorem ne_of_isBlank {b c : Char} (h : isBlank b = true) (hc : isBlank c = false) : b ≠ c :=
  fun heq => by rw [heq, hc] at h; cases h

theorem takeWhile_append_blank {p : Char → Bool} {b : Char} (hb : p b = false) (s rest : Text) :
    (s ++ b :: rest).takeWhile p = s.takeWhile p := by
  induction s with
  | nil => simp [hb]
  | cons c s ih => simp only [List.cons_append, List.takeWhile_cons, ih]

/-! ## What is read off part by part -/

/-- What is read off a text is read off the parts between its blanks. -/
structure Partwise {α : Type} (read : Text → List α) : Prop where
  nil : read [] = []
  append : ∀ s b rest, isBlank b = true → read (s ++ b :: rest) = read s ++ read rest

namespace Partwise

variable {α : Type} {read : Text → List α}

theorem append_of_blank (h : Partwise read) {cut : Text} (hcut : isBlankText cut = true)
    (s : Text) : read (s ++ cut) = read s := by
  induction cut generalizing s with
  | nil => rw [List.append_nil]
  | cons b cut ih =>
      rw [isBlankText_cons, Bool.and_eq_true] at hcut
      have hnil : read cut = [] := by
        have hread := ih hcut.2 []
        rwa [List.nil_append, h.nil] at hread
      rw [h.append s b cut hcut.1, hnil, List.append_nil]

theorem trimEnd (h : Partwise read) (s : Text) : read (Text.trimEnd s) = read s := by
  obtain ⟨cut, hcut, hs⟩ := exists_trimEnd_append s
  conv_rhs => rw [hs, h.append_of_blank hcut]

theorem trimStart (h : Partwise read) (s : Text) : read (Text.trimStart s) = read s := by
  induction s with
  | nil => rfl
  | cons c rest ih =>
      cases hc : isBlank c with
      | false => rw [trimStart_of_not_blank hc]
      | true =>
          have happend := h.append [] c rest hc
          rw [h.nil, List.nil_append, List.nil_append] at happend
          rw [happend, ← ih, Text.trimStart, Text.trimStart, List.dropWhile_cons, if_pos hc]

theorem joinWith (h : Partwise read) (parts : List Text) :
    read (Text.joinWith [' '] parts) = (parts.map read).flatten := by
  induction parts with
  | nil => exact h.nil
  | cons part more ih =>
      cases more with
      | nil => simp [Text.joinWith]
      | cons part' more =>
          have hjoin : Text.joinWith [' '] (part :: part' :: more) =
              part ++ ' ' :: Text.joinWith [' '] (part' :: more) := by
            simp [Text.joinWith]
          rw [hjoin, h.append _ _ _ (by decide), ih]
          rfl

theorem comp {change : Text → Text} (h : Partwise read) (hnil : change [] = [])
    (happend : ∀ s b rest, isBlank b = true →
      change (s ++ b :: rest) = change s ++ b :: change rest) :
    Partwise fun s => read (change s) where
  nil := by rw [hnil, h.nil]
  append s b rest hb := by rw [happend s b rest hb, h.append _ _ _ hb]

end Partwise

namespace Pattern

variable {α : Type} {p : Pattern α} {b : Char}

/-- Nothing that the pattern takes has a blank in it, and it looks no further than the next blank;
a blank before it is as good as the beginning of the text. -/
structure StopsAtBlank (p : Pattern α) : Prop where
  takes : ∀ before s taken a, p before s = some (taken, a) → 0 < taken ∧ taken ≤ s.length
  stops : ∀ before s b rest, isBlank b = true → p before (s ++ b :: rest) = p before s
  begins : ∀ b s, isBlank b = true → p (some b) s = p none s

theorem StopsAtBlank.at_nil (hp : StopsAtBlank p) (before : Option Char) : p before [] = none := by
  cases h : p before [] with
  | none => rfl
  | some found =>
      have htakes := hp.takes before [] found.1 found.2 h
      simp only [List.length_nil] at htakes
      omega

theorem StopsAtBlank.at_blank (hp : StopsAtBlank p) (hb : isBlank b = true) (before : Option Char)
    (rest : Text) : p before (b :: rest) = none := by
  rw [← List.nil_append (b :: rest), hp.stops before [] b rest hb, hp.at_nil]

theorem StopsAtBlank.segmentsFrom_begins (hp : StopsAtBlank p) (hb : isBlank b = true) (s : Text) :
    segmentsFrom p 0 (some b) s = segments p s := by
  cases s with
  | nil => rfl
  | cons c s => simp only [segments, segmentsFrom, hp.begins b _ hb]

theorem StopsAtBlank.segmentsFrom_append (hp : StopsAtBlank p) (hb : isBlank b = true)
    {skip : Nat} {before : Option Char} {s : Text} (hskip : skip ≤ s.length) (rest : Text) :
    segmentsFrom p skip before (s ++ b :: rest) =
      segmentsFrom p skip before s ++ .other b :: segments p rest := by
  induction s generalizing skip before with
  | nil =>
      obtain rfl : skip = 0 := by simpa using hskip
      show segmentsFrom p 0 before (b :: rest) = .other b :: segments p rest
      rw [segmentsFrom, hp.at_blank hb, hp.segmentsFrom_begins hb]
  | cons c s ih =>
      cases skip with
      | succ skip => exact ih (by simpa using hskip)
      | zero =>
          have hstop := hp.stops before (c :: s) b rest hb
          rw [List.cons_append] at hstop
          rw [List.cons_append, segmentsFrom, segmentsFrom, hstop]
          cases hfound : p before (c :: s) with
          | none => simp only [ih (Nat.zero_le _), List.cons_append]
          | some found =>
              obtain ⟨taken, a⟩ := found
              obtain ⟨hpos, hle⟩ := hp.takes before (c :: s) taken a hfound
              simp only [List.length_cons] at hle
              have htake : (c :: (s ++ b :: rest)).take taken = (c :: s).take taken := by
                rw [← List.cons_append, List.take_append_of_le_length (by simpa using hle)]
              simp only [htake, ih (show taken - 1 ≤ s.length by omega), List.cons_append]

theorem StopsAtBlank.segments_append (hp : StopsAtBlank p) (hb : isBlank b = true) (s rest : Text) :
    segments p (s ++ b :: rest) = segments p s ++ .other b :: segments p rest :=
  hp.segmentsFrom_append hb (Nat.zero_le _) rest

theorem StopsAtBlank.findAll (hp : StopsAtBlank p) : Partwise (findAll p) where
  nil := rfl
  append s b rest hb := by
    rw [Pattern.findAll, hp.segments_append hb, List.filterMap_append, List.filterMap_cons]
    rfl

theorem StopsAtBlank.replaceAll_append (hp : StopsAtBlank p) (hb : isBlank b = true)
    (f : Text → α → Text) (s rest : Text) :
    replaceAll p f (s ++ b :: rest) = replaceAll p f s ++ b :: replaceAll p f rest := by
  simp only [replaceAll, hp.segments_append hb, List.flatMap_append, List.flatMap_cons,
    List.singleton_append]

/-! ## What is found first, and where nothing is found -/

theorem map_first? (p : Pattern α) (s : Text) :
    (first? p s).map (fun found => found.2.1) = (findAll p s).head? := by
  suffices h : ∀ before, (firstFrom p before s).map (fun found => found.2.1) =
      ((segmentsFrom p 0 before s).filterMap Segment.meaning?).head? from h none
  induction s with
  | nil => intro before; rfl
  | cons c rest ih =>
      intro before
      rw [firstFrom, segmentsFrom]
      cases p before (c :: rest) with
      | some found => rfl
      | none =>
          simp only [Option.map_map, Function.comp_def, List.filterMap_cons, Segment.meaning?]
          exact ih (some c)

theorem segmentsFrom_of_forall {before : Option Char} {s : Text}
    (h : ∀ c rest prev, c :: rest <:+ s → p prev (c :: rest) = none) :
    segmentsFrom p 0 before s = s.map .other := by
  induction s generalizing before with
  | nil => rfl
  | cons c rest ih =>
      rw [segmentsFrom, h c rest before (List.suffix_refl _)]
      simp only [List.map_cons]
      rw [ih fun d more prev hsuffix => h d more prev (hsuffix.trans (List.suffix_cons c rest))]

theorem mem_findAll {s : Text} {a : α} : a ∈ findAll p s ↔ ∃ t, .found t a ∈ segments p s := by
  rw [findAll, List.mem_filterMap]
  constructor
  · rintro ⟨seg, hseg, hmeaning⟩
    cases seg with
    | other c => cases hmeaning
    | found t a' =>
        cases hmeaning
        exact ⟨t, hseg⟩
  · rintro ⟨t, hseg⟩
    exact ⟨_, hseg, rfl⟩

theorem exists_of_found_mem {skip : Nat} {before : Option Char} {s t : Text} {a : α}
    (h : .found t a ∈ segmentsFrom p skip before s) :
    ∃ prev place taken, place <:+ s ∧ p prev place = some (taken, a) ∧ t = place.take taken := by
  induction s generalizing skip before with
  | nil => simp [segmentsFrom] at h
  | cons c rest ih =>
      have hrest : ∀ {skip before}, .found t a ∈ segmentsFrom p skip before rest →
          ∃ prev place taken, place <:+ c :: rest ∧ p prev place = some (taken, a) ∧
            t = place.take taken := by
        intro skip before hmem
        obtain ⟨prev, place, taken, hplace, hfound⟩ := ih hmem
        exact ⟨prev, place, taken, hplace.trans (List.suffix_cons c rest), hfound⟩
      cases skip with
      | succ skip => exact hrest h
      | zero =>
          rw [segmentsFrom] at h
          split at h
          · next taken a' hfound =>
            rcases List.mem_cons.1 h with heq | hmem
            · cases heq
              exact ⟨before, c :: rest, taken, List.suffix_refl _, hfound, rfl⟩
            · exact hrest hmem
          · rcases List.mem_cons.1 h with heq | hmem
            · cases heq
            · exact hrest hmem

theorem findAll_of_whole {c : Char} {rest : Text} {a : α}
    (h : p none (c :: rest) = some (rest.length + 1, a)) : findAll p (c :: rest) = [a] := by
  have hrest : ∀ (before : Option Char) (s : Text), segmentsFrom p s.length before s = [] := by
    intro before s
    induction s generalizing before with
    | nil => rfl
    | cons d s ih => exact ih (some d)
  rw [findAll, segments, segmentsFrom, h]
  simp only [Nat.add_sub_cancel, hrest]
  rfl

theorem replaceAll_eq_self (hp : p.StopsAtBlank) {f : Text → α → Text} {s : Text}
    (h : ∀ found, ∀ a ∈ findAll p s, f found a = found) : replaceAll p f s = s := by
  have htakes : TakesSome p := fun before s taken a hfound =>
    (hp.takes before s taken a hfound).1
  conv_rhs => rw [← flatten_segments htakes s]
  rw [replaceAll, List.flatMap_def]
  congr 1
  refine List.map_congr_left fun seg hseg => ?_
  cases seg with
  | other c => rfl
  | found t a => exact h t a (mem_findAll.2 ⟨t, hseg⟩)

/-! ## Patterns that do not look back -/

theorem segmentsFrom_of_ignores (hp : ∀ before before' s, p before s = p before' s) (skip : Nat)
    (before before' : Option Char) (s : Text) :
    segmentsFrom p skip before s = segmentsFrom p skip before' s := by
  cases s with
  | nil => cases skip <;> rfl
  | cons c rest =>
      cases skip with
      | zero => rw [segmentsFrom, segmentsFrom, hp before before']
      | succ skip => rfl

theorem segmentsFrom_eq_drop (hp : ∀ before before' s, p before s = p before' s) (skip : Nat)
    (before : Option Char) (s : Text) :
    segmentsFrom p skip before s = segments p (s.drop skip) := by
  induction s generalizing skip before with
  | nil => cases skip <;> rfl
  | cons c rest ih =>
      cases skip with
      | zero => exact segmentsFrom_of_ignores hp 0 before none (c :: rest)
      | succ skip => exact ih skip (some c)

theorem segments_of_found (hp : ∀ before before' s, p before s = p before' s) {c : Char}
    {rest : Text} {taken : Nat} {a : α} (hpos : 0 < taken)
    (h : p none (c :: rest) = some (taken, a)) :
    segments p (c :: rest) =
      .found ((c :: rest).take taken) a :: segments p ((c :: rest).drop taken) := by
  obtain ⟨more, rfl⟩ := Nat.exists_eq_succ_of_ne_zero hpos.ne'
  rw [segments, segmentsFrom, h]
  simp only [Nat.succ_sub_one, List.drop_succ_cons, segmentsFrom_eq_drop hp]

theorem segments_of_none (hp : ∀ before before' s, p before s = p before' s) {c : Char}
    {rest : Text} (h : p none (c :: rest) = none) :
    segments p (c :: rest) = .other c :: segments p rest := by
  rw [segments, segmentsFrom, h, segments, segmentsFrom_of_ignores hp 0 (some c) none]

theorem findAll_of_found (hp : ∀ before before' s, p before s = p before' s) {c : Char}
    {rest : Text} {taken : Nat} {a : α} (hpos : 0 < taken)
    (h : p none (c :: rest) = some (taken, a)) :
    findAll p (c :: rest) = a :: findAll p ((c :: rest).drop taken) := by
  rw [findAll, segments_of_found hp hpos h, List.filterMap_cons]
  rfl

theorem findAll_of_none (hp : ∀ before before' s, p before s = p before' s) {c : Char}
    {rest : Text} (h : p none (c :: rest) = none) : findAll p (c :: rest) = findAll p rest := by
  rw [findAll, segments_of_none hp h, List.filterMap_cons]
  rfl

theorem replaceAll_append_of_none (hp : ∀ before before' s, p before s = p before' s)
    {f : Text → α → Text} {u v : Text}
    (h : ∀ c rest, c :: rest <:+ u → p none (c :: rest ++ v) = none) :
    replaceAll p f (u ++ v) = u ++ replaceAll p f v := by
  induction u with
  | nil => rfl
  | cons c u ih =>
      have hrest : segments p (c :: u ++ v) = .other c :: segments p (u ++ v) :=
        segments_of_none hp (h c u (List.suffix_refl _))
      rw [replaceAll, hrest, List.flatMap_cons, ← replaceAll,
        ih fun d rest hsuffix => h d rest (hsuffix.trans (List.suffix_cons c u))]
      rfl

end Pattern

end Text

/-! ## The four patterns -/

namespace Shorthand

theorem favoritePattern_of_ne {c : Char} (h : c ≠ '#') (before : Option Char) (rest : Text) :
    favoritePattern before (c :: rest) = none := by
  simp [favoritePattern, h]

theorem stopsAtBlank_favoritePattern : favoritePattern.StopsAtBlank where
  takes before s taken a h := by
    unfold favoritePattern at h
    split at h
    · split at h
      · cases h
        simp
      · cases h
    · cases h
  stops before s b rest hb := by
    have hdigit : b.isDigit = false := by
      rw [Bool.eq_false_iff]
      intro hdigit
      rw [isBlank_of_isDigit hdigit] at hb
      cases hb
    match s with
    | [] => exact favoritePattern_of_ne (ne_of_isBlank hb (by decide)) before rest
    | c :: more =>
      by_cases hc : c = '#'
      · subst hc
        match more with
        | [] => simp [favoritePattern, hdigit]
        | [d] => simp [favoritePattern, isWordChar_of_isBlank hb]
        | d :: x :: more => rfl
      · rw [List.cons_append, favoritePattern_of_ne hc, favoritePattern_of_ne hc]
  begins b s hb := rfl

theorem savedPattern_of_ne {c : Char} (h : c ≠ '$') (before : Option Char) (rest : Text) :
    savedPattern before (c :: rest) = none := by
  simp [savedPattern, h]

theorem stopsAtBlank_savedPattern : savedPattern.StopsAtBlank where
  takes before s taken a h := by
    unfold savedPattern at h
    split at h
    · next rest =>
      dsimp only at h
      split at h
      · cases h
      · cases h
        have hle := (List.takeWhile_sublist (l := rest) isWordChar).length_le
        exact ⟨by omega, Nat.succ_le_succ hle⟩
    · cases h
  stops before s b rest hb := by
    cases s with
    | nil => exact savedPattern_of_ne (ne_of_isBlank hb (by decide)) before rest
    | cons c more =>
        by_cases hc : c = '$'
        · subst hc
          simp only [savedPattern, List.cons_append,
            takeWhile_append_blank (isWordChar_of_isBlank hb)]
        · rw [List.cons_append, savedPattern_of_ne hc, savedPattern_of_ne hc]
  begins b s hb := rfl

end Shorthand

namespace DateMark

theorem pattern_of_ne {c : Char} (h : c ≠ '@') (before : Option Char) (rest : Text) :
    pattern before (c :: rest) = none := by
  simp [pattern, h]

theorem stopsAtBlank_pattern : pattern.StopsAtBlank where
  takes before s taken a h := by
    unfold pattern at h
    split at h
    · next rest =>
      dsimp only at h
      split at h
      · cases h
        have hle := (List.takeWhile_sublist (l := rest) fun c => isDigit c || c = '/').length_le
        exact ⟨by omega, Nat.succ_le_succ hle⟩
      · cases h
    · cases h
  stops before s b rest hb := by
    have hslash : b ≠ '/' := ne_of_isBlank hb (by decide)
    have hrun : ∀ s : Text, (s ++ b :: rest).takeWhile (fun c => isDigit c || c = '/') =
        s.takeWhile fun c => isDigit c || c = '/' :=
      fun s => takeWhile_append_blank (by simp [isDigit_of_isBlank hb, hslash]) s rest
    cases s with
    | nil => exact pattern_of_ne (ne_of_isBlank hb (by decide)) before rest
    | cons c more =>
        by_cases hc : c = '@'
        · subst hc
          simp only [pattern, List.cons_append, hrun]
        · rw [List.cons_append, pattern_of_ne hc, pattern_of_ne hc]
  begins b s hb := rfl

theorem relativePattern_of_ne {c : Char} (h : c ≠ '@') (before : Option Char) (rest : Text) :
    relativePattern before (c :: rest) = none := by
  simp [relativePattern, h]

theorem stopsAtBlank_relativePattern : relativePattern.StopsAtBlank where
  takes before s taken a h := by
    unfold relativePattern at h
    split at h
    · next rest =>
      dsimp only at h
      split at h
      · cases h
        have hle := (List.takeWhile_sublist (l := rest) isWordChar).length_le
        exact ⟨by omega, Nat.succ_le_succ hle⟩
      · cases h
    · cases h
  stops before s b rest hb := by
    cases s with
    | nil => exact relativePattern_of_ne (ne_of_isBlank hb (by decide)) before rest
    | cons c more =>
        by_cases hc : c = '@'
        · subst hc
          simp only [relativePattern, List.cons_append,
            takeWhile_append_blank (isWordChar_of_isBlank hb)]
        · rw [List.cons_append, relativePattern_of_ne hc, relativePattern_of_ne hc]
  begins b s hb := by
    simp only [relativePattern, Option.all_some, Option.all_none, hb]

theorem targetDate?_eq (content : Text) (reference : Date) :
    targetDate? content reference =
      (tokens content).head?.bind (Date.absolute? .ahead reference) := by
  rw [tokens, ← Pattern.map_first?, Option.bind_map]
  rfl

end DateMark

end DayJournal

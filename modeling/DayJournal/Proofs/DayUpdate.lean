import DayJournal.Proofs.Outline
import Mathlib.Data.List.TakeWhile

/-!
# Updating a day changes one section

What `updateDay` does to the outline of a document: a new text for a day that has a section takes
the place of the body of its first section, a new text for another day makes a section before the
first later one, and a blank text takes the first section of the day away.  Nothing else of the
outline changes, whatever the document looks like.
-/

namespace DayJournal

open Text

theorem Text.isBlank_of_break {c : Char} (h : (decide (c = '\r') || decide (c = '\n')) = true) :
    isBlank c = true := by
  rw [Bool.or_eq_true, decide_eq_true_eq, decide_eq_true_eq] at h
  rcases h with rfl | rfl <;> decide

namespace Section

/-- What a section that was read from a text looks like: a header line of its day, with or without
the newline that ends it, and a body without headers. -/
structure WellFormed (s : Section) : Prop where
  headed : headedDay? s.header = some s.day
  one_line : ∃ l, '\n' ∉ l ∧ (s.header = l ∨ s.header = l ++ ['\n'])
  headless : Document.Headless s.body

variable {s : Section}

theorem exists_headerLine_append (s : Section) :
    ∃ cut : Text, isBlankText cut = true ∧ s.header = s.headerLine ++ cut := by
  obtain ⟨cut, hcut, hheader⟩ := exists_trimEndOf_append (fun c => c = '\r' || c = '\n') s.header
  exact ⟨cut, List.all_eq_true.2 fun c hc => isBlank_of_break (List.all_eq_true.1 hcut c hc),
    hheader⟩

theorem trimEnd_headerLine (s : Section) : trimEnd s.headerLine = trimEnd s.header := by
  obtain ⟨cut, hcut, hheader⟩ := s.exists_headerLine_append
  rw [hheader, trimEnd_append_of_blank hcut]

theorem WellFormed.headed_headerLine (hs : s.WellFormed) :
    headedDay? s.headerLine = some s.day := by
  obtain ⟨cut, hcut, hheader⟩ := s.exists_headerLine_append
  rw [← headedDay?_append_of_blank _ hcut, ← hheader]
  exact hs.headed

theorem WellFormed.newline_not_mem_headerLine (hs : s.WellFormed) : '\n' ∉ s.headerLine := by
  obtain ⟨l, hl, hheader⟩ := hs.one_line
  have htrim : s.headerLine = trimEndOf (fun c => c = '\r' || c = '\n') l := by
    rcases hheader with h | h
    · rw [headerLine, h]
    · rw [headerLine, h, trimEndOf_append_of_all (by decide)]
  obtain ⟨cut, -, hcut⟩ := exists_trimEndOf_append (fun c => c = '\r' || c = '\n') l
  rw [hcut, List.mem_append, not_or] at hl
  rw [htrim]
  exact hl.1

theorem WellFormed.header_ne_nil (hs : s.WellFormed) : s.header ≠ [] := by
  obtain ⟨rest, h⟩ := exists_cons_of_headedDay hs.headed
  simp [h]

end Section

namespace Document

theorem wellFormed_ofText (s : Text) :
    Headless (ofText s).preamble ∧ ∀ x ∈ (ofText s).sections, x.WellFormed := by
  induction s using lineInduction with
  | last s hnl =>
      rw [ofText_last hnl, cons]
      cases hd : headedDay? s with
      | none =>
          have hs : Headless s := (headless_last hnl).2 hd
          simpa using hs
      | some day =>
          have hnil : Headless [] := by decide
          simpa using ⟨hnil, hd, ⟨s, hnl, Or.inl rfl⟩, hnil⟩
  | line l rest hnl ih =>
      obtain ⟨hpreamble, hsections⟩ := ih
      rw [ofText_line hnl, cons, headedDay?_append_newline]
      cases hd : headedDay? l with
      | none =>
          have hl : Headless (l ++ '\n' :: (ofText rest).preamble) :=
            (headless_line hnl _).2 ⟨hd, hpreamble⟩
          simpa using ⟨hl, hsections⟩
      | some day =>
          have hnil : Headless [] := by decide
          refine ⟨hnil, fun x hx => ?_⟩
          rcases List.mem_cons.1 hx with rfl | hx
          · exact ⟨by rw [headedDay?_append_newline]; exact hd, ⟨l, hnl, Or.inr rfl⟩, hpreamble⟩
          · exact hsections x hx

theorem wellFormed_of_mem {document p : Text} {ss : List Section} {x : Section}
    (h : ofText document = ⟨p, ss⟩) (hx : x ∈ ss) : x.WellFormed :=
  (wellFormed_ofText document).2 x (by rw [h]; exact hx)

/-! ## The two sides of a cut -/

section Cut

variable {document p : Text} {a b : List Section}

theorem outline_before (h : ofText document = ⟨p, a ++ b⟩) :
    outline (p ++ Section.joined a) = ⟨trimEnd p, a.map Section.trimmed⟩ := by
  rw [outline, (ofText_cut document h).1]
  rfl

theorem outline_behind (h : ofText document = ⟨p, a ++ b⟩) :
    outline (Section.joined b) = ⟨[], b.map Section.trimmed⟩ := by
  rw [outline, (ofText_cut document h).2.1]
  rfl

theorem joined_eq_nil_iff (h : ofText document = ⟨p, a ++ b⟩) : Section.joined b = [] ↔ b = [] := by
  cases b with
  | nil => simp [Section.joined]
  | cons x more =>
      have hx : x.WellFormed := wellFormed_of_mem h (by simp)
      simp [Section.joined, Section.text, hx.header_ne_nil]

theorem trimStart_joined (h : ofText document = ⟨p, a ++ b⟩) :
    trimStart (Section.joined b) = Section.joined b := by
  cases b with
  | nil => rfl
  | cons x more =>
      have hx : x.WellFormed := wellFormed_of_mem h (by simp)
      obtain ⟨rest, hrest⟩ := exists_cons_of_headedDay hx.headed
      simp only [Section.joined, Section.text, List.map_cons, List.flatten_cons, hrest,
        List.cons_append]
      exact trimStart_of_not_blank (by decide) _

end Cut

/-! ## The branches of an update -/

theorem takeWhile_of_split {α : Type} {p : α → Bool} {l a b : List α} (h : l = a ++ b)
    (ha : ∀ x ∈ a, p x = true) (hb : ∀ x more, b = x :: more → p x = false) :
    l.takeWhile p = a ∧ l.drop a.length = b := by
  subst h
  refine ⟨?_, by simp⟩
  rw [List.takeWhile_append_of_pos ha]
  cases b with
  | nil => simp
  | cons x more => simp [hb x more rfl]

variable {document content p : Text} {day : Date} {a b : List Section}

theorem updateDay_of_mem {s : Section} (h : ofText document = ⟨p, a ++ s :: b⟩)
    (ha : ∀ x ∈ a, x.day ≠ day) (hs : s.day = day) :
    updateDay document day content =
      if isBlankText content then withoutSection (p ++ Section.joined a) (Section.joined b)
      else closed (p ++ Section.joined a ++ s.headerLine ++ '\n' :: trimEnd content ++
        "\n\n".toList ++ Section.joined b) := by
  obtain ⟨htake, hdrop⟩ := takeWhile_of_split (p := fun x : Section => decide (x.day ≠ day))
    (l := (ofText document).sections) (by rw [h]) (by simpa using ha) (by
      rintro x more hx
      simp only [List.cons.injEq] at hx
      simp [← hx.1, hs])
  simp only [updateDay, htake, hdrop]
  rw [h]

theorem updateDay_of_not_mem (h : ∀ x ∈ (ofText document).sections, x.day ≠ day) :
    updateDay document day content =
      if isBlankText content then document else insertDay (ofText document) day content := by
  obtain ⟨htake, hdrop⟩ := takeWhile_of_split (p := fun x : Section => decide (x.day ≠ day))
    (a := (ofText document).sections) (b := []) (List.append_nil _).symm (by simpa using h)
    (by simp)
  simp only [updateDay, htake, hdrop]

theorem outline_replace {s : Section} (h : ofText document = ⟨p, a ++ s :: b⟩)
    (ha : ∀ x ∈ a, x.day ≠ day) (hs : s.day = day) (hcontent : Headless content)
    (hblank : isBlankText content = false) :
    outline (updateDay document day content) =
      ⟨trimEnd p, a.map Section.trimmed ++
        ⟨day, trimEnd s.header, trimEnd content⟩ :: b.map Section.trimmed⟩ := by
  have hwf : s.WellFormed := wellFormed_of_mem h (by simp)
  have hbehind : outline (Section.joined b) = ⟨[], b.map Section.trimmed⟩ :=
    outline_behind (p := p) (a := a ++ [s]) (by rw [h]; simp)
  -- From the inside out: the new section alone, with what is behind it, and with what is before.
  have hsection : outline (s.headerLine ++ '\n' :: (trimEnd content ++ ['\n'])) =
      ⟨[], [⟨day, trimEnd s.header, trimEnd content⟩]⟩ := by
    have hcut : s.headerLine ++ '\n' :: (trimEnd content ++ ['\n']) =
        (s.headerLine ++ '\n' :: trimEnd content) ++ ['\n'] := by simp
    rw [hcut, outline_append_of_blank _ (by simp),
      outline_section hwf.newline_not_mem_headerLine hwf.headed_headerLine
        (headless_trimEnd.2 hcontent),
      hs, s.trimEnd_headerLine, trimEnd_trimEnd]
  have hnew : outline (s.headerLine ++ '\n' :: (trimEnd content ++ ['\n']) ++
      '\n' :: Section.joined b) =
      ⟨[], ⟨day, trimEnd s.header, trimEnd content⟩ :: b.map Section.trimmed⟩ := by
    rw [outline_append_newline _ (by rw [hbehind]), hsection, hbehind]
    rfl
  have hends : EndsLine (p ++ Section.joined a) := (ofText_cut document h).2.2 (by simp)
  have hparts : p ++ Section.joined a ++ s.headerLine ++ '\n' :: trimEnd content ++
      "\n\n".toList ++ Section.joined b = p ++ Section.joined a ++
        (s.headerLine ++ '\n' :: (trimEnd content ++ ['\n']) ++ '\n' :: Section.joined b) := by
    simp
  rw [updateDay_of_mem h ha hs, if_neg (by simp [hblank]), outline_closed, hparts,
    outline_append hends (by rw [hnew]), hnew, outline_before h]
  rfl

theorem outline_withoutSection (before : Text) {after : Text}
    (hafter : (outline after).preamble = []) (hstart : trimStart after = after) :
    outline (withoutSection before after) = (outline before).followedBy (outline after) := by
  -- The newline at the end of the document does not show, nor does its absence.
  have hkept : ∀ rest : Text, outline (if rest.isEmpty then [] else closed rest) =
      outline rest := by
    intro rest
    by_cases h : rest.isEmpty
    · rw [List.isEmpty_iff] at h
      rw [h]
      rfl
    · rw [if_neg h, outline_closed]
  have hrest : outline ((if after.isEmpty then trimEnd before else spaced (trimEnd before)) ++
      after) = (outline before).followedBy (outline after) := by
    by_cases hnil : after = []
    · subst hnil
      simp [outline_trimEnd, followedBy]
    · rw [if_neg (by simpa using hnil), outline_spaced_append _ hafter]
  rw [withoutSection, hstart]
  exact (hkept _).trans hrest

theorem outline_remove {s : Section} (h : ofText document = ⟨p, a ++ s :: b⟩)
    (ha : ∀ x ∈ a, x.day ≠ day) (hs : s.day = day) (hblank : isBlankText content = true) :
    outline (updateDay document day content) =
      ⟨trimEnd p, a.map Section.trimmed ++ b.map Section.trimmed⟩ := by
  have hb : ofText document = ⟨p, (a ++ [s]) ++ b⟩ := by rw [h]; simp
  have hbehind := outline_behind hb
  have hbefore := outline_before h
  rw [updateDay_of_mem h ha hs, if_pos hblank,
    outline_withoutSection _ (by rw [hbehind]) (trimStart_joined hb), hbehind, hbefore]
  rfl

theorem outline_insert (hday : 1000 ≤ day.year) (h : ofText document = ⟨p, a ++ b⟩)
    (hnew : ∀ x ∈ a ++ b, x.day ≠ day) (ha : ∀ x ∈ a, x.day ≤ day)
    (hb : ∀ x more, b = x :: more → day < x.day) (hcontent : Headless content)
    (hblank : isBlankText content = false) :
    outline (updateDay document day content) =
      ⟨trimEnd p, a.map Section.trimmed ++
        ⟨day, dayHeader day, trimEnd content⟩ :: b.map Section.trimmed⟩ := by
  have hlater : ∀ x more, b = x :: more → decide (x.day ≤ day) = false := by
    intro x more hx
    have hlt : day.rank < x.day.rank := hb x more hx
    exact decide_eq_false (Nat.not_le_of_lt hlt)
  obtain ⟨htake, hdrop⟩ := takeWhile_of_split (p := fun x : Section => decide (x.day ≤ day))
    (l := (ofText document).sections) (by rw [h]) (by simpa using ha) hlater
  have hsection : outline (dayHeader day ++ '\n' :: trimEnd content) =
      ⟨[], [⟨day, dayHeader day, trimEnd content⟩]⟩ := by
    rw [outline_section (newline_not_mem_dayHeader day) (headedDay?_dayHeader hday)
      (headless_trimEnd.2 hcontent), trimEnd_dayHeader, trimEnd_trimEnd]
  have hbehind := outline_behind h
  have hpreamble : (ofText document).preamble = p := by rw [h]
  rw [updateDay_of_not_mem (by rw [h]; exact hnew), if_neg (by simp [hblank]), insertDay]
  simp only [htake, hdrop, hpreamble]
  by_cases hnil : Section.joined b = []
  · rw [if_pos (by rw [hnil]; rfl), outline_append_of_blank _ (by simp),
      outline_spaced_append _ (by rw [hsection]), hsection, outline_before h,
      (joined_eq_nil_iff h).1 hnil]
    rfl
  · have htext : spaced (dayHeader day ++ '\n' :: trimEnd content) =
        (dayHeader day ++ '\n' :: trimEnd content ++ ['\n']) ++ ['\n'] := by
      simp [spaced, dayHeader]
    have hrest : outline (spaced (dayHeader day ++ '\n' :: trimEnd content) ++
        Section.joined b) =
        ⟨[], ⟨day, dayHeader day, trimEnd content⟩ :: b.map Section.trimmed⟩ := by
      rw [htext, List.append_assoc, List.singleton_append,
        outline_append_newline _ (by rw [hbehind]), outline_append_of_blank _ (by simp), hsection,
        hbehind]
      rfl
    rw [if_neg (by simpa using hnil), outline_closed, List.append_assoc,
      outline_spaced_append _ (by rw [hrest]), hrest, outline_before h]
    rfl

theorem dayText_eq (document : Text) (day : Date) :
    dayText document day =
      match (outline document).sections.find? fun s => s.day == day with
      | some s => s.body
      | none => [] := by
  have hfind : (outline document).sections.find? (fun s => s.day == day) =
      ((ofText document).section? day).map Section.trimmed := by
    simp only [outline, trimmed, section?, List.find?_map]
    rfl
  rw [hfind, dayText]
  cases (ofText document).section? day <;> rfl

/-- The sections of an outline are the trimmed sections of the document, so a split of one is a
split of the other. -/
theorem exists_split {document : Text} {before after : List Section}
    (h : (outline document).sections = before ++ after) :
    ∃ a b, ofText document = ⟨(ofText document).preamble, a ++ b⟩ ∧
      a.map Section.trimmed = before ∧ b.map Section.trimmed = after := by
  obtain ⟨a, b, hsections, ha, hb⟩ := List.map_eq_append_iff.1 h
  exact ⟨a, b, by rw [← hsections], ha, hb⟩

theorem forall_day_of_trimmed {P : Date → Prop} {a before : List Section}
    (ha : a.map Section.trimmed = before) (h : ∀ t ∈ before, P t.day) : ∀ x ∈ a, P x.day := by
  subst ha
  exact fun x hx => h x.trimmed (List.mem_map_of_mem hx)

theorem exists_split_at_section {document : Text} {before after : List Section} {s : Section}
    (h : (outline document).sections = before ++ s :: after) :
    ∃ a x b, ofText document = ⟨(ofText document).preamble, a ++ x :: b⟩ ∧
      a.map Section.trimmed = before ∧ x.trimmed = s ∧ b.map Section.trimmed = after := by
  obtain ⟨a, rest, hdoc, ha, hrest⟩ := exists_split h
  obtain ⟨x, b, rfl, hx, hb⟩ := List.map_eq_cons_iff.1 hrest
  exact ⟨a, x, b, hdoc, ha, hx, hb⟩

/-! ## The outline after an update -/

section Outline

variable {document content : Text} {day : Date} {before after : List Section} {s : Section}

theorem outline_updateDay_of_mem (hcontent : Headless content)
    (h : (outline document).sections = before ++ s :: after)
    (hbefore : ∀ t ∈ before, t.day ≠ day) (hs : s.day = day) :
    outline (updateDay document day content) =
      if isBlankText content then ⟨(outline document).preamble, before ++ after⟩
      else
        ⟨(outline document).preamble, before ++ { s with body := trimEnd content } :: after⟩ := by
  obtain ⟨a, x, b, hdoc, ha, rfl, rfl⟩ := exists_split_at_section h
  have hne : ∀ y ∈ a, y.day ≠ day := forall_day_of_trimmed (P := (· ≠ day)) ha hbefore
  subst ha
  cases hblank : isBlankText content with
  | true =>
      rw [outline_remove hdoc hne hs hblank]
      rfl
  | false =>
      subst hs
      rw [outline_replace hdoc hne rfl hcontent hblank]
      rfl

theorem outline_updateDay_of_not_mem (hday : 1000 ≤ day.year) (hcontent : Headless content)
    (h : (outline document).sections = before ++ after)
    (hnew : ∀ t ∈ before ++ after, t.day ≠ day) (hbefore : ∀ t ∈ before, t.day ≤ day)
    (hafter : ∀ t more, after = t :: more → day < t.day) :
    outline (updateDay document day content) =
      if isBlankText content then outline document
      else ⟨(outline document).preamble,
        before ++ ⟨day, dayHeader day, trimEnd content⟩ :: after⟩ := by
  obtain ⟨a, b, hdoc, ha, hb⟩ := exists_split h
  have hne : ∀ y ∈ a ++ b, y.day ≠ day :=
    forall_day_of_trimmed (P := (· ≠ day)) (by rw [List.map_append, ha, hb]) hnew
  cases hblank : isBlankText content with
  | true =>
      rw [updateDay_of_not_mem (by rw [hdoc]; exact hne), if_pos hblank]
      rfl
  | false =>
      have hlater : ∀ y more, b = y :: more → day < y.day := by
        rintro y more rfl
        exact hafter y.trimmed _ hb.symm
      rw [outline_insert hday hdoc hne (forall_day_of_trimmed (P := (· ≤ day)) ha hbefore) hlater
        hcontent hblank, ha, hb]
      rfl

end Outline

/-! ## Splitting a list of sections -/

theorem exists_split_at_day (ss : List Section) (day : Date) :
    (∃ before s after, ss = before ++ s :: after ∧ (∀ t ∈ before, t.day ≠ day) ∧ s.day = day) ∨
      ∀ t ∈ ss, t.day ≠ day := by
  cases h : ss.find? (fun t => t.day == day) with
  | none => exact Or.inr fun t ht => by simpa using List.find?_eq_none.1 h t ht
  | some s =>
      obtain ⟨hs, before, after, hss, hbefore⟩ := List.find?_eq_some_iff_append.1 h
      exact Or.inl ⟨before, s, after, hss, fun t ht => by simpa using hbefore t ht,
        by simpa using hs⟩

theorem exists_split_before_later (ss : List Section) (day : Date) :
    ∃ before after, ss = before ++ after ∧ (∀ t ∈ before, t.day ≤ day) ∧
      ∀ t more, after = t :: more → day < t.day := by
  refine ⟨ss.takeWhile (fun t => t.day ≤ day), ss.dropWhile (fun t => t.day ≤ day),
    List.takeWhile_append_dropWhile.symm, fun t ht => ?_, fun t more ht => ?_⟩
  · simpa using List.mem_takeWhile_imp ht
  · have hnot := List.head?_dropWhile_not (fun t : Section => decide (t.day ≤ day)) ss
    rw [ht] at hnot
    simp only [List.head?_cons, decide_eq_false_iff_not] at hnot
    exact Nat.lt_of_not_le hnot

theorem find?_append_of_ne {before : List Section} {day : Date}
    (h : ∀ t ∈ before, t.day ≠ day) (rest : List Section) :
    (before ++ rest).find? (fun t => t.day == day) = rest.find? fun t => t.day == day := by
  have hnone : before.find? (fun t => t.day == day) = none := by
    rw [List.find?_eq_none]
    exact fun t ht => by simpa using h t ht
  rw [List.find?_append, hnone, Option.none_or]

theorem find?_append_cons_of_ne {s : Section} {other : Date} (before after : List Section)
    (h : s.day ≠ other) :
    (before ++ s :: after).find? (fun t => t.day == other) =
      (before ++ after).find? fun t => t.day == other := by
  rw [List.find?_append, List.find?_append, List.find?_cons_of_neg (by simpa using h)]

/-! ## What a day reads after an update -/

theorem dayText_of_split {document : Text} {day : Date} {p : Text} {before after : List Section}
    {s : Section} (h : outline document = ⟨p, before ++ s :: after⟩)
    (hbefore : ∀ t ∈ before, t.day ≠ day) (hs : s.day = day) : dayText document day = s.body := by
  rw [dayText_eq, h, find?_append_of_ne hbefore, List.find?_cons_of_pos (by simpa using hs)]

theorem dayText_of_not_mem {document : Text} {day : Date}
    (h : ∀ t ∈ (outline document).sections, t.day ≠ day) : dayText document day = [] := by
  have hnone : (outline document).sections.find? (fun t => t.day == day) = none := by
    rw [List.find?_eq_none]
    exact fun t ht => by simpa using h t ht
  rw [dayText_eq, hnone]

theorem dayText_updateDay_self {document content : Text} {day : Date} (hday : 1000 ≤ day.year)
    (hcontent : Headless content) (hblank : isBlankText content = false) :
    dayText (updateDay document day content) day = trimEnd content := by
  rcases exists_split_at_day (outline document).sections day with
    ⟨before, s, after, h, hbefore, hs⟩ | hnew
  · have hout := outline_updateDay_of_mem hcontent h hbefore hs
    rw [hblank] at hout
    exact dayText_of_split hout hbefore hs
  · obtain ⟨before, after, h, hbefore, hafter⟩ :=
      exists_split_before_later (outline document).sections day
    rw [h] at hnew
    have hout := outline_updateDay_of_not_mem hday hcontent h hnew hbefore
      hafter
    rw [hblank] at hout
    exact dayText_of_split hout (fun t ht => hnew t (List.mem_append_left _ ht)) rfl

theorem dayText_updateDay_of_ne {document content : Text} {day other : Date}
    (hday : 1000 ≤ day.year) (hcontent : Headless content) (hne : other ≠ day) :
    dayText (updateDay document day content) other = dayText document other := by
  -- Whatever stands for the section of `day`, the search for `other` passes over it.
  have hskip : ∀ (before after : List Section) (s : Section), s.day = day →
      (before ++ s :: after).find? (fun t => t.day == other) =
        (before ++ after).find? fun t => t.day == other :=
    fun before after s hs => find?_append_cons_of_ne before after (hs ▸ hne.symm)
  rw [dayText_eq, dayText_eq]
  rcases exists_split_at_day (outline document).sections day with
    ⟨before, s, after, h, hbefore, hs⟩ | hnew
  · have hout := outline_updateDay_of_mem hcontent h hbefore hs
    rw [h, hskip _ _ s hs]
    cases hblank : isBlankText content with
    | true => rw [hout, if_pos hblank]
    | false =>
        rw [hout, if_neg (by simp [hblank])]
        simp only [hskip before after { s with body := trimEnd content } hs]
  · obtain ⟨before, after, h, hbefore, hafter⟩ :=
      exists_split_before_later (outline document).sections day
    rw [h] at hnew
    have hout := outline_updateDay_of_not_mem hday hcontent h hnew hbefore hafter
    cases hblank : isBlankText content with
    | true => rw [hout, if_pos hblank]
    | false =>
        rw [hout, if_neg (by simp [hblank]), h]
        simp only [hskip before after ⟨day, dayHeader day, trimEnd content⟩ rfl]

/-- A section that is taken out uncovers the next one of its day. -/
theorem dayText_updateDay_of_blank {document content : Text} {day : Date}
    {before after : List Section} {s : Section} (hcontent : Headless content)
    (hblank : isBlankText content = true)
    (h : (outline document).sections = before ++ s :: after)
    (hbefore : ∀ t ∈ before, t.day ≠ day) (hs : s.day = day) :
    dayText (updateDay document day content) day =
      match after.find? fun t => t.day == day with
      | some t => t.body
      | none => [] := by
  have hout := outline_updateDay_of_mem hcontent h hbefore hs
  rw [if_pos hblank] at hout
  rw [dayText_eq, hout, find?_append_of_ne hbefore]

/-- An update is an edit of the list of sections.  The first section of the day gets the new body,
or goes away for a blank one; a day without a section gets one before the first later section; the
rest of the outline stays as it was. -/
theorem outline_updateDay {document content : Text} {day : Date} (hday : 1000 ≤ day.year)
    (hcontent : Headless content) :
    (∀ before s after, (outline document).sections = before ++ s :: after →
      (∀ t ∈ before, t.day ≠ day) → s.day = day →
      (isBlankText content = false →
        outline (updateDay document day content) =
            ⟨(outline document).preamble,
              before ++ { s with body := trimEnd content } :: after⟩ ∧
          dayText (updateDay document day content) day = trimEnd content) ∧
      (isBlankText content = true →
        outline (updateDay document day content) =
            ⟨(outline document).preamble, before ++ after⟩ ∧
          dayText (updateDay document day content) day =
            match after.find? fun t => t.day == day with
            | some t => t.body
            | none => [])) ∧
    ((∀ t ∈ (outline document).sections, t.day ≠ day) →
      (isBlankText content = false →
        ∃ before after, (outline document).sections = before ++ after ∧
          (∀ t ∈ before, t.day < day) ∧ (∀ t more, after = t :: more → day < t.day) ∧
          outline (updateDay document day content) =
            ⟨(outline document).preamble,
              before ++ ⟨day, dayHeader day, trimEnd content⟩ :: after⟩ ∧
          dayText (updateDay document day content) day = trimEnd content) ∧
      (isBlankText content = true →
        updateDay document day content = document ∧
          dayText (updateDay document day content) day = [])) ∧
    ∀ other, other ≠ day →
      dayText (updateDay document day content) other = dayText document other := by
  refine ⟨fun before s after h hbefore hs => ⟨fun hblank => ?_, fun hblank => ?_⟩,
    fun hnew => ⟨fun hblank => ?_, fun hblank => ?_⟩,
    fun other hne => dayText_updateDay_of_ne hday hcontent hne⟩
  · have hout := outline_updateDay_of_mem hcontent h hbefore hs
    rw [hblank] at hout
    exact ⟨hout, dayText_updateDay_self hday hcontent hblank⟩
  · have hout := outline_updateDay_of_mem hcontent h hbefore hs
    rw [hblank] at hout
    exact ⟨hout, dayText_updateDay_of_blank hcontent hblank h hbefore hs⟩
  · obtain ⟨before, after, h, hbefore, hafter⟩ :=
      exists_split_before_later (outline document).sections day
    have hout := outline_updateDay_of_not_mem hday hcontent h (h ▸ hnew) hbefore hafter
    rw [hblank] at hout
    refine ⟨before, after, h, fun t ht => ?_, hafter, hout,
      dayText_updateDay_self hday hcontent hblank⟩
    have hne : t.day ≠ day := hnew t (by rw [h]; exact List.mem_append_left _ ht)
    exact lt_of_le_of_ne (hbefore t ht) hne
  · have hsame : updateDay document day content = document := by
      have hnone : ∀ x ∈ (ofText document).sections, x.day ≠ day :=
        forall_day_of_trimmed (P := (· ≠ day)) rfl hnew
      rw [updateDay_of_not_mem hnone, if_pos hblank]
    rw [hsame]
    exact ⟨rfl, dayText_of_not_mem hnew⟩

/-- The end of a week: a section takes its place between two others. -/
theorem outline_updateDay_between :
    ∃ before after,
      (∀ t ∈ before, t.day < ⟨2026, 1, 6, by decide⟩) ∧
      outline (updateDay "notes\n\n# 2026/01/05 Mon\na\n# 2026/01/09\nb".toList
          ⟨2026, 1, 6, by decide⟩ "new \n".toList) =
        ⟨"notes".toList, before ++ ⟨⟨2026, 1, 6, by decide⟩, "# 2026/01/06".toList,
          "new".toList⟩ :: after⟩ := by
  obtain ⟨before, after, -, hbefore, -, hout, -⟩ :=
    ((@outline_updateDay "notes\n\n# 2026/01/05 Mon\na\n# 2026/01/09\nb".toList "new \n".toList
      ⟨2026, 1, 6, by decide⟩ (by decide) (by decide)).2.1 (by decide +kernel)).1 (by decide)
  exact ⟨before, after, hbefore, hout⟩

/-- When a day has two sections, a blank text takes only the first of them away, and the day reads
the other one. -/
theorem dayText_updateDay_of_repeated_day :
    Headless [] ∧
      dayText (updateDay "# 2026/01/05\na\n\n# 2026/01/05\nb\n".toList ⟨2026, 1, 5, by decide⟩ [])
        ⟨2026, 1, 5, by decide⟩ ≠ [] := by
  decide +kernel

end Document

end DayJournal

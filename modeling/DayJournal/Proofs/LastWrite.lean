import DayJournal.Proofs.DatedDocument

/-!
# The last write of a day stays

A document has a slot for each day: what stands before the section of the day, its header line and
what stands behind it.  An update of the day fills the slot, whether the section was there or is
new (`exists_slot`), and a document that was made by filling a slot has the same slot again, up to
blanks at its end (`Slot.updateDay_fill`).  So of two texts that are written to a day one after the
other only the second leaves a trace.
-/

namespace DayJournal

open Text Document

namespace Document

/-! ## Texts that begin with a header -/

/-- Nothing stands above the first header of the text. -/
def Opens (s : Text) : Prop := (ofText s).preamble = []

namespace Opens

variable {s t : Text}

theorem ofText_eq (h : Opens s) : ofText s = ⟨[], (ofText s).sections⟩ := by
  rw [← show (ofText s).preamble = [] from h]

theorem joined (h : Opens s) : Section.joined (ofText s).sections = s :=
  joined_of_no_preamble h.ofText_eq

theorem eq_nil_or_mark (h : Opens s) : s = [] ∨ ∃ rest, s = '#' :: rest := by
  cases hsections : (ofText s).sections with
  | nil =>
      left
      rw [← h.joined, hsections]
      rfl
  | cons x b =>
      have hmem : x ∈ (ofText s).sections := by rw [hsections]; exact List.mem_cons_self
      have hx : x.WellFormed := wellFormed_of_mem h.ofText_eq hmem
      obtain ⟨rest, hrest⟩ := exists_cons_of_headedDay hx.headed
      right
      rw [← h.joined, hsections]
      exact ⟨rest ++ x.body ++ Section.joined b, by simp [Section.joined, Section.text, hrest]⟩

theorem trimStart (h : Opens s) : trimStart s = s := by
  rcases h.eq_nil_or_mark with rfl | ⟨rest, rfl⟩
  · rfl
  · exact trimStart_of_not_blank (by decide) rest

theorem of_outline {rest : Text} (h : (outline ('#' :: rest)).preamble = []) :
    Opens ('#' :: rest) := by
  have hblank : isBlankText (ofText ('#' :: rest)).preamble = true := trimEnd_eq_nil_iff.1 h
  have htext := text_ofText ('#' :: rest)
  rw [Opens]
  cases hpreamble : (ofText ('#' :: rest)).preamble with
  | nil => rfl
  | cons c more =>
      rw [Document.text, hpreamble, List.cons_append] at htext
      rw [hpreamble, (List.cons.inj htext).1, isBlankText_cons] at hblank
      exact absurd (Bool.and_eq_true_iff.1 hblank).1 (by decide)

theorem ofText_append_newline (h : Opens t) (s : Text) :
    ofText (s ++ '\n' :: t) =
      ⟨(ofText (s ++ ['\n'])).preamble,
        (ofText (s ++ ['\n'])).sections ++ (ofText t).sections⟩ := by
  induction s using lineInduction with
  | last s hnl =>
      rw [ofText_line hnl, ofText_line hnl, h.ofText_eq, cons, cons]
      cases headedDay? (s ++ ['\n']) <;> rfl
  | line s rest hnl ih =>
      simp only [List.append_assoc, List.cons_append, ofText_line hnl]
      rw [ih, cons, cons]
      cases headedDay? (s ++ ['\n']) <;> rfl

theorem ofText_append (h : Opens t) (hs : EndsLine s) :
    ofText (s ++ t) = ⟨(ofText s).preamble, (ofText s).sections ++ (ofText t).sections⟩ := by
  rcases hs with rfl | ⟨line, rfl⟩
  · exact h.ofText_eq
  · rw [List.append_assoc, List.singleton_append, h.ofText_append_newline]

end Opens

/-! ## Blanks at the end of a document -/

def settled (s : Text) : Text := if s = [] then [] else closed s

theorem closed_append_settled (s t : Text) : closed (s ++ settled t) = closed (s ++ t) := by
  unfold settled
  split
  · next h => rw [h]
  · rw [closed, closed, closed, ← List.append_assoc, trimEnd_append_of_blank (by simp),
      trimEnd_append_trimEnd]

theorem isEmpty_settled (s : Text) : (settled s).isEmpty = s.isEmpty := by
  unfold settled
  split
  · next h => rw [h]
  · next h => rw [List.isEmpty_eq_false_iff.2 h]; simp [closed]

theorem Opens.settled {s : Text} (h : Opens s) : Opens (settled s) := by
  unfold Document.settled
  split
  · rfl
  · next hne =>
    obtain ⟨rest, rfl⟩ := h.eq_nil_or_mark.resolve_left hne
    obtain ⟨kept, hkept⟩ : ∃ kept, closed ('#' :: rest) = '#' :: kept := by
      rw [closed, trimEnd, trimEndOf]
      split
      · exact ⟨['\n'], rfl⟩
      · exact ⟨_, rfl⟩
    have hout : (outline (closed ('#' :: rest))).preamble = [] := by
      rw [outline_closed, outline, h.ofText_eq]
      rfl
    rw [hkept] at hout ⊢
    exact Opens.of_outline hout

theorem withoutSection_settled {before after : Text} (h : Opens after) :
    withoutSection before (settled after) = withoutSection before after := by
  rw [withoutSection, withoutSection, isEmpty_settled, h.settled.trimStart, h.trimStart]
  by_cases hnil : after = []
  · subst hnil
    rfl
  · have hfilled : ∀ s : Text,
        (s ++ settled after).isEmpty = false ∧ (s ++ after).isEmpty = false := by
      intro s
      simp [hnil, settled, closed]
    simp only [List.isEmpty_eq_false_iff.2 hnil, (hfilled _).1, (hfilled _).2, Bool.false_eq_true,
      if_false, closed_append_settled]

/-! ## Slots -/

/-- The place of a day in a document: what stands before its section, its header line, and what
stands behind it. -/
structure Slot (day : Date) where
  before : Text
  header : Text
  after : Text
  ends : EndsLine before
  fresh : ∀ x ∈ (ofText before).sections, x.day ≠ day
  headed : headedDay? header = some day
  one_line : '\n' ∉ header
  bare : trimEndOf (fun c => c = '\r' || c = '\n') header = header
  opens : Opens after

namespace Slot

variable {day : Date}

/-- The document with a text in the slot; a blank text takes the slot away. -/
def fill (f : Slot day) (content : Text) : Text :=
  if isBlankText content then withoutSection f.before f.after
  else
    closed (f.before ++ f.header ++ '\n' :: trimEnd content ++ "\n\n".toList ++ f.after)

theorem fill_eq (f : Slot day) {content : Text} (hfilled : isBlankText content = false) :
    f.fill content = f.before ++ (f.header ++ '\n' ::
      (trimEnd content ++ '\n' :: ((if f.after = [] then [] else ['\n']) ++ settled f.after))) := by
  rw [fill, hfilled, if_neg Bool.false_ne_true, closed, settled]
  by_cases hnil : f.after = []
  · have hcut : f.before ++ f.header ++ '\n' :: trimEnd content =
        (f.before ++ f.header ++ ['\n']) ++ trimEnd content := by simp
    rw [hnil, List.append_nil, trimEnd_append_of_blank (by decide), if_pos rfl, if_pos rfl, hcut,
      trimEnd_append_trimEnd, trimEnd_append_of_not_blank hfilled]
    simp
  · have hafter : isBlankText f.after = false := by
      obtain ⟨rest, hrest⟩ := f.opens.eq_nil_or_mark.resolve_left hnil
      rw [hrest]
      rfl
    rw [if_neg hnil, if_neg hnil, trimEnd_append_of_not_blank hafter, closed]
    simp

/-- A text that fills a slot is the body of a section of its day, and the sections around it are
what they were, up to blanks at the end of the document. -/
theorem exists_ofText_fill (f : Slot day) {content : Text} (headless : Headless content)
    (hfilled : isBlankText content = false) :
    ∃ body, ofText (f.fill content) = ⟨(ofText f.before).preamble,
      (ofText f.before).sections ++
        ⟨day, f.header ++ ['\n'], body⟩ :: (ofText (settled f.after)).sections⟩ := by
  obtain ⟨gap, hgap⟩ : ∃ gap : Text, gap = if f.after = [] then [] else ['\n'] := ⟨_, rfl⟩
  have hends : EndsLine gap ∧ (ofText gap).sections = [] := by
    rw [hgap]
    split
    · exact ⟨Or.inl rfl, rfl⟩
    · exact ⟨Or.inr ⟨[], rfl⟩, rfl⟩
  let tail := gap ++ settled f.after
  have htail : (ofText tail).sections = (ofText (settled f.after)).sections := by
    rw [f.opens.settled.ofText_append hends.1, hends.2, List.nil_append]
  have hsection : ofText (f.header ++ '\n' :: (trimEnd content ++ '\n' :: tail)) =
      ⟨[], ⟨day, f.header ++ ['\n'], trimEnd content ++ '\n' :: (ofText tail).preamble⟩ ::
        (ofText tail).sections⟩ := by
    rw [ofText_line f.one_line, ofText_headless_append (headless_trimEnd.2 headless), cons,
      headedDay?_append_newline, f.headed]
  have hopens : Opens (f.header ++ '\n' :: (trimEnd content ++ '\n' :: tail)) := by
    rw [Opens, hsection]
  refine ⟨trimEnd content ++ '\n' :: (ofText tail).preamble, ?_⟩
  rw [f.fill_eq hfilled, ← hgap, hopens.ofText_append f.ends, hsection, htail]

theorem updateDay_fill (f : Slot day) {content content' : Text} (headless : Headless content)
    (hfilled : isBlankText content = false) :
    updateDay (f.fill content) day content' = f.fill content' := by
  obtain ⟨body, hdoc⟩ := f.exists_ofText_fill headless hfilled
  have hbefore :
      (ofText f.before).preamble ++ Section.joined (ofText f.before).sections = f.before :=
    text_ofText f.before
  have hheader : Section.headerLine ⟨day, f.header ++ ['\n'], body⟩ = f.header := by
    rw [Section.headerLine, trimEndOf_append_of_all (by decide), f.bare]
  rw [updateDay_of_mem hdoc f.fresh rfl, hbefore, hheader, f.opens.settled.joined,
    withoutSection_settled f.opens, closed_append_settled]
  rfl

end Slot

/-! ## The slots of a document -/

section Slots

variable {t p : Text} {day : Date} {a b : List Section}

/-- The slot that a section of the day is in, where none before it is of that day. -/
def Slot.around {s : Section} (h : ofText t = ⟨p, a ++ s :: b⟩) (ha : ∀ x ∈ a, x.day ≠ day)
    (hs : s.day = day) : Slot day where
  before := p ++ Section.joined a
  header := s.headerLine
  after := Section.joined b
  ends := (ofText_cut t h).2.2 (by simp)
  fresh := by
    rw [(ofText_cut t h).1]
    exact ha
  headed := hs ▸ (wellFormed_of_mem h (by simp)).headed_headerLine
  one_line := (wellFormed_of_mem h (by simp)).newline_not_mem_headerLine
  bare := trimEndOf_trimEndOf _ _
  opens := by rw [Opens, (ofText_cut t (p := p) (a := a ++ [s]) (by rw [h]; simp)).2.1]

theorem days_spaced_joined (h : ofText t = ⟨p, a ++ b⟩) :
    days (spaced (trimEnd (p ++ Section.joined a))) = a.map Section.day := by
  have houtline :
      outline (spaced (trimEnd (p ++ Section.joined a))) = outline (p ++ Section.joined a) := by
    have happend := outline_spaced_append (p ++ Section.joined a) (t := []) rfl
    rw [List.append_nil] at happend
    rw [happend]
    simp [followedBy]
  rw [days_eq_outline, houtline, ← days_eq_outline, days, (ofText_cut t h).1]

def Slot.between (late : 1000 ≤ day.year) (h : ofText t = ⟨p, a ++ b⟩)
    (hnew : ∀ x ∈ a ++ b, x.day ≠ day) : Slot day where
  before := spaced (trimEnd (p ++ Section.joined a))
  header := dayHeader day
  after := Section.joined b
  ends := by
    unfold spaced
    split
    · exact Or.inl rfl
    · exact Or.inr ⟨trimEnd (p ++ Section.joined a) ++ ['\n'], by simp⟩
  fresh x hx hday := by
    have hmem : x.day ∈ a.map Section.day := days_spaced_joined h ▸ List.mem_map_of_mem hx
    obtain ⟨y, hy, hyx⟩ := List.mem_map.1 hmem
    exact hnew y (List.mem_append_left _ hy) (hyx.trans hday)
  headed := headedDay?_dayHeader late
  one_line := newline_not_mem_dayHeader day
  bare := trimEndOf_of_trimEnd (fun _ => isBlank_of_break) (trimEnd_dayHeader day)
  opens := by rw [Opens, (ofText_cut t h).2.1]

theorem updateDay_between (late : 1000 ≤ day.year) (h : ofText t = ⟨p, a ++ b⟩)
    (hnew : ∀ x ∈ a ++ b, x.day ≠ day) (ha : ∀ x ∈ a, x.day ≤ day)
    (hb : ∀ x more, b = x :: more → day < x.day) {content : Text}
    (hfilled : isBlankText content = false) :
    updateDay t day content = (Slot.between late h hnew).fill content := by
  have hlater : ∀ x more, b = x :: more → decide (x.day ≤ day) = false :=
    fun x more hx => decide_eq_false (Nat.not_le_of_lt (hb x more hx))
  obtain ⟨htake, hdrop⟩ := takeWhile_of_split (p := fun x : Section => decide (x.day ≤ day))
    (l := (ofText t).sections) (by rw [h]) (by simpa using ha) hlater
  have hpreamble : (ofText t).preamble = p := by rw [h]
  rw [updateDay_of_not_mem (by rw [h]; exact hnew), if_neg (by simp [hfilled]), insertDay]
  simp only [htake, hdrop, hpreamble]
  by_cases hnil : Section.joined b = []
  · rw [if_pos (by rw [hnil]; rfl), Slot.fill_eq _ hfilled]
    simp [Slot.between, hnil, settled]
  · have hnew : spaced (dayHeader day ++ '\n' :: trimEnd content) =
        dayHeader day ++ '\n' :: trimEnd content ++ "\n\n".toList := by
      simp [spaced, dayHeader]
    rw [if_neg (by simpa using hnil), hnew, Slot.fill, if_neg (by simp [hfilled])]
    simp [Slot.between]

end Slots

/-- Every document has a slot for a day that an update of the day fills, unless it has no section of
the day and there is nothing to write. -/
theorem exists_slot {day : Date} (late : 1000 ≤ day.year) (t : Text) :
    ∃ f : Slot day, ∀ content, (day ∉ days t → isBlankText content = false) →
      updateDay t day content = f.fill content := by
  rcases exists_split_at_day (ofText t).sections day with
    ⟨before, s, after, h, hbefore, hs⟩ | hnew
  · have hdoc : ofText t = ⟨(ofText t).preamble, before ++ s :: after⟩ := by rw [← h]
    exact ⟨Slot.around hdoc hbefore hs, fun content _ => updateDay_of_mem hdoc hbefore hs⟩
  · obtain ⟨before, after, h, hbefore, hafter⟩ := exists_split_before_later (ofText t).sections day
    have hdoc : ofText t = ⟨(ofText t).preamble, before ++ after⟩ := by rw [← h]
    have hday : day ∉ days t := fun hmem => by
      obtain ⟨s, hs, hday⟩ := List.mem_map.1 hmem
      exact hnew s hs hday
    exact ⟨Slot.between late hdoc (h ▸ hnew), fun content hfilled =>
      updateDay_between late hdoc (h ▸ hnew) hbefore hafter (hfilled hday)⟩

/-- Of two texts that are written to a day one after the other the second one stays, and every
character of the document is as if the first had not been written. -/
theorem updateDay_updateDay {t content content' : Text} {day : Date} (late : 1000 ≤ day.year)
    (headless : Headless content) (hfilled : isBlankText content = false)
    (hlast : day ∉ days t → isBlankText content' = false) :
    updateDay (updateDay t day content) day content' = updateDay t day content' := by
  obtain ⟨f, hfill⟩ := exists_slot late t
  rw [hfill content fun _ => hfilled, hfill content' hlast, f.updateDay_fill headless hfilled]

/-- The first of two sections of a day is written and then taken away. -/
theorem updateDay_updateDay_of_repeated_day :
    let t : Text := "a\r\n# 2026/01/09\nb\n\n\n# 2026/01/05 \r\nc\n# 2026/01/05\n\nd \n\n".toList
    let day : Date := ⟨2026, 1, 5, by decide⟩
    (Headless "new\n\n".toList ∧ isBlankText "new\n\n".toList = false ∧ day ∈ days t) ∧
      updateDay (updateDay t day "new\n\n".toList) day [] = updateDay t day [] ∧
      updateDay t day [] = "a\r\n# 2026/01/09\nb\n\n# 2026/01/05\n\nd\n".toList := by
  intro t day
  have headless : Headless "new\n\n".toList := by decide
  have hfilled : isBlankText "new\n\n".toList = false := by decide
  have hday : day ∈ days t := by decide +kernel
  exact ⟨⟨headless, hfilled, hday⟩,
    updateDay_updateDay (by decide) headless hfilled fun hnot => absurd hday hnot,
    by decide +kernel⟩

end Document

end DayJournal

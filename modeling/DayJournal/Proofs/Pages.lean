import DayJournal.Proofs.DayUpdate
import Mathlib.Data.List.Sort

/-!
# Pages and the canonical text of a document

A page is a day with the text that is kept for it, and a noted page one with a note behind the date
on its header line.  The document of pages in the order of their days has a header line and the
text of each page, one blank line between one page and the next, and one newline at the end; where
no page has a note it is canonical.  An update of such a document is again one
(`NotedPage.updateDay_print`): a day that has a page keeps its note, and a new page has none.
-/

namespace DayJournal

open Text Document

/-- A day with its text: no line of it is a header, and it does not end in blanks. -/
structure Page where
  day : Date
  text : Text
  late : 1000 ≤ day.year
  headless : Headless text
  filled : isBlankText text = false
  trimmed : trimEnd text = text

namespace Page

variable {p q : Page} {a b ps : List Page}

theorem ext_text (hday : p.day = q.day) (htext : p.text = q.text) : p = q := by
  obtain ⟨pday, ptext, _, _, _, _⟩ := p
  obtain ⟨qday, qtext, _, _, _, _⟩ := q
  simp only at hday htext
  subst hday htext
  rfl

def block (p : Page) : Text := dayHeader p.day ++ '\n' :: p.text

def print (ps : List Page) : Text :=
  if ps.isEmpty then [] else List.intercalate "\n\n".toList (ps.map block) ++ ['\n']

def ofContent? (day : Date) (content : Text) (late : 1000 ≤ day.year)
    (headless : Headless content) : Option Page :=
  if h : isBlankText content = false then
    some ⟨day, trimEnd content, late, headless_trimEnd.2 headless, by simpa using h,
      trimEnd_trimEnd content⟩
  else none

section Content

variable {day : Date} {content : Text}

theorem exists_ofContent? (late : 1000 ≤ day.year) (headless : Headless content)
    (h : isBlankText content = false) :
    ∃ p, ofContent? day content late headless = some p ∧ p.day = day ∧ p.text = trimEnd content :=
  ⟨_, dif_pos h, rfl, rfl⟩

theorem ofContent?_of_blank (late : 1000 ≤ day.year) (headless : Headless content)
    (h : isBlankText content = true) : ofContent? day content late headless = none :=
  dif_neg (by simp [h])

theorem map_text_ofContent? (late : 1000 ≤ day.year) (headless : Headless content) :
    (ofContent? day content late headless).map Page.text =
      if isBlankText content then none else some (trimEnd content) := by
  cases h : isBlankText content with
  | true => rw [ofContent?_of_blank late headless h, if_pos rfl, Option.map_none]
  | false =>
      obtain ⟨p, hp, -, htext⟩ := exists_ofContent? late headless h
      rw [hp, if_neg Bool.false_ne_true, Option.map_some, htext]

theorem day_of_mem_ofContent? {late : 1000 ≤ day.year} {headless : Headless content} :
    ∀ p ∈ ofContent? day content late headless, p.day = day := by
  intro p hp
  unfold ofContent? at hp
  split at hp
  · rw [← Option.mem_some.1 hp]
  · simp at hp

end Content

end Page

/-- A page with a note behind the date on its header line. -/
structure NotedPage extends Page where
  note : Text
  single : '\n' ∉ note
  bare : trimEnd note = note

namespace NotedPage

variable {p q : NotedPage} {a b ps : List NotedPage}

theorem ext_note (hpage : p.toPage = q.toPage) (hnote : p.note = q.note) : p = q := by
  obtain ⟨_, _, _, _⟩ := p
  obtain ⟨_, _, _, _⟩ := q
  simp only at hpage hnote
  subst hpage hnote
  rfl

def header (p : NotedPage) : Text := dayHeader p.day ++ p.note

theorem newline_not_mem_header (p : NotedPage) : '\n' ∉ p.header := by
  simp [header, newline_not_mem_dayHeader, p.single]

theorem headedDay?_header (p : NotedPage) : headedDay? p.header = some p.day :=
  headedDay?_append_of_some (headedDay?_dayHeader p.late) p.note

theorem trimEnd_header (p : NotedPage) : trimEnd p.header = p.header := by
  rw [header]
  cases hblank : isBlankText p.note with
  | true =>
      have hnil : p.note = [] := by rw [← p.bare, trimEnd_eq_nil_iff.2 hblank]
      rw [hnil, List.append_nil, trimEnd_dayHeader]
  | false => rw [trimEnd_append_of_not_blank hblank, p.bare]

def block (p : NotedPage) : Text := p.header ++ '\n' :: p.text

def print (ps : List NotedPage) : Text :=
  if ps.isEmpty then [] else List.intercalate "\n\n".toList (ps.map block) ++ ['\n']

def spread (ps : List NotedPage) : Text := (ps.map fun p => p.block ++ "\n\n".toList).flatten

theorem trimEnd_append_block (s : Text) (p : NotedPage) :
    trimEnd (s ++ p.block) = s ++ p.block := by
  have hcut : s ++ p.block = (s ++ p.header ++ ['\n']) ++ p.text := by simp [block]
  rw [hcut, trimEnd_append_of_not_blank p.filled, p.trimmed]

@[simp] theorem print_nil : print [] = [] := rfl

theorem print_singleton (p : NotedPage) : print [p] = p.block ++ ['\n'] := by
  simp [print, List.intercalate_singleton]

theorem print_cons (p : NotedPage) (h : ps ≠ []) :
    print (p :: ps) = p.block ++ "\n\n".toList ++ print ps := by
  obtain ⟨q, more, rfl⟩ := List.exists_cons_of_ne_nil h
  simp [print, List.intercalate_cons_cons]

@[simp] theorem spread_nil : spread [] = [] := rfl

@[simp] theorem spread_cons (p : NotedPage) (ps : List NotedPage) :
    spread (p :: ps) = p.block ++ "\n\n".toList ++ spread ps := rfl

@[simp] theorem spread_append (a b : List NotedPage) : spread (a ++ b) = spread a ++ spread b := by
  simp [spread]

theorem print_append (a : List NotedPage) (hb : b ≠ []) : print (a ++ b) = spread a ++ print b := by
  induction a with
  | nil => rfl
  | cons p a ih =>
      rw [List.cons_append, print_cons p (by simp [hb]), ih, spread_cons,
        ← List.append_assoc]

theorem trimEnd_spread (a : List NotedPage) (p : NotedPage) :
    trimEnd (spread (a ++ [p])) = spread a ++ p.block := by
  have hspread : spread (a ++ [p]) = spread a ++ p.block ++ "\n\n".toList := by simp
  rw [hspread, trimEnd_append_of_blank (by simp), trimEnd_append_block]

theorem trimEnd_print (ps : List NotedPage) : trimEnd (print ps) = trimEnd (spread ps) := by
  rcases List.eq_nil_or_concat ps with rfl | ⟨a, p, rfl⟩
  · rfl
  · rw [List.concat_eq_append, trimEnd_spread, print_append a (by simp), print_singleton,
      ← List.append_assoc, trimEnd_append_of_blank (by simp), trimEnd_append_block]

theorem closed_spread (h : ps ≠ []) : closed (spread ps) = print ps := by
  rcases List.eq_nil_or_concat ps with rfl | ⟨a, p, rfl⟩
  · exact absurd rfl h
  · rw [List.concat_eq_append, closed, trimEnd_spread, print_append a (by simp), print_singleton,
      List.append_assoc]

theorem closed_print (h : ps ≠ []) : closed (print ps) = print ps := by
  rw [closed, trimEnd_print]
  exact closed_spread h

theorem spaced_trimEnd_spread (ps : List NotedPage) : spaced (trimEnd (spread ps)) = spread ps := by
  rcases List.eq_nil_or_concat ps with rfl | ⟨a, p, rfl⟩
  · rfl
  · rw [List.concat_eq_append, trimEnd_spread]
    simp [spaced, block]

theorem closed_spread_append_print (h : a ++ b ≠ []) :
    closed (spread a ++ print b) = print (a ++ b) := by
  by_cases hb : b = []
  · subst hb
    rw [List.append_nil] at h ⊢
    rw [print_nil, List.append_nil, closed_spread h]
  · rw [← print_append a hb, closed_print h]

/-! ## Reading a canonical document -/

def leaf (ending : Text) (p : NotedPage) : Section :=
  ⟨p.day, p.header ++ ['\n'], p.text ++ ending⟩

def leaves : List NotedPage → List Section
  | [] => []
  | [p] => [p.leaf ['\n']]
  | p :: q :: more => p.leaf "\n\n".toList :: leaves (q :: more)

theorem leaves_cons (p : NotedPage) (h : ps ≠ []) :
    leaves (p :: ps) = p.leaf "\n\n".toList :: leaves ps := by
  obtain ⟨q, more, rfl⟩ := List.exists_cons_of_ne_nil h
  rfl

theorem leaves_append (a : List NotedPage) (hb : b ≠ []) :
    leaves (a ++ b) = a.map (leaf "\n\n".toList) ++ leaves b := by
  induction a with
  | nil => rfl
  | cons p a ih =>
      rw [List.cons_append, leaves_cons p (by simp [hb]), ih]
      rfl

theorem map_day_leaves (ps : List NotedPage) : (leaves ps).map Section.day = ps.map (·.day) := by
  induction ps with
  | nil => rfl
  | cons p ps ih =>
      by_cases h : ps = []
      · subst h
        rfl
      · rw [leaves_cons p h, List.map_cons, List.map_cons, ih]
        rfl

theorem joined_leaf (ending : Text) (p : NotedPage) (ss : List Section) :
    Section.joined (p.leaf ending :: ss) = p.block ++ ending ++ Section.joined ss := by
  simp [Section.joined, Section.text, leaf, block]

theorem joined_map_leaf (ps : List NotedPage) :
    Section.joined (ps.map (leaf "\n\n".toList)) = spread ps := by
  induction ps with
  | nil => rfl
  | cons p ps ih => rw [List.map_cons, joined_leaf, ih, spread_cons]

theorem joined_leaves (ps : List NotedPage) : Section.joined (leaves ps) = print ps := by
  induction ps with
  | nil => rfl
  | cons p ps ih =>
      by_cases h : ps = []
      · subst h
        rw [print_singleton, leaves, joined_leaf]
        exact List.append_nil _
      · rw [leaves_cons p h, joined_leaf, ih, print_cons p h]

theorem ofText_block (p : NotedPage) (rest : Text) :
    ofText (p.block ++ '\n' :: rest) =
      ⟨[], p.leaf ('\n' :: (ofText rest).preamble) :: (ofText rest).sections⟩ := by
  have hcut : p.block ++ '\n' :: rest = p.header ++ '\n' :: (p.text ++ '\n' :: rest) := by
    simp [block]
  rw [hcut, ofText_line p.newline_not_mem_header, ofText_headless_append p.headless, cons,
    headedDay?_append_newline, p.headedDay?_header]
  rfl

theorem ofText_print (ps : List NotedPage) : ofText (print ps) = ⟨[], leaves ps⟩ := by
  induction ps with
  | nil => rfl
  | cons p ps ih =>
      by_cases h : ps = []
      · subst h
        rw [print_singleton, ofText_block]
        rfl
      · have hcut : print (p :: ps) = p.block ++ '\n' :: ([] ++ '\n' :: print ps) := by
          rw [print_cons p h]
          simp
        rw [hcut, ofText_block, ofText_line (by simp), ih, leaves_cons p h]
        rfl

theorem ofText_print_append (a b : List NotedPage) :
    ∃ before, ofText (print (a ++ b)) = ⟨[], before ++ leaves b⟩ ∧
      before.map Section.day = a.map (·.day) ∧
      trimEnd (Section.joined before) = trimEnd (spread a) ∧
      (b ≠ [] → Section.joined before = spread a) := by
  rw [ofText_print]
  by_cases hb : b = []
  · subst hb
    refine ⟨leaves a, by simp [leaves], map_day_leaves a, ?_, fun h => absurd rfl h⟩
    rw [joined_leaves, trimEnd_print]
  · refine ⟨a.map (leaf "\n\n".toList), by rw [leaves_append a hb], ?_, ?_, fun _ => ?_⟩
    · rw [List.map_map]
      rfl
    · rw [joined_map_leaf]
    · exact joined_map_leaf a

theorem forall_day {P : Date → Prop} {before : List Section}
    (h : before.map Section.day = a.map (·.day)) (ha : ∀ p ∈ a, P p.day) :
    ∀ s ∈ before, P s.day := by
  intro s hs
  have hday : s.day ∈ a.map (·.day) := h ▸ List.mem_map_of_mem hs
  obtain ⟨p, hp, hps⟩ := List.mem_map.1 hday
  exact hps ▸ ha p hp

theorem leaves_cons_eq (p : NotedPage) (b : List NotedPage) :
    ∃ ending, isBlankText ending = true ∧ leaves (p :: b) = p.leaf ending :: leaves b := by
  cases b with
  | nil => exact ⟨['\n'], by decide, rfl⟩
  | cons q more => exact ⟨"\n\n".toList, by decide, rfl⟩

theorem dayText_print (ps : List NotedPage) (day : Date) :
    dayText (print ps) day = ((ps.find? fun p => p.day == day).map (·.text)).getD [] := by
  rw [dayText, ofText_print, section?]
  induction ps with
  | nil => rfl
  | cons p ps ih =>
      obtain ⟨ending, hending, hleaves⟩ := leaves_cons_eq p ps
      rw [hleaves]
      have hleaf : (p.leaf ending).day = p.day := rfl
      simp only [List.find?_cons, hleaf]
      cases p.day == day with
      | true =>
          show trimEnd (p.text ++ ending) = p.text
          rw [trimEnd_append_of_blank hending, p.trimmed]
      | false => exact ih

theorem headerLine_leaf (ending : Text) (p : NotedPage) :
    (p.leaf ending).headerLine = p.header := by
  rw [Section.headerLine, leaf, trimEndOf_append_of_all (by decide)]
  exact trimEndOf_of_trimEnd (fun _ => isBlank_of_break) p.trimEnd_header

/-! ## Updating a canonical document -/

theorem print_isEmpty (ps : List NotedPage) : (print ps).isEmpty = ps.isEmpty := by
  cases ps with
  | nil => rfl
  | cons p ps => simp [print]

theorem trimStart_print (ps : List NotedPage) : trimStart (print ps) = print ps := by
  have h : ofText (print ps) = ⟨[], [] ++ leaves ps⟩ := ofText_print ps
  rw [← joined_leaves, trimStart_joined h]

theorem withoutSection_print {before : Text} (h : trimEnd before = trimEnd (spread a))
    (b : List NotedPage) : withoutSection before (print b) = print (a ++ b) := by
  rw [withoutSection, print_isEmpty, trimStart_print, h]
  -- Nothing is left, or the last page went away, or one before it.
  by_cases hb : b = []
  · subst hb
    rcases List.eq_nil_or_concat a with rfl | ⟨a, p, rfl⟩
    · rfl
    · have hne : (trimEnd (spread (a ++ [p]))).isEmpty = false := by
        rw [trimEnd_spread]
        simp [block]
      rw [List.concat_eq_append]
      simp only [List.isEmpty_nil, if_true, print_nil, List.append_nil, hne]
      rw [closed, trimEnd_trimEnd]
      exact closed_spread (by simp)
  · have hne : (spread a ++ print b).isEmpty = false := by
      rw [← print_append a hb, print_isEmpty]
      simp [hb]
    have hb' : b.isEmpty = false := by simpa using hb
    simp only [hb', Bool.false_eq_true, if_false, spaced_trimEnd_spread, hne]
    exact closed_spread_append_print (by simp [hb])

theorem updateDay_remove {content : Text} (hblank : isBlankText content = true)
    (ha : ∀ r ∈ a, r.day ≠ p.day) :
    updateDay (print (a ++ p :: b)) p.day content = print (a ++ b) := by
  obtain ⟨before, hdoc, hdays, htrim, -⟩ := ofText_print_append a (p :: b)
  obtain ⟨ending, -, hleaves⟩ := leaves_cons_eq p b
  rw [hleaves] at hdoc
  rw [updateDay_of_mem hdoc (forall_day (P := (· ≠ p.day)) hdays ha) rfl, if_pos hblank,
    List.nil_append, joined_leaves]
  exact withoutSection_print htrim b

theorem updateDay_replace {content : Text} (ha : ∀ r ∈ a, r.day ≠ p.day) (hday : q.day = p.day)
    (hnote : q.note = p.note) (htext : q.text = trimEnd content) :
    updateDay (print (a ++ p :: b)) p.day content = print (a ++ q :: b) := by
  obtain ⟨before, hdoc, hdays, -, hjoined⟩ := ofText_print_append a (p :: b)
  obtain ⟨ending, -, hleaves⟩ := leaves_cons_eq p b
  rw [hleaves] at hdoc
  have hblank : isBlankText content = false := by
    rw [← isBlankText_trimEnd, ← htext]
    exact q.filled
  have hparts : spread a ++ p.header ++ '\n' :: q.text ++ "\n\n".toList ++ print b =
      spread (a ++ [q]) ++ print b := by
    simp [block, header, hday, hnote]
  rw [updateDay_of_mem hdoc (forall_day (P := (· ≠ p.day)) hdays ha) rfl,
    if_neg (by simp [hblank]), List.nil_append, joined_leaves, headerLine_leaf,
    hjoined (by simp), ← htext, hparts, closed_spread_append_print (by simp), List.append_assoc]
  rfl

theorem updateDay_insert {content : Text} (ha : ∀ r ∈ a, r.day < q.day)
    (hb : ∀ r ∈ b, q.day < r.day) (hnote : q.note = []) (htext : q.text = trimEnd content) :
    updateDay (print (a ++ b)) q.day content = print (a ++ q :: b) := by
  obtain ⟨before, hdoc, hdays, htrim, hjoined⟩ := ofText_print_append a b
  have hblank : isBlankText content = false := by
    rw [← isBlankText_trimEnd, ← htext]
    exact q.filled
  have hheader : dayHeader q.day = q.header := by rw [header, hnote, List.append_nil]
  have hbefore : ∀ s ∈ before, s.day < q.day := forall_day (P := (· < q.day)) hdays ha
  have hbehind : ∀ s ∈ leaves b, q.day < s.day :=
    forall_day (P := (q.day < ·)) (map_day_leaves b) hb
  have hnew : ∀ s ∈ before ++ leaves b, s.day ≠ q.day := by
    intro s hs
    rcases List.mem_append.1 hs with hs | hs
    · exact (hbefore s hs).ne
    · exact (hbehind s hs).ne'
  obtain ⟨htake, hdrop⟩ := takeWhile_of_split (p := fun s : Section => decide (s.day ≤ q.day))
    (a := before) (b := leaves b) rfl (fun s hs => decide_eq_true (hbefore s hs).le) (by
      intro s more hs
      exact decide_eq_false (hbehind s (by simp [hs])).not_ge)
  rw [updateDay_of_not_mem (by rw [hdoc]; exact hnew), if_neg (by simp [hblank]), insertDay]
  simp only [hdoc, htake, hdrop, joined_leaves, List.nil_append, htrim, spaced_trimEnd_spread,
    ← htext, print_isEmpty, hheader]
  by_cases hnil : b = []
  · subst hnil
    have hlast : print (a ++ [q]) = spread a ++ (q.header ++ '\n' :: q.text) ++ ['\n'] := by
      rw [print_append a (by simp), print_singleton, ← List.append_assoc]
      rfl
    rw [hlast]
    rfl
  · have hspaced : spaced (q.header ++ '\n' :: q.text) = q.block ++ "\n\n".toList := by
      simp [spaced, block]
    have hparts : spread a ++ (q.block ++ "\n\n".toList) ++ print b =
        spread (a ++ [q]) ++ print b := by simp
    rw [if_neg (by simpa using hnil), hspaced, hparts, closed_spread_append_print (by simp),
      List.append_assoc]
    rfl

theorem updateDay_none {day : Date} {content : Text} (hblank : isBlankText content = true)
    (h : ∀ r ∈ ps, r.day ≠ day) : updateDay (print ps) day content = print ps := by
  have hnew : ∀ s ∈ leaves ps, s.day ≠ day := forall_day (P := (· ≠ day)) (map_day_leaves ps) h
  rw [updateDay_of_not_mem (by rw [ofText_print]; exact hnew), if_pos hblank]

end NotedPage

namespace Page

def noted (p : Page) : NotedPage :=
  { p with note := [], single := List.not_mem_nil, bare := rfl }

@[simp] theorem toPage_noted (p : Page) : p.noted.toPage = p := rfl

/-- A page with the note that its day has already, if it has a page. -/
def under (p : Page) : Option NotedPage → NotedPage
  | some old => { p with note := old.note, single := old.single, bare := old.bare }
  | none => p.noted

@[simp] theorem under_none (p : Page) : p.under none = p.noted := rfl

@[simp] theorem toPage_under (p : Page) (old : Option NotedPage) : (p.under old).toPage = p := by
  cases old <;> rfl

end Page

namespace NotedPage

variable {a b : List NotedPage} {mid : Option NotedPage} {day : Date} {content : Text}

theorem updateDay_print (late : 1000 ≤ day.year) (headless : Headless content)
    (ha : ∀ r ∈ a, r.day < day) (hmid : ∀ r ∈ mid, r.day = day) (hb : ∀ r ∈ b, day < r.day) :
    updateDay (print (a ++ mid.toList ++ b)) day content =
      print (a ++ ((Page.ofContent? day content late headless).map (Page.under · mid)).toList ++
        b) := by
  have hbefore : ∀ r ∈ a, r.day ≠ day := fun r hr => (ha r hr).ne
  cases h : isBlankText content with
  | true =>
      rw [Page.ofContent?_of_blank late headless h]
      cases mid with
      | none =>
          simp only [Option.map_none, Option.toList_none, List.append_nil]
          refine updateDay_none h fun r hr => ?_
          rcases List.mem_append.1 hr with hr | hr
          · exact hbefore r hr
          · exact (hb r hr).ne'
      | some p =>
          obtain rfl : p.day = day := hmid p rfl
          simpa using updateDay_remove h hbefore
  | false =>
      obtain ⟨q, hq, rfl, htext⟩ := Page.exists_ofContent? late headless h
      rw [hq]
      cases mid with
      | none => simpa using updateDay_insert (q := q.noted) ha hb rfl htext
      | some p =>
          have hday : p.day = q.day := hmid p rfl
          have hreplace := updateDay_replace (b := b) (q := q.under (some p)) (hday ▸ hbefore)
            hday.symm rfl htext
          rw [hday] at hreplace
          simpa using hreplace

end NotedPage

/-! ## Canonical documents -/

namespace Page

variable {a b : List Page} {mid : Option Page} {day : Date} {content : Text}

theorem print_map_noted (ps : List Page) : NotedPage.print (ps.map noted) = print ps := by
  have hblock : NotedPage.block ∘ noted = block := by
    funext p
    simp [NotedPage.block, NotedPage.header, noted, block]
  rw [NotedPage.print, print, List.isEmpty_map, List.map_map, hblock]

theorem dayText_print (ps : List Page) (day : Date) :
    dayText (print ps) day = ((ps.find? fun p => p.day == day).map Page.text).getD [] := by
  rw [← print_map_noted, NotedPage.dayText_print, List.find?_map, Option.map_map]
  rfl

theorem updateDay_print (late : 1000 ≤ day.year) (headless : Headless content)
    (ha : ∀ r ∈ a, r.day < day) (hmid : ∀ r ∈ mid, r.day = day) (hb : ∀ r ∈ b, day < r.day) :
    updateDay (print (a ++ mid.toList ++ b)) day content =
      print (a ++ (ofContent? day content late headless).toList ++ b) := by
  have hunder : (ofContent? day content late headless).map (under · (mid.map noted)) =
      (ofContent? day content late headless).map noted := by
    cases mid <;> rfl
  have hmid' : ∀ r ∈ mid.map noted, r.day = day := by simpa [noted] using hmid
  have hnoted := NotedPage.updateDay_print (a := a.map noted) (b := b.map noted) late headless
    (List.forall_mem_map.2 ha) hmid' (List.forall_mem_map.2 hb)
  rw [hunder] at hnoted
  rw [← print_map_noted, ← print_map_noted]
  simpa [Option.toList_map] using hnoted

end Page

end DayJournal

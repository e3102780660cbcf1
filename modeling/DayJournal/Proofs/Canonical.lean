import DayJournal.Proofs.Pages
import Mathlib.Data.List.Induction
import Mathlib.Data.List.Sort

/-!
# Canonical documents

A document is canonical when it is the document of some pages in the order of their days.  Three
facts are all that is needed of them: an update keeps a document canonical, it changes what one day
reads, and what the days read determines the document.  So a document that is written day by day
is a function of what was written last for each day.
-/

namespace DayJournal

open Text Document

/-! ## Lists in the order of their days -/

section ByDay

variable {α : Type} {key : α → Date} {l a b : List α} {mid : Option α} {day : Date}

theorem exists_split_at_key (hl : l.Pairwise fun x y => key x < key y) (day : Date) :
    ∃ a, ∃ mid : Option α, ∃ b, (∀ x ∈ a, key x < day) ∧ (∀ x ∈ mid, key x = day) ∧
      (∀ x ∈ b, day < key x) ∧ l = a ++ mid.toList ++ b := by
  -- The list is sorted, so what has the day is first among what is not before it.
  have hlist := List.takeWhile_append_dropWhile (p := fun x => decide (key x < day)) (l := l)
  have hbefore : ∀ x ∈ l.takeWhile (fun x => decide (key x < day)), key x < day := by
    intro x hx
    simpa using List.mem_takeWhile_imp hx
  have hhead := List.head?_dropWhile_not (fun x => decide (key x < day)) l
  generalize l.takeWhile (fun x => decide (key x < day)) = a at hlist hbefore
  generalize l.dropWhile (fun x => decide (key x < day)) = rest at hlist hhead
  rw [← hlist, List.pairwise_append] at hl
  cases rest with
  | nil => exact ⟨a, none, [], hbefore, by simp, by simp, by simp [← hlist]⟩
  | cons y more =>
      have hmore : ∀ x ∈ more, key y < key x := (List.pairwise_cons.1 hl.2.1).1
      have hy : day ≤ key y := by simpa using hhead
      by_cases hday : key y = day
      · subst hday
        exact ⟨a, some y, more, hbefore, by simp, hmore, by simp [← hlist]⟩
      · have hlt : day < key y := lt_of_le_of_ne hy (Ne.symm hday)
        refine ⟨a, none, y :: more, hbefore, by simp, fun x hx => ?_, by simp [← hlist]⟩
        rcases List.mem_cons.1 hx with rfl | hx
        · exact hlt
        · exact hlt.trans (hmore x hx)

theorem find?_split (ha : ∀ x ∈ a, key x < day) (hmid : ∀ x ∈ mid, key x = day)
    (hb : ∀ x ∈ b, day < key x) (other : Date) :
    (a ++ mid.toList ++ b).find? (fun x => key x == other) =
      if other = day then mid else (a ++ b).find? fun x => key x == other := by
  by_cases hother : other = day
  · subst hother
    have hnone : ∀ c : List α, (∀ x ∈ c, key x ≠ other) →
        c.find? (fun x => key x == other) = none := by
      intro c hc
      rw [List.find?_eq_none]
      exact fun x hx => by simpa using hc x hx
    have hbefore := hnone a fun x hx => (ha x hx).ne
    have hbehind := hnone b fun x hx => (hb x hx).ne'
    rw [if_pos rfl, List.find?_append, List.find?_append, hbefore, hbehind]
    cases mid with
    | none => rfl
    | some x => simp [hmid x rfl]
  · have hnone : mid.toList.find? (fun x => key x == other) = none := by
      rw [List.find?_eq_none]
      intro x hx
      rw [hmid x (by simpa using hx)]
      simpa using Ne.symm hother
    rw [if_neg hother, List.find?_append, List.find?_append, List.find?_append, hnone,
      Option.or_none]

theorem pairwise_split (ha : ∀ x ∈ a, key x < day) (hmid : ∀ x ∈ mid, key x = day)
    (hb : ∀ x ∈ b, day < key x) (hsa : a.Pairwise fun x y => key x < key y)
    (hsb : b.Pairwise fun x y => key x < key y) :
    (a ++ mid.toList ++ b).Pairwise fun x y => key x < key y := by
  have hsmid : mid.toList.Pairwise fun x y => key x < key y := by cases mid <;> simp
  have hmid' : ∀ x ∈ mid.toList, key x = day := fun x hx => hmid x (by simpa using hx)
  rw [List.pairwise_append, List.pairwise_append]
  refine ⟨⟨hsa, hsmid, fun x hx y hy => ?_⟩, hsb, fun x hx y hy => ?_⟩
  · rw [hmid' y hy]
    exact ha x hx
  · rcases List.mem_append.1 hx with hx | hx
    · exact (ha x hx).trans (hb y hy)
    · rw [hmid' x hx]
      exact hb y hy

theorem exists_update_at_key (hl : l.Pairwise fun x y => key x < key y) (day : Date)
    {new : Option α → Option α} (hnew : ∀ old, ∀ x ∈ new old, key x = day) :
    ∃ a, ∃ mid : Option α, ∃ b, (∀ x ∈ a, key x < day) ∧ (∀ x ∈ mid, key x = day) ∧
      (∀ x ∈ b, day < key x) ∧ l = a ++ mid.toList ++ b ∧
      (a ++ (new mid).toList ++ b).Pairwise (fun x y => key x < key y) ∧
      ∀ other, (a ++ (new mid).toList ++ b).find? (fun x => key x == other) =
        if other = day then new (l.find? fun x => key x == day)
        else l.find? fun x => key x == other := by
  obtain ⟨a, mid, b, ha, hmid, hb, rfl⟩ := exists_split_at_key hl day
  rw [List.pairwise_append, List.pairwise_append] at hl
  refine ⟨a, mid, b, ha, hmid, hb, rfl, pairwise_split ha (hnew mid) hb hl.1.1 hl.2.1,
    fun other => ?_⟩
  rw [find?_split ha (hnew mid) hb, find?_split ha hmid hb, find?_split ha hmid hb, if_pos rfl]
  by_cases hother : other = day
  · rw [if_pos hother, if_pos hother]
  · rw [if_neg hother, if_neg hother, if_neg hother]

theorem find?_key_of_mem (hl : l.Pairwise fun x y => key x < key y) {x : α} (h : x ∈ l) :
    l.find? (fun y => key y == key x) = some x := by
  obtain ⟨a, mid, b, ha, hmid, hb, hlist⟩ := exists_split_at_key hl (key x)
  have hx : mid = some x := by
    rw [hlist, List.mem_append, List.mem_append] at h
    rcases h with (h | h) | h
    · exact absurd (ha x h) (lt_irrefl _)
    · simpa using h
    · exact absurd (hb x h) (lt_irrefl _)
  rw [hlist, find?_split ha hmid hb, if_pos rfl, hx]

theorem find?_key_eq_some_iff (hl : l.Pairwise fun x y => key x < key y) {x : α} (day : Date) :
    l.find? (fun y => key y == day) = some x ↔ x ∈ l ∧ key x = day := by
  constructor
  · exact fun h => ⟨List.mem_of_find?_eq_some h, by simpa using List.find?_some h⟩
  · rintro ⟨hx, rfl⟩
    exact find?_key_of_mem hl hx

theorem eq_of_find?_key {l l' : List α} (hl : l.Pairwise fun x y => key x < key y)
    (hl' : l'.Pairwise fun x y => key x < key y)
    (h : ∀ day, l.find? (fun x => key x == day) = l'.find? fun x => key x == day) : l = l' := by
  have : Std.Irrefl fun x y : α => key x < key y := ⟨fun x => lt_irrefl (key x)⟩
  have : Std.Antisymm fun x y : α => key x < key y :=
    ⟨fun x y hxy hyx => absurd (hxy.trans hyx) (lt_irrefl (key x))⟩
  refine hl.eq_of_mem_iff hl' fun x => ?_
  have hx := find?_key_eq_some_iff (x := x) hl (key x)
  rw [h, find?_key_eq_some_iff hl'] at hx
  simpa using hx.symm

end ByDay

/-- Pages in the order of their days, no day twice. -/
structure Pages where
  list : List Page
  sorted : list.Pairwise fun p q => p.day < q.day

namespace Pages

variable {ps qs : Pages} {day : Date}

def print (ps : Pages) : Text := Page.print ps.list

def text? (ps : Pages) (day : Date) : Option Text :=
  (ps.list.find? fun p => p.day == day).map Page.text

theorem text?_of_mem {p : Page} (h : p ∈ ps.list) : ps.text? p.day = some p.text := by
  rw [text?, find?_key_of_mem ps.sorted h]
  rfl

theorem text?_eq_some_iff {t : Text} :
    ps.text? day = some t ↔ ∃ p ∈ ps.list, p.day = day ∧ p.text = t := by
  constructor
  · intro h
    obtain ⟨p, hp, ht⟩ := Option.map_eq_some_iff.1 h
    exact ⟨p, List.mem_of_find?_eq_some hp, by simpa using List.find?_some hp, ht⟩
  · rintro ⟨p, hp, rfl, rfl⟩
    exact text?_of_mem hp

theorem ext_text? (h : ∀ day, ps.text? day = qs.text? day) : ps = qs := by
  have hlist : ps.list = qs.list := by
    refine eq_of_find?_key ps.sorted qs.sorted fun day => ?_
    have hday := h day
    unfold text? at hday
    cases hp : ps.list.find? (fun p => p.day == day) with
    | none => simpa [hp, eq_comm] using hday
    | some p =>
        obtain ⟨q, hq, htext⟩ := Option.map_eq_some_iff.1 (hp ▸ hday).symm
        have hpq : p.day = q.day := ((find?_key_eq_some_iff ps.sorted day).1 hp).2.trans
          ((find?_key_eq_some_iff qs.sorted day).1 hq).2.symm
        rw [hq, Page.ext_text hpq htext.symm]
  obtain ⟨_, _⟩ := ps
  obtain ⟨_, _⟩ := qs
  simpa using hlist

theorem dayText_print (ps : Pages) (day : Date) :
    dayText ps.print day = (ps.text? day).getD [] := Page.dayText_print ps.list day

/-! ## Updates -/

theorem exists_updateDay_print (ps : Pages) {content : Text} (late : 1000 ≤ day.year)
    (headless : Headless content) :
    ∃ qs : Pages, updateDay ps.print day content = qs.print ∧
      ∀ other, qs.text? other =
        if other = day then if isBlankText content then none else some (trimEnd content)
        else ps.text? other := by
  have hday : ∀ _old : Option Page, ∀ p ∈ Page.ofContent? day content late headless, p.day = day :=
    fun _ => Page.day_of_mem_ofContent?
  obtain ⟨a, mid, b, ha, hmid, hb, hlist, hsorted, hfind⟩ := exists_update_at_key ps.sorted day hday
  refine ⟨⟨_, hsorted⟩, ?_, fun other => ?_⟩
  · rw [print, hlist, Page.updateDay_print late headless ha hmid hb]
    rfl
  · rw [text?, text?, hfind]
    by_cases hother : other = day
    · rw [if_pos hother, if_pos hother, Page.map_text_ofContent?]
    · rw [if_neg hother, if_neg hother]

theorem text?_ne_some_nil (ps : Pages) (day : Date) : ps.text? day ≠ some [] := by
  intro h
  obtain ⟨p, -, -, htext⟩ := text?_eq_some_iff.1 h
  have hfilled := p.filled
  rw [htext] at hfilled
  simp at hfilled

theorem ext_dayText (h : ∀ day, dayText ps.print day = dayText qs.print day) : ps = qs := by
  apply ext_text?
  intro day
  have hday := h day
  rw [dayText_print, dayText_print] at hday
  have hps := ps.text?_ne_some_nil day
  have hqs := qs.text?_ne_some_nil day
  cases hp : ps.text? day <;> cases hq : qs.text? day <;> simp_all

end Pages

namespace Document

def Canonical (document : Text) : Prop := ∃ ps : Pages, document = ps.print

namespace Canonical

variable {document other content : Text} {day : Date}

theorem updateDay (h : Canonical document) (late : 1000 ≤ day.year) (headless : Headless content) :
    Canonical (updateDay document day content) := by
  obtain ⟨ps, rfl⟩ := h
  obtain ⟨qs, hqs, -⟩ := ps.exists_updateDay_print late headless
  exact ⟨qs, hqs⟩

theorem dayText_updateDay (h : Canonical document) (late : 1000 ≤ day.year)
    (headless : Headless content) :
    dayText (Document.updateDay document day content) day = trimEnd content := by
  obtain ⟨ps, rfl⟩ := h
  obtain ⟨qs, hqs, htext⟩ := ps.exists_updateDay_print late headless
  rw [hqs, Pages.dayText_print, htext, if_pos rfl]
  split
  · next hblank => exact (trimEnd_eq_nil_iff.2 hblank).symm
  · rfl

theorem late_of_dayText (h : Canonical document) (hne : dayText document day ≠ []) :
    1000 ≤ day.year := by
  obtain ⟨ps, rfl⟩ := h
  rw [Pages.dayText_print] at hne
  cases htext : ps.text? day with
  | none => simp [htext] at hne
  | some s =>
      obtain ⟨p, -, rfl, -⟩ := Pages.text?_eq_some_iff.1 htext
      exact p.late

theorem ext (h : Canonical document) (h' : Canonical other)
    (hdays : ∀ day, dayText document day = dayText other day) : document = other := by
  obtain ⟨ps, rfl⟩ := h
  obtain ⟨qs, rfl⟩ := h'
  rw [Pages.ext_dayText hdays]

end Canonical

end Document

/-! ## Writing a document day by day -/

structure DayWrite where
  day : Date
  content : Text
  late : 1000 ≤ day.year
  headless : Headless content

/-- The text that was written last for a day, without blanks at its end, if it is not blank. -/
def lastText? (ws : List DayWrite) (day : Date) : Option Text :=
  (ws.reverse.find? fun w => w.day == day).bind fun w =>
    if isBlankText w.content then none else some (trimEnd w.content)

/-- The document that is left by writings, the first of them into an empty document. -/
def written (ws : List DayWrite) : Text :=
  ws.foldl (fun document w => updateDay document w.day w.content) []

theorem lastText?_append (ws : List DayWrite) (w : DayWrite) (day : Date) :
    lastText? (ws ++ [w]) day =
      if day = w.day then if isBlankText w.content then none else some (trimEnd w.content)
      else lastText? ws day := by
  simp only [lastText?, List.reverse_append, List.reverse_singleton, List.singleton_append]
  by_cases hday : day = w.day
  · rw [if_pos hday, List.find?_cons_of_pos (by simpa using hday.symm)]
    rfl
  · rw [if_neg hday, List.find?_cons_of_neg (by simpa using Ne.symm hday)]

theorem exists_pages_written (ws : List DayWrite) :
    ∃ ps : Pages, written ws = ps.print ∧ ∀ day, ps.text? day = lastText? ws day := by
  induction ws using List.reverseRecOn with
  | nil => exact ⟨⟨[], List.Pairwise.nil⟩, rfl, fun day => rfl⟩
  | append_singleton ws w ih =>
      obtain ⟨ps, hps, htext⟩ := ih
      obtain ⟨qs, hqs, hnew⟩ := ps.exists_updateDay_print w.late w.headless
      refine ⟨qs, ?_, fun day => ?_⟩
      · rw [written, List.foldl_append, List.foldl_cons, List.foldl_nil, ← hqs, ← hps]
        rfl
      · rw [hnew, htext, lastText?_append]

/-- A document that is written day by day is the canonical document of what was written last for
each day, so nothing else of the writings shows in it. -/
theorem written_canonical (ws : List DayWrite) :
    (∃ ps : Pages, (∀ day, ps.text? day = lastText? ws day) ∧ written ws = ps.print) ∧
      ∀ vs : List DayWrite, (∀ day, lastText? ws day = lastText? vs day) →
        written ws = written vs := by
  obtain ⟨ps, hps, htext⟩ := exists_pages_written ws
  refine ⟨⟨ps, htext, hps⟩, fun vs h => ?_⟩
  obtain ⟨qs, hqs, htext'⟩ := exists_pages_written vs
  have heq : ps = qs := Pages.ext_text? fun day => by rw [htext, h, ← htext']
  rw [hps, hqs, heq]

/-- A day that is written first and again last does not show in between. -/
theorem written_rewritten :
    written [⟨⟨2026, 1, 5, by decide⟩, "a".toList, by decide, by decide⟩,
        ⟨⟨2026, 1, 6, by decide⟩, "b".toList, by decide, by decide⟩] =
      written [⟨⟨2026, 1, 6, by decide⟩, "x".toList, by decide, by decide⟩,
        ⟨⟨2026, 1, 7, by decide⟩, "y".toList, by decide, by decide⟩,
        ⟨⟨2026, 1, 5, by decide⟩, "a\n".toList, by decide, by decide⟩,
        ⟨⟨2026, 1, 7, by decide⟩, " ".toList, by decide, by decide⟩,
        ⟨⟨2026, 1, 6, by decide⟩, "b".toList, by decide, by decide⟩] := by
  apply (written_canonical _).2
  intro day
  by_cases h6 : day = ⟨2026, 1, 6, by decide⟩
  · subst h6
    decide
  · by_cases h5 : day = ⟨2026, 1, 5, by decide⟩
    · subst h5
      decide
    · by_cases h7 : day = ⟨2026, 1, 7, by decide⟩
      · subst h7
        decide
      · simp [lastText?, Ne.symm h5, Ne.symm h6, Ne.symm h7]

end DayJournal

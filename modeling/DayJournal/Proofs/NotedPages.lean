import DayJournal.Proofs.Reversal

/-!
# Pages with notes, and deletions taken back

A document of noted pages keeps the note of a day as long as the day has a page.  A deletion that
takes the last text of a day takes its header line with it, and what is remembered of the day is its
text alone; so taking the deletion back gives the day a header line without a note.  Main result:
that is all that is lost (`Action.restored_headers`).
-/

namespace DayJournal

open Text Document

/-- Noted pages in the order of their days, no day twice. -/
structure NotedPages where
  list : List NotedPage
  sorted : list.Pairwise fun p q => p.day < q.day

namespace Page

theorem ofContent?_text (p : Page) : ofContent? p.day p.text p.late p.headless = some p := by
  obtain ⟨q, hq, hday, htext⟩ := exists_ofContent? p.late p.headless p.filled
  rw [hq, ext_text hday (htext.trans p.trimmed)]

end Page

namespace NotedPage

variable {p q : NotedPage}

theorem under_of_note (h : q.note = p.note) : p.toPage.under (some q) = p :=
  ext_note (Page.toPage_under _ _) h

theorem under_under (p : Page) (old : Option NotedPage) :
    p.under (some (p.under old)) = p.under old :=
  ext_note (by simp) rfl

def shown (p : NotedPage) : Section := ⟨p.day, p.header, p.text⟩

theorem shown_inj (hpage : p.toPage = q.toPage) : p.shown = q.shown ↔ p.note = q.note := by
  simp [shown, header, hpage]

theorem outline_print (ps : List NotedPage) : outline (print ps) = ⟨[], ps.map shown⟩ := by
  have hleaf : ∀ (ending : Text) (p : NotedPage), isBlankText ending = true →
      (p.leaf ending).trimmed = p.shown := by
    intro ending p hending
    rw [Section.trimmed, leaf, trimEnd_append_of_blank (by simp), trimEnd_append_of_blank hending,
      p.trimEnd_header, p.trimmed]
    rfl
  have hleaves : (leaves ps).map Section.trimmed = ps.map shown := by
    induction ps with
    | nil => rfl
    | cons p ps ih =>
        obtain ⟨ending, hending, hcons⟩ := leaves_cons_eq p ps
        rw [hcons, List.map_cons, List.map_cons, ih, hleaf ending p hending]
  rw [outline, ofText_print, Document.trimmed, hleaves]
  rfl

end NotedPage

namespace NotedPages

variable {ps qs : NotedPages} {day : Date}

def print (ps : NotedPages) : Text := NotedPage.print ps.list

def page? (ps : NotedPages) (day : Date) : Option NotedPage := ps.list.find? fun p => p.day == day

theorem page?_eq_some_iff {p : NotedPage} : ps.page? day = some p ↔ p ∈ ps.list ∧ p.day = day :=
  find?_key_eq_some_iff ps.sorted day

theorem ext_page? (h : ∀ day, ps.page? day = qs.page? day) : ps = qs := by
  obtain ⟨ps, hps⟩ := ps
  obtain ⟨qs, hqs⟩ := qs
  have hlist : ps = qs := eq_of_find?_key hps hqs h
  subst hlist
  rfl

theorem dayText_print (ps : NotedPages) (day : Date) :
    dayText ps.print day = ((ps.page? day).map (·.text)).getD [] :=
  NotedPage.dayText_print ps.list day

theorem dayText_print_eq_nil_iff : dayText ps.print day = [] ↔ ps.page? day = none := by
  rw [dayText_print]
  cases ps.page? day with
  | none => simp
  | some p =>
      have hfilled := p.filled
      cases htext : p.text with
      | nil => simp [htext] at hfilled
      | cons c rest => simp [htext]

theorem exists_updateDay_print (ps : NotedPages) {content : Text} (late : 1000 ≤ day.year)
    (headless : Headless content) :
    ∃ qs : NotedPages, updateDay ps.print day content = qs.print ∧ ∀ other, qs.page? other =
      if other = day then
        (Page.ofContent? day content late headless).map (Page.under · (ps.page? day))
      else ps.page? other := by
  have hday : ∀ old : Option NotedPage, ∀ p ∈
      (Page.ofContent? day content late headless).map (Page.under · old), p.day = day := by
    intro old p hp
    obtain ⟨q, hq, rfl⟩ := Option.map_eq_some_iff.1 (Option.mem_def.1 hp)
    rw [Page.toPage_under]
    exact Page.day_of_mem_ofContent? q hq
  obtain ⟨a, mid, b, ha, hmid, hb, hlist, hsorted, hfind⟩ := exists_update_at_key ps.sorted day hday
  refine ⟨⟨_, hsorted⟩, ?_, hfind⟩
  rw [print, hlist, NotedPage.updateDay_print late headless ha hmid hb]
  rfl

/-! ## What deletions leave -/

/-- After some deletions the days that are not remembered have their pages still, and a day that is
remembered has the note that it had, if it has a page. -/
structure Left (ps : NotedPages) (s : Deletion) (qs : NotedPages) : Prop where
  text : s.text = qs.print
  kept : ∀ day, (∀ d ∈ s.days, d.1 ≠ day) → qs.page? day = ps.page? day
  remembered : ∀ d ∈ s.days, ∃ p, ps.page? d.1 = some p ∧ d.2 = p.text ∧
    ∀ q ∈ qs.page? d.1, q.note = p.note

theorem Left.step {s : Deletion} (h : Left ps s qs) (place : Address) :
    ∃ rs, Left ps (s.step place) rs := by
  cases he : entryIn s.text place with
  | none =>
      rw [Deletion.step_of_none he]
      exact ⟨qs, h⟩
  | some e =>
      obtain ⟨p, hp⟩ : ∃ p, qs.page? place.day = some p := by
        refine Option.ne_none_iff_exists'.1 fun hnone => dayText_ne_nil_of_entryIn he ?_
        rw [h.text, dayText_print_eq_nil_iff.2 hnone]
      have late : 1000 ≤ place.day.year := (page?_eq_some_iff.1 hp).2 ▸ p.late
      have headless : Headless (Line.writeAll
          (Line.remove (dayLines s.text place.day) place.line)) :=
        Line.headless_writeAll fun l hl => headless_of_mem_dayLines (Line.mem_of_mem_remove hl)
      obtain ⟨rs, htext, hpages⟩ := qs.exists_updateDay_print late headless
      rw [← h.text] at htext
      have hother : ∀ day, day ≠ place.day → rs.page? day = qs.page? day := fun day hne => by
        rw [hpages, if_neg hne]
      have hnote : ∀ r ∈ rs.page? place.day, r.note = p.note := by
        intro r hr
        rw [hpages, if_pos rfl, hp] at hr
        obtain ⟨new, -, rfl⟩ := Option.map_eq_some_iff.1 (Option.mem_def.1 hr)
        rfl
      obtain ⟨⟨d, hd, hday⟩, hsub, hdays⟩ := Deletion.days_step he
      refine ⟨rs, ?_, fun day hnot => ?_, fun d hd => ?_⟩
      · rw [Deletion.text_step he]
        exact htext
      · have hne : day ≠ place.day := fun heq => hnot d hd (hday.trans heq.symm)
        exact (hother day hne).trans (h.kept day fun d hd => hnot d (hsub hd))
      · rcases hdays d hd with hd | ⟨rfl, hnew⟩
        · obtain ⟨old, hold, htext', hnotes⟩ := h.remembered d hd
          refine ⟨old, hold, htext', ?_⟩
          by_cases heq : d.1 = place.day
          · rw [heq] at hnotes ⊢
            exact fun r hr => (hnote r hr).trans (hnotes p hp)
          · rwa [hother d.1 heq]
        · refine ⟨p, (h.kept place.day hnew).symm.trans hp, ?_, hnote⟩
          rw [h.text, dayText_print, hp]
          rfl

theorem Left.run {s : Deletion} (h : Left ps s qs) (places : List Address) :
    ∃ rs, Left ps (s.run places) rs := by
  induction places generalizing s qs with
  | nil => exact ⟨qs, h⟩
  | cons place more ih =>
      obtain ⟨rs, hrs⟩ := h.step place
      exact ih hrs

theorem exists_left_run (ps : NotedPages) (places : List Address) :
    ∃ qs, Left ps ((Deletion.mk ps.print [] []).run places) qs := by
  have hstart : Left ps ⟨ps.print, [], []⟩ ps := ⟨rfl, fun _ _ => rfl, by simp⟩
  exact hstart.run places

/-! ## What comes back -/

theorem exists_putDays_print {days : List (Date × Text)}
    (h : ∀ d ∈ days, ∃ p, ps.page? d.1 = some p ∧ d.2 = p.text) (qs : NotedPages) :
    ∃ rs : NotedPages, putDays days qs.print = rs.print ∧ ∀ day, rs.page? day =
      if ∃ d ∈ days, d.1 = day then (ps.page? day).map fun p => p.toPage.under (qs.page? day)
      else qs.page? day := by
  induction days generalizing qs with
  | nil => exact ⟨qs, rfl, fun day => by simp⟩
  | cons d more ih =>
      obtain ⟨⟨p, hp, htext⟩, hmore⟩ := List.forall_mem_cons.1 h
      obtain ⟨day, content⟩ := d
      obtain ⟨-, rfl⟩ := page?_eq_some_iff.1 hp
      obtain rfl : content = p.text := htext
      obtain ⟨us, hus, hpages⟩ := qs.exists_updateDay_print p.late p.headless
      rw [Page.ofContent?_text, Option.map_some] at hpages
      obtain ⟨rs, hrs, hback⟩ := ih hmore us
      refine ⟨rs, ?_, fun day => ?_⟩
      · rw [putDays, List.foldl_cons, hus]
        exact hrs
      · rw [hback, hpages]
        by_cases hday : day = p.day
        · subst hday
          simp [hp, NotedPage.under_under]
        · have hother : (∃ d ∈ (p.day, p.text) :: more, d.1 = day) ↔ ∃ d ∈ more, d.1 = day := by
            rw [List.exists_mem_cons_iff]
            simp [Ne.symm hday]
          simp only [hother, if_neg hday]

end NotedPages

namespace NotedPage

/-- A page as it comes back into a document in which its day may have lost its header line. -/
def reheaded (t : Text) (p : NotedPage) : NotedPage :=
  if dayText t p.day = [] then p.toPage.noted else p

@[simp] theorem toPage_reheaded (t : Text) (p : NotedPage) : (p.reheaded t).toPage = p.toPage := by
  unfold reheaded
  split <;> rfl

theorem note_reheaded_eq_iff {t : Text} {p : NotedPage} :
    (p.reheaded t).note = p.note ↔ (dayText t p.day = [] → p.note = []) := by
  unfold reheaded
  split
  · next hnil => simp [Page.noted, hnil, eq_comm]
  · next hne => simp [hne]

end NotedPage

namespace NotedPages

variable {ps qs : NotedPages}

def reheaded (ps : NotedPages) (t : Text) : NotedPages where
  list := ps.list.map (NotedPage.reheaded t)
  sorted := by
    rw [List.pairwise_map]
    simpa using ps.sorted

theorem page?_reheaded (ps : NotedPages) (t : Text) (day : Date) :
    (ps.reheaded t).page? day = (ps.page? day).map (NotedPage.reheaded t) := by
  have hday : (fun p : NotedPage => p.day == day) ∘ NotedPage.reheaded t =
      fun p => p.day == day := by
    funext p
    simp
  rw [page?, reheaded, List.find?_map, hday]
  rfl

theorem print_reheaded_eq_iff {t : Text} :
    (ps.reheaded t).print = ps.print ↔ ∀ p ∈ ps.list, dayText t p.day = [] → p.note = [] := by
  constructor
  · intro h p hp
    have houtline : outline (ps.reheaded t).print = outline ps.print := by rw [h]
    rw [print, print, NotedPage.outline_print, NotedPage.outline_print] at houtline
    simp only [reheaded, List.map_map, Document.mk.injEq, true_and] at houtline
    have hshown : (p.reheaded t).shown = p.shown := List.map_inj_left.1 houtline p hp
    exact NotedPage.note_reheaded_eq_iff.1
      ((NotedPage.shown_inj (p.toPage_reheaded t)).1 hshown)
  · intro h
    have hlist : ps.list.map (NotedPage.reheaded t) = ps.list.map id :=
      List.map_congr_left fun p hp => NotedPage.ext_note (p.toPage_reheaded t)
        (NotedPage.note_reheaded_eq_iff.2 (h p hp))
    exact congrArg NotedPage.print (hlist.trans (List.map_id _))

theorem Left.putDays {s : Deletion} (h : Left ps s qs) {days : List (Date × Text)}
    (hdays : ∀ d, d ∈ days ↔ d ∈ s.days) : putDays days s.text = (ps.reheaded s.text).print := by
  have hmem : ∀ d ∈ days, ∃ p, ps.page? d.1 = some p ∧ d.2 = p.text := by
    intro d hd
    obtain ⟨p, hp, htext, -⟩ := h.remembered d ((hdays d).1 hd)
    exact ⟨p, hp, htext⟩
  obtain ⟨rs, hrs, hpages⟩ := exists_putDays_print hmem qs
  have hnil : ∀ day, dayText s.text day = [] ↔ qs.page? day = none := fun day => by
    rw [h.text, dayText_print_eq_nil_iff]
  rw [h.text, hrs, ← h.text]
  refine congrArg print (ext_page? fun day => ?_)
  rw [hpages, page?_reheaded]
  split
  · next hday =>
    obtain ⟨d, hd, rfl⟩ := hday
    obtain ⟨p, hp, -, hnote⟩ := h.remembered d ((hdays d).1 hd)
    obtain ⟨-, hday⟩ := page?_eq_some_iff.1 hp
    rw [hp, Option.map_some, Option.map_some, NotedPage.reheaded, hday]
    cases hq : qs.page? d.1 with
    | none => rw [if_pos ((hnil d.1).2 hq), Page.under_none]
    | some q =>
        rw [if_neg (by rw [hnil, hq]; simp), NotedPage.under_of_note (hnote q hq)]
  · next hday =>
    have hkept := h.kept day fun d hd heq => hday ⟨d, (hdays d).2 hd, heq⟩
    rw [← hkept]
    cases hq : qs.page? day with
    | none => rfl
    | some q =>
        obtain ⟨-, rfl⟩ := page?_eq_some_iff.1 hq
        rw [Option.map_some, NotedPage.reheaded, if_neg (by rw [hnil, hq]; simp)]

end NotedPages

namespace Action

variable {w : Workspace}

theorem exists_run_delete_restored (hwrites : w.journal.writesLeft = none)
    (places : List Address) :
    let s := (Deletion.mk w.journal.text [] []).run (Address.lastFirst places)
    ∃ back w₁ again w₂, (delete places).perform.run w = (.ok back, w₁) ∧
      back.perform.run w₁ = (.ok again, w₂) ∧ w₁.journal.text = s.text ∧
      w₂.journal.text = putDays (sortBy (fun a b => a.1 < b.1) s.days) s.text := by
  intro s
  obtain ⟨w₁, hrun₁, hin, htext₁, hwrites₁⟩ :=
    (leads_delete (k := ⟨w.settings, w.today⟩) places w.journal.text).exists_run
      (goes_delete places) ⟨rfl, rfl⟩ rfl hwrites
  obtain ⟨w₂, hrun₂, -, htext₂, -⟩ := (leads_putDays s.deleted s.days s.text).exists_run
    (goes_restoreDeleted s.deleted s.days) hin htext₁ hwrites₁
  exact ⟨_, w₁, _, w₂, hrun₁, hrun₂, htext₁, htext₂⟩

/-- A deletion in a document of noted pages succeeds, and so does taking it back.  What comes back
is the document with a plain header line for each day that the deletion left without text; so it is
the document that was there just when no such day had a note. -/
theorem restored_headers {ps : NotedPages} (htext : w.journal.text = ps.print)
    (hwrites : w.journal.writesLeft = none) (places : List Address) :
    ∃ back w₁ again w₂, (delete places).perform.run w = (.ok back, w₁) ∧
      back.perform.run w₁ = (.ok again, w₂) ∧
      w₂.journal.text = (ps.reheaded w₁.journal.text).print ∧
      (w₂.journal.text = w.journal.text ↔
        ∀ p ∈ ps.list, dayText w₁.journal.text p.day = [] → p.note = []) := by
  obtain ⟨back, w₁, again, w₂, hrun₁, hrun₂, htext₁, htext₂⟩ :=
    exists_run_delete_restored hwrites places
  obtain ⟨qs, hleft⟩ := ps.exists_left_run (Address.lastFirst places)
  rw [← htext] at hleft
  rw [hleft.putDays fun d => mem_sortBy, ← htext₁] at htext₂
  refine ⟨back, w₁, again, w₂, hrun₁, hrun₂, htext₂, ?_⟩
  rw [htext₂, htext]
  exact NotedPages.print_reheaded_eq_iff

/-- The second entry of the day keeps the header line in its place. -/
theorem restored_headers_of_two_entries :
    let w := Workspace.start ⟨"# 2026/01/05 Monday\n- [ ] a\n- [ ] b\n".toList, none⟩ {}
      ⟨2026, 1, 5, by decide⟩
    ∃ back w₁ again w₂,
      (delete [⟨⟨2026, 1, 5, by decide⟩, 0⟩]).perform.run w = (.ok back, w₁) ∧
      back.perform.run w₁ = (.ok again, w₂) ∧
      w₁.journal.text = "# 2026/01/05 Monday\n- [ ] b\n".toList ∧
      w₂.journal.text = w.journal.text := by
  intro w
  have hleft : ((delete [⟨⟨2026, 1, 5, by decide⟩, 0⟩]).perform.run w).2.journal.text =
      "# 2026/01/05 Monday\n- [ ] b\n".toList := by decide +kernel
  let ps : NotedPages :=
    ⟨[⟨⟨⟨2026, 1, 5, by decide⟩, "- [ ] a\n- [ ] b".toList, by decide, by decide, by decide,
      by decide⟩, " Monday".toList, by decide, by decide⟩], by simp⟩
  obtain ⟨back, w₁, again, w₂, hrun₁, hrun₂, -, hback⟩ :=
    restored_headers (show w.journal.text = ps.print by decide +kernel) rfl
      [⟨⟨2026, 1, 5, by decide⟩, 0⟩]
  rw [hrun₁] at hleft
  refine ⟨back, w₁, again, w₂, hrun₁, hrun₂, hleft, hback.2 fun p hp hnil => ?_⟩
  obtain rfl := List.mem_singleton.1 hp
  rw [hleft] at hnil
  exact absurd hnil (by decide +kernel)

/-- The note is lost with the only entry of its day. -/
theorem note_lost :
    let w := Workspace.start ⟨"# 2026/01/05 Monday\n- [ ] a\n".toList, none⟩ {}
      ⟨2026, 1, 5, by decide⟩
    let p : NotedPage := ⟨⟨⟨2026, 1, 5, by decide⟩, "- [ ] a".toList, by decide, by decide,
      by decide, by decide⟩, " Monday".toList, by decide, by decide⟩
    w.journal.text = NotedPage.print [p] ∧
      ∃ back w₁ again w₂, (delete [⟨⟨2026, 1, 5, by decide⟩, 0⟩]).perform.run w = (.ok back, w₁) ∧
        back.perform.run w₁ = (.ok again, w₂) ∧
        w₂.journal.text = "# 2026/01/05\n- [ ] a\n".toList ∧
        w₂.journal.text ≠ w.journal.text := by
  intro w p
  obtain ⟨back, w₁, again, w₂, hrun₁, hrun₂, -, htext⟩ :=
    exists_run_delete_restored (w := w) rfl [⟨⟨2026, 1, 5, by decide⟩, 0⟩]
  refine ⟨by decide +kernel, back, w₁, again, w₂, hrun₁, hrun₂, ?_, ?_⟩ <;> rw [htext]
  · decide +kernel
  · decide +kernel

end Action

end DayJournal

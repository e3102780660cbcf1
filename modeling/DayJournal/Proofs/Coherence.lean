import DayJournal.Action.Perform
import DayJournal.Proofs.DayLines
import DayJournal.Proofs.Running

/-!
# What is shown is up to date

A workspace is coherent when the lines, the projected rows and the rows of an open filter are the
ones of its journal.  A change of one day reads the lines of the displayed day again only if it is
that day; this is enough since the change leaves the lines of all other days alone.
-/

namespace DayJournal

open Text Document

namespace Workspace

/-- What is shown is what the journal has. -/
structure Coherent (w : Workspace) : Prop where
  lines : w.lines = w.journal.lines w.day
  projected : w.projected = projectedRows w.journal.text w.day
  rows : ∀ query filter rows selected, w.view = .filtered query filter rows selected →
    rows = filter.rows w.journal.text w.today

/-- The workspace is coherent, and no favourite brings a newline into a content. -/
structure Sound (w : Workspace) : Prop where
  coherent : w.Coherent
  favorites : ∀ f ∈ w.settings.favorites, '\n' ∉ f.2

variable {w : Workspace} {day : Date} {α : Type}

/-! ## Bringing a workspace up to date -/

theorem coherent_refreshFilter (hlines : w.lines = w.journal.lines w.day)
    (hprojected : w.projected = projectedRows w.journal.text w.day) :
    w.refreshFilter.Coherent := by
  unfold refreshFilter
  split
  · next selected hview =>
    exact ⟨hlines, hprojected, fun query filter rows selected' h => by rw [hview] at h; cases h⟩
  · next query filter rows selected hview =>
    refine ⟨hlines, hprojected, fun query' filter' rows' selected' h => ?_⟩
    cases h
    rfl

theorem coherent_refreshProjected (hlines : w.lines = w.journal.lines w.day) :
    w.refreshProjected.refreshFilter.Coherent := coherent_refreshFilter hlines rfl

theorem coherent_refreshAll (w : Workspace) : w.refreshAll.Coherent :=
  coherent_refreshProjected rfl

theorem coherent_refreshAfter {j : Journal} (hw : w.Coherent)
    (hj : w.journal.SameElsewhere day j) : ({ w with journal := j }.refreshAfter day).Coherent := by
  unfold refreshAfter
  apply coherent_refreshProjected
  split
  · rfl
  -- Another day was changed: the lines on display were not read again, and need not be.
  · next hne =>
    show w.lines = j.lines w.day
    rw [hj w.day (Ne.symm hne), hw.lines]

theorem coherent_showDay (day : Date) (w : Workspace) : (w.showDay day).Coherent :=
  ⟨rfl, rfl, fun _ _ _ _ h => by cases h⟩

theorem coherent_start (journal : Journal) (settings : Settings) (today : Date) :
    (start journal settings today).Coherent := coherent_showDay today _

theorem settings_refreshFilter (w : Workspace) : w.refreshFilter.settings = w.settings := by
  unfold refreshFilter
  split <;> rfl

theorem settings_refreshAfter (day : Date) (w : Workspace) :
    (w.refreshAfter day).settings = w.settings := by
  unfold refreshAfter
  rw [settings_refreshFilter]
  split <;> rfl

theorem sound_openFilter {query : Text} {w' : Workspace} (hw : w.Sound)
    (h : w.openFilter query = .ok w') : w'.Sound := by
  obtain ⟨filter, -, rfl⟩ := map_eq_ok.1 h
  exact ⟨coherent_refreshFilter hw.coherent.lines hw.coherent.projected, hw.favorites⟩

/-! ## Changes keep a workspace sound -/

theorem sound_changeDay {change : Journal → Except Fault (α × Journal)} {w' : Workspace} {a : α}
    (hw : w.Sound)
    (hchange : ∀ a j, change w.journal = .ok (a, j) → w.journal.SameElsewhere day j)
    (h : w.changeDay day change = .ok (a, w')) :
    w'.Sound ∧ ∃ j, change w.journal = .ok (a, j) := by
  obtain ⟨⟨b, j⟩, hj, heq⟩ := map_eq_ok.1 h
  cases heq
  exact ⟨⟨coherent_refreshAfter hw.coherent (hchange a j hj),
    by rw [settings_refreshAfter]; exact hw.favorites⟩, j, hj⟩

end Workspace

/-! ## Changes -/

/-- A change keeps workspaces sound, and a result that it gives satisfies a condition. -/
def Change.Keeps {α : Type} (c : Change α) (Q : α → Prop) : Prop :=
  ∀ w, w.Sound → Safe Workspace.Sound c w fun a _ => Q a

namespace Change

open Workspace

variable {α β : Type} {Q : α → Prop} {R : β → Prop}

theorem keeps_pure {a : α} (h : Q a) : (pure a : Change α).Keeps Q := fun _ hw => Safe.pure hw h

theorem keeps_bind {c : Change α} {f : α → Change β} (hc : c.Keeps Q)
    (hf : ∀ a, Q a → (f a).Keeps R) : (c >>= f).Keeps R :=
  fun w hw => Safe.bind (hc w hw) fun a w' hw' ha => hf a ha w' hw'

theorem keeps_read {f : Workspace → α} (h : ∀ w, Q (f w)) : (read f).Keeps Q := by
  intro w hw
  refine ⟨hw, fun a ha => ?_⟩
  cases ha
  exact h w

theorem keeps_single {f : Workspace → Except Fault (α × Workspace)}
    (h : ∀ w a w', w.Sound → f w = .ok (a, w') → w'.Sound ∧ Q a) : (single f).Keeps Q := by
  intro w hw
  cases hf : f w with
  | error fault =>
      rw [Safe, run_single_error hf]
      exact ⟨hw, fun a ha => by cases ha⟩
  | ok r =>
      obtain ⟨a, w'⟩ := r
      obtain ⟨hw', ha⟩ := h w a w' hw hf
      rw [Safe, run_single hf]
      exact ⟨hw', fun b hb => by cases hb; exact ha⟩

/-! ### The single changes -/

theorem keeps_entry (place : Address) :
    (Change.entry? place).Keeps fun e? => ∀ e ∈ e?, '\n' ∉ e.content :=
  keeps_read fun _ _ he => Journal.content_of_entry he

theorem keeps_delete {place : Address} (late : 1000 ≤ place.day.year) :
    (single (Workspace.delete place)).Keeps fun e? => ∀ e ∈ e?, '\n' ∉ e.content := by
  apply keeps_single
  intro w e? w' hw h
  unfold Workspace.delete at h
  split at h
  · cases h
    exact ⟨hw, by simp⟩
  · next e he =>
    obtain ⟨hw', j, hj⟩ := sound_changeDay hw (fun a j hj => by
      obtain ⟨j', hdelete, heq⟩ := map_eq_ok.1 hj
      cases heq
      exact Journal.sameElsewhere_deleteLine late hdelete) h
    obtain ⟨j', -, heq⟩ := map_eq_ok.1 hj
    cases heq
    refine ⟨hw', fun e' he' => ?_⟩
    cases he'
    exact Journal.content_of_entry he

theorem keeps_insert {place : Address} {entries : List Entry} (late : 1000 ≤ place.day.year)
    (hentries : ∀ e ∈ entries, '\n' ∉ e.content) :
    (single (Workspace.insert place entries)).Keeps fun _ => True :=
  keeps_single fun _ _ _ hw h => ⟨(sound_changeDay hw
    (fun _ _ hj => Journal.sameElsewhere_insert late hentries hj) h).1, trivial⟩

theorem keeps_append {day : Date} {entries : List Entry} (late : 1000 ≤ day.year)
    (hentries : ∀ e ∈ entries, '\n' ∉ e.content) :
    (single (Workspace.append day entries)).Keeps fun _ => True :=
  keeps_single fun _ _ _ hw h => ⟨(sound_changeDay hw
    (fun _ _ hj => Journal.sameElsewhere_append late hentries hj) h).1, trivial⟩

theorem sound_changeEntry {w w' : Workspace} {place : Address} {f : Entry → Entry} {u : Unit}
    (late : 1000 ≤ place.day.year) (hf : ∀ e, '\n' ∉ e.content → '\n' ∉ (f e).content)
    (hw : w.Sound) (h : w.changeEntry place f = .ok (u, w')) : w'.Sound := by
  obtain ⟨⟨e?, w''⟩, hchange, heq⟩ := map_eq_ok.1 h
  cases heq
  exact (sound_changeDay hw
    (fun _ _ hj => Journal.sameElsewhere_changeEntry late hf hj) hchange).1

theorem keeps_changeEntry {place : Address} {f : Entry → Entry} (late : 1000 ≤ place.day.year)
    (hf : ∀ e, '\n' ∉ e.content → '\n' ∉ (f e).content) :
    (single (Workspace.changeEntry place f)).Keeps fun _ => True :=
  keeps_single fun _ _ _ hw h => ⟨sound_changeEntry late hf hw h, trivial⟩

theorem keeps_persist {place : Address} {content : Text} (late : 1000 ≤ place.day.year)
    (hcontent : '\n' ∉ content) : (Change.persist place content).Keeps fun _ => True :=
  keeps_changeEntry (f := fun e => { e with content }) late fun _ _ => hcontent

theorem keeps_save {place : Address} {content : Text} (late : 1000 ≤ place.day.year)
    (hcontent : '\n' ∉ content) :
    (single (Workspace.saveContent place content)).Keeps fun new => '\n' ∉ new := by
  apply keeps_single
  intro w new w' hw h
  obtain ⟨normal, hnormal, h⟩ := bind_eq_ok.1 h
  obtain ⟨⟨u, w''⟩, hpersist, h⟩ := bind_eq_ok.1 h
  cases h
  have hnew : '\n' ∉ new := newline_not_mem_normalize hw.favorites hcontent hnormal
  exact ⟨sound_changeEntry (f := fun e => { e with content := new }) late (fun _ _ => hnew) hw
    hpersist, hnew⟩

theorem keeps_saveContent {place : Address} {content : Text} (late : 1000 ≤ place.day.year)
    (hcontent : '\n' ∉ content) : (Change.saveContent place content).Keeps fun _ => True :=
  keeps_bind (keeps_save late hcontent) fun _ _ => keeps_pure trivial

theorem keeps_restoreDay {day : Date} {content : Text} (late : 1000 ≤ day.year)
    (headless : Headless content) :
    (single (Workspace.restoreDay day content)).Keeps fun _ => True := by
  apply keeps_single
  intro w u w' hw h
  refine ⟨(sound_changeDay hw (fun a j hj => ?_) h).1, trivial⟩
  obtain ⟨j', hsave, heq⟩ := map_eq_ok.1 hj
  cases heq
  exact Journal.sameElsewhere_saveDay late headless hsave

theorem keeps_replaceAll (text : Text) :
    (single (Workspace.replaceAll text)).Keeps fun _ => True := by
  apply keeps_single
  intro w u w' hw h
  obtain ⟨j, -, heq⟩ := map_eq_ok.1 h
  cases heq
  refine ⟨⟨coherent_refreshAll _, ?_⟩, trivial⟩
  rw [refreshAll, settings_refreshFilter]
  exact hw.favorites

/-! ### Changes over several entries -/

theorem keeps_forM {l : List α} {f : α → Change PUnit}
    (h : ∀ a ∈ l, (f a).Keeps fun _ => True) : Keeps (l.forM f) fun _ => True :=
  fun _ hw => Safe.forM hw fun a ha w' hw' => h a ha w' hw'

theorem keeps_deleteAll {places : List Address} (h : ∀ place ∈ places, 1000 ≤ place.day.year) :
    (Change.deleteAll places).Keeps fun _ => True :=
  keeps_forM fun place hplace => keeps_bind (keeps_delete (h place hplace)) fun _ _ =>
    keeps_pure trivial

end Change

/-! ## What actions hold -/

/-- A content that can be written where it was found. -/
def FoundContent.Sound (f : FoundContent) : Prop := 1000 ≤ f.place.day.year ∧ '\n' ∉ f.content

namespace Action

/-- All that the action writes fits on a line, or is the text of a day or of a document; and the
days that it writes into have headers of their own. -/
def Sound : Action → Prop
  | create _ place e => 1000 ≤ place.day.year ∧ '\n' ∉ e.content
  | paste _ start entries => 1000 ≤ start.day.year ∧ ∀ e ∈ entries, '\n' ∉ e.content
  | edit _ place old new => 1000 ≤ place.day.year ∧ '\n' ∉ old ∧ '\n' ∉ new
  | changeDates _ places => ∀ place ∈ places, 1000 ≤ place.day.year
  | restoreDates _ found => ∀ f ∈ found, f.Sound
  | changeTags change places =>
    (∀ tag, change = .append tag → '\n' ∉ tag) ∧ ∀ place ∈ places, 1000 ≤ place.day.year
  | restoreTags change found => (∀ tag, change = .append tag → '\n' ∉ tag) ∧ ∀ f ∈ found, f.Sound
  | delete places => ∀ place ∈ places, 1000 ≤ place.day.year
  | restoreDeleted deleted days =>
    (∀ d ∈ deleted, 1000 ≤ d.place.day.year) ∧ ∀ d ∈ days, 1000 ≤ d.1.year ∧ Headless d.2
  | move place day => 1000 ≤ place.day.year ∧ 1000 ≤ day.year
  | moveBack place dayText destination =>
    1000 ≤ place.day.year ∧ Headless dayText ∧ 1000 ≤ destination.day.year
  | sweep _ => True
  | restoreDocument _ _ => True
  | cycleKinds places => ∀ place ∈ places, 1000 ≤ place.day.year
  | restoreKinds found => ∀ f ∈ found, 1000 ≤ f.place.day.year
  | toggle places => ∀ place ∈ places, 1000 ≤ place.day.year

end Action

namespace Change

variable {α β : Type} {Q : α → Prop} {R : β → Prop}

theorem keeps_contents {transform : Workspace → Text → Except Fault (Option Text)}
    {write : Address → Text → Change Unit} {places : List Address}
    (hplaces : ∀ place ∈ places, 1000 ≤ place.day.year)
    (htransform : ∀ w content t, '\n' ∉ content → transform w content = .ok (some t) → '\n' ∉ t)
    (hwrite : ∀ place content, 1000 ≤ place.day.year → '\n' ∉ content →
      (write place content).Keeps fun _ => True) :
    (contents transform write places).Keeps fun found => ∀ f ∈ found, f.Sound := by
  induction places with
  | nil => exact keeps_pure (by simp)
  | cons place more ih =>
      have hmore := ih fun p hp => hplaces p (List.mem_cons_of_mem place hp)
      have hplace := hplaces place (by simp)
      unfold contents
      refine keeps_bind (keeps_entry place) fun e? he? => ?_
      cases e? with
      | none => exact hmore
      | some e =>
          have he : '\n' ∉ e.content := he? e rfl
          have hnext : Keeps (do return ⟨place, e.content⟩ :: (← contents transform write more))
              fun found => ∀ f ∈ found, f.Sound :=
            keeps_bind hmore fun found hfound =>
              keeps_pure (by simpa using ⟨⟨hplace, he⟩, hfound⟩)
          refine keeps_bind (Q := fun t? => ∀ t ∈ t?, '\n' ∉ t) ?_ fun t? ht? => ?_
          · apply keeps_single
            intro w t? w' hw h
            obtain ⟨t?', ht, heq⟩ := map_eq_ok.1 h
            cases heq
            exact ⟨hw, fun t hmem => htransform w e.content t he (by rw [ht, hmem])⟩
          · cases t? with
            | none => exact hnext
            | some t => exact keeps_bind (hwrite place t hplace (ht? t rfl)) fun _ _ => hnext

theorem keeps_restoreContents {found : List FoundContent} (h : ∀ f ∈ found, f.Sound) :
    (restoreContents found).Keeps fun places => ∀ place ∈ places, 1000 ≤ place.day.year := by
  have hone : ∀ f ∈ found, Keeps (do persist f.place f.content; return f.place) fun place =>
      1000 ≤ place.day.year := fun f hf =>
    keeps_bind (keeps_persist (h f hf).1 (h f hf).2) fun _ _ => keeps_pure (h f hf).1
  exact fun _ hw => Safe.mapM hw fun f hf w' hw' => hone f hf w' hw'

theorem keeps_deleteEntries {places : List Address} {deleted : List FoundEntry}
    {days : List (Date × Text)} (hplaces : ∀ place ∈ places, 1000 ≤ place.day.year)
    (hdeleted : ∀ d ∈ deleted, 1000 ≤ d.place.day.year)
    (hdays : ∀ d ∈ days, 1000 ≤ d.1.year ∧ Headless d.2) :
    (deleteEntries places deleted days).Keeps fun r => (Action.restoreDeleted r.1 r.2).Sound := by
  induction places generalizing deleted days with
  | nil => exact keeps_pure ⟨hdeleted, hdays⟩
  | cons place more ih =>
      have hplace := hplaces place (by simp)
      have hmore : ∀ p ∈ more, 1000 ≤ p.day.year := fun p hp => hplaces p (by simp [hp])
      unfold deleteEntries
      refine keeps_bind (Q := fun before => Headless before)
        (keeps_read fun w => headless_dayText w.journal.text place.day) fun before hbefore => ?_
      refine keeps_bind (keeps_delete hplace) fun e? _ => ?_
      cases e? with
      | none => exact ih hmore hdeleted hdays
      | some e =>
          apply ih hmore
          · simpa using ⟨hplace, hdeleted⟩
          · split
            · exact hdays
            · exact List.forall_mem_cons.2 ⟨⟨hplace, hbefore⟩, hdays⟩

theorem keeps_cycleKinds {places : List Address}
    (hplaces : ∀ place ∈ places, 1000 ≤ place.day.year) :
    (Change.cycleKinds places).Keeps fun found => ∀ f ∈ found, 1000 ≤ f.place.day.year := by
  induction places with
  | nil => exact keeps_pure (by simp)
  | cons place more ih =>
      have hplace := hplaces place (by simp)
      have hmore := ih fun p hp => hplaces p (List.mem_cons_of_mem place hp)
      unfold Change.cycleKinds
      refine keeps_bind (keeps_entry place) fun e? _ => ?_
      cases e? with
      | none => exact hmore
      | some e =>
          refine keeps_bind (keeps_changeEntry hplace fun _ h => h) fun _ _ => ?_
          exact keeps_bind hmore fun found hfound => keeps_pure (by simpa using ⟨hplace, hfound⟩)

end Change

/-! ## Performing an action -/

namespace Action

open Change

theorem keeps_perform_create (stage : Stage) {place : Address} {e : Entry}
    (h : (create stage place e).Sound) : (perform (create stage place e)).Keeps Sound := by
  obtain ⟨late, he⟩ := h
  cases stage with
  | recorded => exact keeps_pure ⟨late, he⟩
  | takingBack =>
      refine keeps_bind (keeps_delete late) fun removed hremoved => keeps_pure ⟨late, ?_⟩
      cases removed with
      | none => exact he
      | some e' => exact hremoved e' rfl
  | makingAgain =>
      exact keeps_bind (keeps_insert late (by simpa using he)) fun _ _ => keeps_pure ⟨late, he⟩

theorem keeps_perform_paste (stage : Stage) {start : Address} {entries : List Entry}
    (h : (paste stage start entries).Sound) :
    (perform (paste stage start entries)).Keeps Sound := by
  obtain ⟨late, hentries⟩ := h
  cases stage with
  | recorded => exact keeps_pure ⟨late, hentries⟩
  | takingBack =>
      refine keeps_bind (keeps_deleteAll ?_) fun _ _ => keeps_pure ⟨late, hentries⟩
      intro place hplace
      obtain ⟨k, -, rfl⟩ := List.mem_map.1 hplace
      exact late
  | makingAgain =>
      exact keeps_bind (keeps_insert late hentries) fun _ _ => keeps_pure ⟨late, hentries⟩

theorem keeps_perform_edit (stage : Stage) {place : Address} {old new : Text}
    (h : (edit stage place old new).Sound) : (perform (edit stage place old new)).Keeps Sound := by
  have hperform := h
  obtain ⟨late, hold, hnew⟩ := h
  cases stage with
  | recorded => exact keeps_pure hperform
  | takingBack => exact keeps_bind (keeps_persist late hold) fun _ _ => keeps_pure hperform
  | makingAgain => exact keeps_bind (keeps_persist late hnew) fun _ _ => keeps_pure hperform

theorem keeps_perform_move {place : Address} {day : Date} (h : (move place day).Sound) :
    (perform (move place day)).Keeps Sound := by
  obtain ⟨late, hday⟩ := h
  refine keeps_bind (Q := fun before => Headless before)
    (keeps_read fun w => headless_dayText w.journal.text place.day) fun before hbefore => ?_
  refine keeps_bind (keeps_delete late) fun e? he? => ?_
  cases e? with
  | none => exact fun w hw => Safe.throw hw
  | some e =>
      exact keeps_bind (keeps_append hday (by simpa using he? e rfl)) fun index _ =>
        keeps_pure ⟨late, hbefore, hday⟩

theorem keeps_perform (a : Action) (h : a.Sound) : (perform a).Keeps Sound := by
  cases a with
  | create stage place e => exact keeps_perform_create stage h
  | paste stage start entries => exact keeps_perform_paste stage h
  | edit stage place old new => exact keeps_perform_edit stage h
  | changeDates change places =>
      refine keeps_bind (keeps_contents h ?_ fun _ _ => keeps_saveContent) fun found hfound =>
        keeps_pure hfound
      exact fun w content t => DateChange.newline_not_mem_transform
  | restoreDates change found =>
      exact keeps_bind (keeps_restoreContents h) fun _ hplaces => keeps_pure hplaces
  | changeTags change places =>
      refine keeps_bind (keeps_contents h.2 ?_ fun _ _ => keeps_persist) fun found hfound =>
        keeps_pure ⟨h.1, hfound⟩
      intro w content t hcontent ht
      exact TagChange.newline_not_mem_transform h.1 hcontent (Except.ok.inj ht)
  | restoreTags change found =>
      exact keeps_bind (keeps_restoreContents h.2) fun _ hplaces => keeps_pure ⟨h.1, hplaces⟩
  | delete places =>
      refine keeps_bind (keeps_deleteEntries (fun place hplace => ?_) (by simp) (by simp))
        fun r hr => keeps_pure hr
      exact h place (mem_sortBy.1 hplace)
  | restoreDeleted deleted days =>
      refine keeps_bind (keeps_forM fun d hd => ?_) fun _ _ => keeps_pure ?_
      · obtain ⟨late, headless⟩ := h.2 d (mem_sortBy.1 hd)
        exact keeps_restoreDay late headless
      · simpa [Sound] using h.1
  | move place day => exact keeps_perform_move h
  | moveBack place dayText destination =>
      refine keeps_bind (keeps_delete h.2.2) fun _ _ => ?_
      exact keeps_bind (keeps_restoreDay h.1 h.2.1) fun _ _ => keeps_pure ⟨h.1, h.2.2⟩
  | sweep s =>
      refine keeps_bind (keeps_read (Q := fun _ => True) fun _ => trivial) fun document _ => ?_
      exact keeps_bind (keeps_replaceAll _) fun _ _ => keeps_pure trivial
  | restoreDocument document s =>
      exact keeps_bind (keeps_replaceAll document) fun _ _ => keeps_pure trivial
  | cycleKinds places => exact keeps_bind (keeps_cycleKinds h) fun found hfound => keeps_pure hfound
  | restoreKinds found =>
      refine keeps_bind (keeps_forM fun f hf => ?_) fun _ _ => keeps_pure (by simpa [Sound] using h)
      exact keeps_changeEntry (h f hf) fun _ he => he
  | toggle places =>
      refine keeps_bind (keeps_forM fun place hplace => ?_) fun _ _ => keeps_pure h
      refine keeps_changeEntry (h place hplace) fun e he => ?_
      unfold Entry.toggled
      split <;> exact he

end Action

end DayJournal

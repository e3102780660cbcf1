import DayJournal.Proofs.BrokenBatches
import DayJournal.Proofs.LinearHistory
import DayJournal.Proofs.PrunedDays

/-!
# Batches that name an entry several times

The same entry may be named more than once, as a row of its day and as a row of a filter.  A batch
that changes entries where they stand changes no other entry; a deletion does, since the entries
below move up to the place that is named again.  Both can be taken back, with the one exception that
`Call.Rewinds` is about.
-/

namespace DayJournal

open Text Document

/-! ## Entries that are not named -/

namespace Call

/-- The entries at places that a batch does not name are there after it as they were before.  Below
an entry that is deleted they move up. -/
def Spares (w : Workspace) (u : Text) : Call → Prop
  | delete locations => ∀ day,
    entriesOn u day = entriesSpared (locations.map w.resolve) w.journal.text day
  | c => SameShape u w.journal.text ∧
    ∀ q, q ∉ c.locations.map w.resolve → entryIn u q = entryIn w.journal.text q

/-- No entry moves up to a place where another turn of the batch awaits it. -/
def Shielded (w : Workspace) : Call → Prop
  | delete locations => Document.Shielded (locations.map w.resolve) w.journal.text
  | _ => True

theorem shielded_of_nodup {w : Workspace} {c : Call} (h : (c.locations.map w.resolve).Nodup) :
    c.Shielded w := by
  cases c with
  | delete locations => exact Document.shielded_of_nodup h w.journal.text
  | _ => trivial

end Call

namespace Workspace

/-- The entries at places that are not named are as in a document, and so is its shape. -/
structure Spared (k : Surroundings) (places : List Address) (t : Text) (w : Workspace) : Prop where
  inside : w.In k
  plain : PlainDocument w.journal.text
  shape : SameShape w.journal.text t
  others : ∀ q, q ∉ places → entryIn w.journal.text q = entryIn t q

variable {k : Surroundings} {places : List Address} {t : Text} {w w' : Workspace} {place : Address}
  {f : Entry → Entry}

theorem Spared.changeEntry (h : w.Spared k places t) (hplace : place ∈ places)
    (hf : ∀ e, e.Plain → (f e).Plain) (hrun : w.changeEntry place f = .ok ((), w')) :
    w'.Spared k places t := by
  obtain ⟨hin, htext⟩ := Change.changeEntry_eq_ok h.inside hrun
  refine ⟨hin, ?_, ?_, fun q hq => ?_⟩ <;> rw [htext]
  · exact h.plain.mapEntry hf place
  · exact (h.plain.sameShape_mapEntry hf place).trans h.shape
  · have hne : q ≠ place := fun heq => hq (heq ▸ hplace)
    rw [h.plain.entryIn_mapEntry hf, if_neg hne, h.others q hq]

theorem Spared.persist {content : Text} (h : w.Spared k places t) (hplace : place ∈ places)
    (hcontent : PlainContent content) (hrun : w.persist place content = .ok ((), w')) :
    w'.Spared k places t :=
  h.changeEntry (f := fun e => { e with content }) hplace
    (fun _ he => ⟨hcontent, he.completed⟩) hrun

end Workspace

namespace Change

variable {k : Surroundings} {places more : List Address} {t : Text} {w : Workspace}

theorem safe_spared_changeEntry {place : Address} {f : Entry → Entry} (h : w.Spared k places t)
    (hplace : place ∈ places) (hf : ∀ e, e.Plain → (f e).Plain) :
    Safe (Workspace.Spared k places t) (single (Workspace.changeEntry place f)) w
      fun _ _ => True :=
  safe_single (fun _ _ hrun => h.changeEntry hplace hf hrun) h

theorem safe_spared_cycleKinds (h : w.Spared k places t) (hmore : more ⊆ places) :
    Safe (Workspace.Spared k places t) (Change.cycleKinds more) w fun _ _ => True := by
  induction more generalizing w with
  | nil => exact Safe.pure h trivial
  | cons place more ih =>
      have hrest := List.cons_subset.1 hmore
      refine Safe.bind (Q := fun _ _ => True) ⟨h, fun _ _ => trivial⟩ fun e? w₁ hw₁ _ => ?_
      cases e? with
      | none => exact ih hw₁ hrest.2
      | some e =>
          refine Safe.bind (safe_spared_changeEntry hw₁ hrest.1 fun _ he => he.cycled)
            fun _ w₂ hw₂ _ => ?_
          exact Safe.bind (ih hw₂ hrest.2) fun _ _ hw₃ _ => Safe.pure hw₃ trivial

end Change

theorem Workspace.Spared.plain_of_entry {k : Surroundings} {places : List Address} {t : Text}
    {w : Workspace} {place : Address} {e : Entry} (h : w.Spared k places t)
    (he : w.journal.entry? place = some e) : e.Plain := h.plain.plain_of_entryIn he

/-- A batch of changes where the entries stand spares the others, also when it fails halfway. -/
theorem Call.safe_perform {k : Surroundings} {places : List Address} {t : Text} {v w : Workspace}
    {c : Call} (hne : c.locations ≠ []) (hplain : c.Plain v)
    (hfavorites : ∀ f ∈ k.settings.favorites, '\n' ∉ f.2)
    (hdelete : ∀ locations, c ≠ .delete locations) (h : w.Spared k places t) :
    Safe (Workspace.Spared k places t) (c.action v places).perform w fun _ _ => True := by
  have htags : ∀ change : TagChange, (∀ tag, change = .append tag → Tag.isName tag = true) →
      Safe (Workspace.Spared k places t) (Action.changeTags change places).perform w
        fun _ _ => True := by
    intro change hchange
    refine Safe.bind (Change.safe_contents (fun place hplace w e content hw he ht => ?_) h)
      fun _ _ hw _ => Safe.pure hw trivial
    have hcontent := TagChange.plain_transform hchange (hw.plain_of_entry he).content
      (Except.ok.inj ht)
    exact Change.safe_single (fun _ _ hrun => hw.persist hplace hcontent hrun) hw
  cases c with
  | toggle locations =>
      refine Safe.bind (Safe.forM h fun place hplace w hw => ?_) fun _ _ hw _ =>
        Safe.pure hw trivial
      exact Change.safe_spared_changeEntry hw hplace fun _ he => he.toggled
  | cycleKinds locations =>
      exact Safe.bind (Change.safe_spared_cycleKinds h (List.Subset.refl _)) fun _ _ hw _ =>
        Safe.pure hw trivial
  | appendTag tag locations =>
      refine htags _ fun name hname => ?_
      cases hname
      exact hplain
  | removeLastTag locations => exact htags _ fun name hname => by cases hname
  | removeAllTags locations => exact htags _ fun name hname => by cases hname
  | changeDates change locations =>
      refine Safe.bind (Change.safe_contents (fun place hplace w e content hw he ht => ?_) h)
        fun _ _ hw _ => Safe.pure hw trivial
      have hlines : ∀ f ∈ w.settings.favorites, '\n' ∉ f.2 := by
        rw [hw.inside.settings]
        exact hfavorites
      refine Change.safe_saveContent (fun new w' hsave => ?_) hw
      obtain ⟨normal, hnormal, hsave⟩ := bind_eq_ok.1 hsave
      obtain ⟨⟨_, w''⟩, hpersist, heq⟩ := bind_eq_ok.1 hsave
      cases heq
      have hcontent :=
        DateChange.plain_saved hplain hlines (hw.plain_of_entry he).content ht hnormal
      exact hw.persist hplace hcontent hpersist
  | delete locations => exact absurd rfl (hdelete locations)
  | _ => exact absurd rfl hne

/-! ## Batches that cannot fail -/

theorem Call.goes_action (v : Workspace) {c : Call} (hne : c.locations ≠ [])
    (hdates : ∀ change locations, c ≠ .changeDates change locations) (places : List Address) :
    Change.Goes (c.action v places).perform := by
  have htags : ∀ change, Change.Goes (Action.changeTags change places).perform := fun change =>
    Change.goes_bind (Change.goes_persisted change.transform places) fun _ => Change.goes_pure _
  cases c with
  | toggle locations =>
      exact Change.goes_bind (Change.goes_forM fun place => Change.goes_changeEntry place _)
        fun _ => Change.goes_pure _
  | cycleKinds locations =>
      exact Change.goes_bind (Change.goes_cycleKinds places) fun _ => Change.goes_pure _
  | appendTag tag locations => exact htags _
  | removeLastTag locations => exact htags _
  | removeAllTags locations => exact htags _
  | changeDates change locations => exact absurd rfl (hdates change locations)
  | delete locations => exact Action.goes_delete places
  | _ => exact absurd rfl hne

/-! ## Batches in a session -/

namespace Session

variable {s s' : Session} {c : Call} {I : Workspace → Prop}

theorem safe_execute_workspace {a : Action}
    (h : Safe I a.perform s.workspace fun _ _ => True) :
    Safe (fun s' => I s'.workspace) (execute a) s fun _ _ => True := by
  have hchange : Safe (fun s' : Session => I s'.workspace) (change a.perform) s fun _ _ => True :=
    ⟨h.1, fun _ _ => trivial⟩
  have hrecord : Safe (fun s' : Session => I s'.workspace) (record a) s fun _ _ => True :=
    Safe.bind hchange fun _ s₁ hs₁ _ =>
      Safe.bind (Safe.modify (I := fun s' : Session => I s'.workspace) hs₁) fun _ _ hs₂ _ =>
        Safe.pure hs₂ trivial
  refine Safe.bind hrecord fun _ s₁ hs₁ _ => ?_
  refine Safe.bind (Safe.modify (I := fun s' : Session => I s'.workspace) hs₁) fun _ s₂ hs₂ _ => ?_
  exact Safe.bind (Safe.modify (I := fun s' : Session => I s'.workspace) hs₂) fun _ _ hs₃ _ =>
    Safe.pure hs₃ trivial

theorem safe_onAll_workspace (check : Row → Except Fault Unit) {action : List Address → Action}
    {locations : List Location} (hs : I s.workspace)
    (h : Safe I (action (locations.map s.workspace.resolve)).perform s.workspace
      fun _ _ => True) :
    Safe (fun s' => I s'.workspace) (discard (onAll check action locations)) s fun _ _ => True := by
  refine Safe.bind (Q := fun _ _ => True) ?_ fun _ _ hs' _ => Safe.pure hs' trivial
  refine Safe.bind (safe_ask (I := fun s' : Session => I s'.workspace) hs) ?_
  rintro places _ - ⟨rfl, hplaces⟩
  rw [eq_map_of_mapM (fun _ _ hchecked => (checked_eq_ok hchecked).symm) hplaces]
  split
  · exact Safe.pure hs trivial
  · exact safe_execute_workspace h

theorem undo_batch {check : Row → Except Fault Unit} {action : List Address → Action}
    {locations : List Location} {b b' : Action} {k : Surroundings} {u v : Text}
    (hleads : Action.Leads k (action (locations.map s.workspace.resolve))
      s.workspace.journal.text b u)
    (hback : Action.Leads k b u b' v) (hgoes : Change.Goes b.perform) (hs : Within k s)
    (hdeep : 0 < s.history.depth) (hne : locations ≠ [])
    (hrun : (discard (onAll check action locations)).run s = (.ok (), s')) :
    s'.workspace.journal.text = u ∧ (s'.allow none).succeeds .undo = true ∧
      ((s'.allow none).after .undo).workspace.journal.text = v := by
  obtain ⟨hs', hresult⟩ := safe_onAll_leads check hleads hs hdeep hne
  rw [hrun] at hs' hresult
  obtain ⟨rfl, step, rest, hundo, rfl⟩ := hresult () rfl
  exact ⟨rfl, undo_step (s := s'.allow none) ⟨hs'.settings, hs'.today⟩ rfl hundo hgoes hback⟩

section Repeated

variable (hdocument : PlainDocument s.workspace.journal.text)
  (hfavorites : ∀ f ∈ s.workspace.settings.favorites, '\n' ∉ f.2) (hne : c.locations ≠ [])
  (hplain : c.Plain s.workspace)

include hdocument hfavorites hne hplain in
theorem spares_of_ne_delete (hdelete : ∀ locations, c ≠ .delete locations)
    {result : Except Fault Unit} (hrun : c.command.run s = (result, s')) :
    c.Spares s.workspace s'.workspace.journal.text := by
  have hstart : s.workspace.Spared ⟨s.workspace.settings, s.workspace.today⟩
      (c.locations.map s.workspace.resolve) s.workspace.journal.text :=
    ⟨⟨rfl, rfl⟩, hdocument, fun _ => rfl, fun _ _ => rfl⟩
  have hkept := (safe_onAll_workspace c.check hstart
    (Call.safe_perform hne hplain hfavorites hdelete hstart)).1
  rw [← run_batch hne hplain, hrun] at hkept
  cases c with
  | delete locations => exact absurd rfl (hdelete locations)
  | _ => exact ⟨hkept.shape, hkept.others⟩

include hne hplain in
theorem succeeds_batch (hwrites : s.workspace.journal.writesLeft = none)
    (hchecked : ∀ l ∈ c.locations, ∃ place, s.workspace.checked c.check l = .ok place)
    (hdates : ∀ change locations, c ≠ .changeDates change locations) : s.succeeds c = true := by
  have hplaces := (mapM_eq_ok_iff fun _ _ hl => (checked_eq_ok hl).symm).2 ⟨hchecked, rfl⟩
  obtain ⟨b, w, hperform, -⟩ := Call.goes_action s.workspace hne hdates
    (c.locations.map s.workspace.resolve) s.workspace hwrites
  obtain ⟨s', hexecute, -⟩ := exists_run_recorded hperform
  have hrun :=
    (run_onAll_of_checked hplaces (by simpa using hne) (c.action s.workspace)).trans hexecute
  exact (succeeds_of_run ((run_batch hne hplain).trans (run_discard hrun))).1

end Repeated

/-- Locations may name an entry several times.  A batch that may be made is made, save that a date
may have nowhere to move to.  A batch that is no deletion spares all entries that it does not name,
whether it succeeds or not; a deletion spares them just when they are shielded from the turns that
are too many.  An undo succeeds, and gives the document back just when each entry was as in the
beginning when its last turn came. -/
theorem repeated_locations (hdocument : PlainDocument s.workspace.journal.text)
    (hfavorites : ∀ f ∈ s.workspace.settings.favorites, '\n' ∉ f.2)
    (hdeep : 0 < s.history.depth) (hne : c.locations ≠ []) (hplain : c.Plain s.workspace) :
    (s.workspace.journal.writesLeft = none →
      (∀ l ∈ c.locations, ∃ place, s.workspace.checked c.check l = .ok place) →
      (∀ change locations, c ≠ .changeDates change locations) → s.succeeds c = true) ∧
    (∀ result s', c.command.run s = (result, s') → (∀ locations, c ≠ .delete locations) →
      c.Spares s.workspace s'.workspace.journal.text) ∧
    ∀ s', c.command.run s = (.ok (), s') →
      (c.Spares s.workspace s'.workspace.journal.text ↔ c.Shielded s.workspace) ∧
      (s'.allow none).succeeds .undo = true ∧
      (((s'.allow none).after .undo).workspace.journal.text = s.workspace.journal.text ↔
        c.Rewinds s.workspace) := by
  refine ⟨succeeds_batch hne hplain, fun _ _ hrun hdelete =>
    spares_of_ne_delete hdocument hfavorites hne hplain hdelete hrun, fun s' hrun => ?_⟩
  have hin : Within ⟨s.workspace.settings, s.workspace.today⟩ s := ⟨rfl, rfl⟩
  have hbatch := hrun
  rw [run_batch hne hplain] at hbatch
  by_cases hdelete : ∃ locations, c = .delete locations
  · obtain ⟨locations, rfl⟩ := hdelete
    obtain ⟨htext, hsucceeds, hundone⟩ := undo_batch (Action.leads_delete _ _)
      (Action.leads_restoreDeleted hdocument _) (Action.goes_restoreDeleted _ _) hin hdeep hne
      hbatch
    exact ⟨(hdocument.entries_deleted _ htext).2, hsucceeds, iff_of_true hundone trivial⟩
  · have hspares := spares_of_ne_delete hdocument hfavorites hne hplain
      (fun locations hc => hdelete ⟨locations, hc⟩) hrun
    have hshielded : c.Shielded s.workspace := by
      cases c with
      | delete locations => exact absurd ⟨locations, rfl⟩ hdelete
      | _ => trivial
    refine ⟨iff_of_true hspares hshielded, ?_⟩
    by_cases htoggle : ∃ locations, c = .toggle locations
    · obtain ⟨locations, rfl⟩ := htoggle
      have hback := Action.leads_toggle (k := ⟨s.workspace.settings, s.workspace.today⟩)
        (locations.map s.workspace.resolve)
        (batch Entry.toggled (locations.map s.workspace.resolve) s.workspace.journal.text)
      rw [Action.batch_toggled_twice hdocument] at hback
      obtain ⟨-, hsucceeds, hundone⟩ := undo_batch (Action.leads_toggle _ _) hback
        (Call.goes_action s.workspace hne (by simp) _) hin hdeep hne hbatch
      exact ⟨hsucceeds, iff_of_true hundone trivial⟩
    · obtain ⟨restore, f, g, hbatched, hrewinds⟩ := batched_action hin hfavorites hplain hne
        (fun locations hc => hdelete ⟨locations, hc⟩) fun locations hc => htoggle ⟨locations, hc⟩
      obtain ⟨hsucceeds, hiff⟩ := text_undo_batch hbatched hin hdocument hdeep hne hbatch
      exact ⟨hsucceeds, hiff.trans hrewinds⟩

theorem setLines_two_tasks :
    setLines [] ⟨2026, 1, 5, by decide⟩
        [.entry ⟨.task, "a".toList, false⟩, .entry ⟨.task, "b".toList, false⟩] =
      "# 2026/01/05\n- [ ] a\n- [ ] b\n".toList := by decide +kernel

theorem kept_two_tasks :
    Line.Kept [.entry ⟨.task, "a".toList, false⟩, .entry ⟨.task, "b".toList, false⟩] := by
  have hcontent : PlainContent "a".toList ∧ PlainContent "b".toList := by
    constructor <;> constructor <;> decide
  refine ⟨?_, fun l hl => ?_⟩
  · simpa using ⟨Line.plain_entry ⟨hcontent.1, fun hcompleted => by cases hcompleted⟩,
      Line.plain_entry ⟨hcontent.2, fun hcompleted => by cases hcompleted⟩⟩
  · cases hl
    decide

theorem plainDocument_two_tasks : PlainDocument "# 2026/01/05\n- [ ] a\n- [ ] b\n".toList := by
  rw [← setLines_two_tasks]
  exact PlainDocument.nil.setLines (by decide) kept_two_tasks.plain

/-- The last entry of a day is named twice.  It is deleted and comes back, and the entry above it
stays. -/
theorem repeated_locations_of_last_entry :
    let s := start ⟨"# 2026/01/05\n- [ ] a\n- [ ] b\n".toList, none⟩ {} ⟨2026, 1, 5, by decide⟩
    let s' := s.after (.delete [.daily 1, .daily 1])
    s.succeeds (.delete [.daily 1, .daily 1]) = true ∧
      (Call.delete [.daily 1, .daily 1]).Spares s.workspace s'.workspace.journal.text ∧
      s'.workspace.journal.text = "# 2026/01/05\n- [ ] a\n".toList ∧
      (s'.allow none).succeeds .undo = true ∧
      ((s'.allow none).after .undo).workspace.journal.text = s.workspace.journal.text := by
  intro s s'
  have hlines : ∀ day, (dayLines s.workspace.journal.text day).length ≤ 2 := by
    intro day
    rw [show s.workspace.journal.text = _ from setLines_two_tasks.symm,
      PlainDocument.nil.dayLines_setLines (by decide) kept_two_tasks]
    split
    · exact le_rfl
    · exact Nat.zero_le 2
  have hshielded : (Call.delete [.daily 1, .daily 1]).Shielded s.workspace := by
    intro day i j e e' htwice _ hij _ hj
    -- Below the place that is named there is no line.
    have hnamed : (⟨day, i⟩ : Address) ∈ [.daily 1, .daily 1].map s.workspace.resolve :=
      List.count_pos_iff.1 (Nat.lt_of_lt_of_le Nat.two_pos htwice)
    obtain ⟨-, hi⟩ : day = s.workspace.day ∧ (i : Int) = 1 := by
      simpa [Workspace.resolve] using hnamed
    obtain ⟨hlt, -⟩ := List.getElem?_eq_some_iff.1 hj
    have hle := hlines day
    omega
  obtain ⟨hmade, -, hdone⟩ := repeated_locations (s := s) (c := .delete [.daily 1, .daily 1])
    plainDocument_two_tasks (fun f hf => absurd hf List.not_mem_nil) (by decide)
    (by simp [Call.locations]) trivial
  have hok : s.succeeds (.delete [.daily 1, .daily 1]) = true := by
    refine hmade rfl (fun l hl => ?_) (by simp)
    obtain rfl : l = .daily 1 := by simpa [Call.locations] using hl
    exact ⟨_, rfl⟩
  obtain ⟨hspares, hsucceeds, hundone⟩ := hdone s' (run_of_succeeds hok)
  exact ⟨hok, hspares.2 hshielded, by decide +kernel, hsucceeds, hundone.2 trivial⟩

/-- The entry below one that is named twice is deleted with it. -/
theorem unnamed_entry_deleted :
    let s := start ⟨"# 2026/01/05\n- [ ] a\n- [ ] b\n".toList, none⟩ {} ⟨2026, 1, 5, by decide⟩
    let s' := s.after (.delete [.daily 0, .daily 0])
    PlainDocument s.workspace.journal.text ∧ s.succeeds (.delete [.daily 0, .daily 0]) = true ∧
      entryIn s.workspace.journal.text ⟨s.workspace.day, 1⟩ = some ⟨.task, "b".toList, false⟩ ∧
      (⟨s.workspace.day, 1⟩ : Address) ∉ [Location.daily 0, .daily 0].map s.workspace.resolve ∧
      s'.workspace.journal.text = [] := by
  intro s s'
  exact ⟨plainDocument_two_tasks, by decide +kernel, by decide +kernel, by decide +kernel,
    by decide +kernel⟩

end Session

end DayJournal

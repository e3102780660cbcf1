import DayJournal.Proofs.Performing

/-!
# Actions and what takes them back

An action gives the action that takes it back, which gives an action again, and so on.  In a plain
document these lead from one text to another and back, however often: `Swaps k a b t u` says that
`a` leads from `t` to `u` and gives `b`, and `b` leads back and gives `a`.
-/

namespace DayJournal

open Text Document Change

def TagChange.onEntry (change : TagChange) (e : Entry) : Entry :=
  { e with content := (change.transform e.content).getD e.content }

/-- What becomes of an entry when its date is changed and nothing goes wrong. -/
def DateChange.onEntry (change : DateChange) (k : Surroundings) (e : Entry) : Entry :=
  match change.transform k.today e.content with
  | .ok (some content) =>
    match k.normalize content with
    | .ok normal => { e with content := normal }
    | .error _ => e
  | _ => e

theorem TagChange.plain_onEntry {change : TagChange} {e : Entry}
    (hchange : ∀ tag, change = .append tag → Tag.isName tag = true) (he : e.Plain) :
    (change.onEntry e).Plain := by
  refine ⟨?_, he.completed⟩
  rw [TagChange.onEntry]
  cases hcontent : change.transform e.content with
  | none => exact he.content
  | some c => exact plain_transform hchange he.content hcontent

theorem Surroundings.exists_in (k : Surroundings) : ∃ w : Workspace, w.In k :=
  ⟨{ journal := ⟨[], none⟩, settings := k.settings, today := k.today, day := k.today }, rfl, rfl⟩

theorem DateChange.plain_onEntry {change : DateChange} {k : Surroundings} {e : Entry}
    (hchange : change ≠ .remove) (hfavorites : ∀ f ∈ k.settings.favorites, '\n' ∉ f.2)
    (he : e.Plain) : (change.onEntry k e).Plain := by
  rw [DateChange.onEntry]
  split
  · next content hcontent =>
    split
    · next normal hnormal =>
      obtain ⟨w, hw⟩ := k.exists_in
      rw [← hw.settings] at hfavorites
      rw [← hw.normalize] at hnormal
      exact ⟨plain_saved hchange hfavorites he.content hcontent hnormal, he.completed⟩
    · exact he
  · exact he

theorem DateChange.withContent_onEntry (change : DateChange) (k : Surroundings) (e : Entry) :
    e.withContent (change.onEntry k e) = e := by
  unfold DateChange.onEntry
  split
  · split <;> rfl
  · rfl

namespace Action

/-- The action leads from `t` to `u`, and `b` is what it gives to take that back. -/
def Leads (k : Surroundings) (a : Action) (t : Text) (b : Action) (u : Text) : Prop :=
  Meets k a.perform t fun b' u' => b' = b ∧ u' = u

theorem Leads.exists_run {k : Surroundings} {t u : Text} {a b : Action} {w : Workspace}
    (h : Leads k a t b u) (hgoes : Goes a.perform) (hw : w.In k) (ht : w.journal.text = t)
    (hwrites : w.journal.writesLeft = none) :
    ∃ w', a.perform.run w = (.ok b, w') ∧ w'.In k ∧ w'.journal.text = u ∧
      w'.journal.writesLeft = none := by
  obtain ⟨b', w', hrun, hw', ⟨rfl, htext⟩, hwrites'⟩ := Meets.exists_run h hgoes hw ht hwrites
  exact ⟨w', hrun, hw', htext, hwrites'⟩

/-- Two actions lead from one document to another and back, and each gives the other. -/
structure Swaps (k : Surroundings) (a b : Action) (t u : Text) : Prop where
  there : Leads k a t b u
  back : Leads k b u a t

/-- What the action gives leads back, and from there on to and fro. -/
def Reversible (k : Surroundings) (a : Action) (t : Text) : Prop :=
  Meets k a.perform t fun b u => PlainDocument u ∧ ∃ a', Swaps k a' b t u

variable {k : Surroundings} {t u : Text} {a a' b : Action}

theorem Swaps.symm (h : Swaps k a b t u) : Swaps k b a u t := ⟨h.back, h.there⟩

theorem Leads.reversible (h : Leads k a t b u) (hu : PlainDocument u) (hswaps : Swaps k a' b t u) :
    Reversible k a t := by
  refine Meets.imp h fun b' u' h' => ?_
  obtain ⟨rfl, rfl⟩ := h'
  exact ⟨hu, a', hswaps⟩

/-! ## Entries that are added -/

section Added

variable {place : Address} {entries : List Entry} {e : Entry}

theorem meets_insert_fits (fits : Fits t place) (entries : List Entry) :
    Meets k (single (Workspace.insert place entries)) t fun positions u =>
      positions.headD place.line = place.line ∧ u = putEntries t place entries := by
  refine (meets_insert place entries).imp fun positions u h => ?_
  obtain ⟨rfl, rfl⟩ := h
  constructor
  · by_cases hne : entries = []
    · subst hne
      rfl
    · rw [Line.insertEntries_headD hne, min_eq_left fits.le_length]
  · rw [putEntries, Line.insertEntries_fst fits.nonneg]
    rfl

theorem swaps_create (ht : PlainDocument t) (fits : Fits t place) (he : e.Plain) :
    Swaps k (create .makingAgain place e) (create .takingBack place e) t
      (putEntries t place [e]) := by
  obtain ⟨hentry, hremove⟩ := ht.takeOut_putEntries fits he
  constructor
  · refine meets_bind (meets_insert_fits fits [e]) fun positions u hu => meets_pure ?_
    obtain ⟨hhead, rfl⟩ := hu
    rw [hhead]
    exact ⟨rfl, rfl⟩
  · refine meets_bind (meets_delete place) fun e? u hu => meets_pure ?_
    obtain ⟨rfl, rfl⟩ := hu
    rw [hentry, if_neg (by simp), hremove]
    exact ⟨rfl, rfl⟩

theorem meets_deleteAll (ht : PlainDocument t) (fits : Fits t place)
    (hentries : ∀ e ∈ entries, e.Plain) :
    Meets k (deleteAll ((List.range entries.length).reverse.map fun (n : Nat) =>
      { place with line := place.line + n })) (putEntries t place entries) fun _ u => u = t := by
  -- The last entry goes first, and leaves the document in which it was never put in.
  induction entries using List.reverseRecOn with
  | nil =>
      rw [ht.putEntries_nil fits]
      exact meets_pure rfl
  | append_singleton entries e ih =>
      have hinit : ∀ x ∈ entries, x.Plain := fun x hx => hentries x (List.mem_append_left _ hx)
      have hplaces : (List.range (entries ++ [e]).length).reverse.map
          (fun (n : Nat) => { place with line := place.line + n }) =
          { place with line := place.line + entries.length } ::
            (List.range entries.length).reverse.map
              fun (n : Nat) => { place with line := place.line + n } := by
        rw [List.length_append, List.length_singleton, List.range_succ, List.reverse_append]
        rfl
      rw [hplaces]
      refine meets_bind (Q := fun _ u => u = putEntries t place entries)
        (meets_discard ?_) fun _ u hu => ?_
      · refine (meets_delete _).imp fun e? u hu => ?_
        obtain ⟨rfl, rfl⟩ := hu
        rw [ht.entryIn_putEntries_concat fits hentries, if_neg (by simp),
          ht.removeLine_putEntries_concat fits hentries]
      · subst hu
        exact ih hinit

theorem swaps_paste (ht : PlainDocument t) (fits : Fits t place)
    (hentries : ∀ e ∈ entries, e.Plain) :
    Swaps k (paste .makingAgain place entries) (paste .takingBack place entries) t
      (putEntries t place entries) := by
  constructor
  · refine meets_bind (meets_insert_fits fits entries) fun positions u hu => meets_pure ?_
    obtain ⟨hhead, rfl⟩ := hu
    rw [hhead]
    exact ⟨rfl, rfl⟩
  · refine meets_bind (meets_deleteAll ht fits hentries) fun _ u hu => meets_pure ?_
    exact ⟨rfl, hu⟩

end Added

/-! ## Contents that are edited -/

theorem swaps_edit {place : Address} {new : Text} (ht : PlainDocument t)
    (hnew : PlainContent new) :
    Swaps k (edit .makingAgain place ((entryIn t place).elim [] Entry.content) new)
      (edit .takingBack place ((entryIn t place).elim [] Entry.content) new) t
      (mapEntry t place fun e => { e with content := new }) := by
  constructor
  · refine meets_bind (meets_persist place new) fun _ u hu => meets_pure ?_
    exact ⟨rfl, hu⟩
  · refine meets_bind (meets_persist place _) fun _ u hu => meets_pure ⟨rfl, ?_⟩
    rw [hu]
    have hedit : ∀ e : Entry, e.Plain → Entry.Plain { e with content := new } :=
      fun e he => ⟨hnew, he.completed⟩
    cases hold : entryIn t place with
    | none =>
        rw [mapEntry_of_none hold, mapEntry_of_none hold]
    | some e =>
        have hu := ht.mapEntry hedit place
        have hback : ∀ e' : Entry, e'.Plain → Entry.Plain { e' with content := e.content } :=
          fun e' he' => ⟨(ht.plain_of_entryIn hold).content, he'.completed⟩
        apply (hu.mapEntry hback place).ext_entries ht
          ((hu.sameShape_mapEntry hback place).trans (ht.sameShape_mapEntry hedit place))
        intro q
        rw [hu.entryIn_mapEntry hback, ht.entryIn_mapEntry hedit]
        by_cases hq : q = place
        · rw [if_pos hq, if_pos hq, hq, hold]
          rfl
        · rw [if_neg hq, if_neg hq]

/-! ## Entries that are changed one after the other -/

section Batches

variable {f : Entry → Entry} {g : Entry → Entry → Entry} {places : List Address}

/-- The actions `change` are batches that make `f` of each entry, and the actions `restore` put back
with `g` what was found. -/
structure Batched (k : Surroundings) (change : List Address → Action)
    (restore : List FoundEntry → Action) (f : Entry → Entry) (g : Entry → Entry → Entry) :
    Prop where
  plain : ∀ e, e.Plain → (f e).Plain
  plain_back : ∀ a b, a.Plain → b.Plain → (g a b).Plain
  last : ∀ a b c, g a (g b c) = g a c
  there : ∀ places t, PlainDocument t →
    Leads k (change places) t (restore (capture f places t)) (batch f places t)
  back : ∀ found t, Leads k (restore found) t (change (found.map FoundEntry.place))
    (putBack g found t)
  goes : ∀ found, Goes (restore found).perform

theorem Batched.reversible {change : List Address → Action} {restore : List FoundEntry → Action}
    (h : Batched k change restore f g) (ht : PlainDocument t) (hrewinds : Rewinds f g places t) :
    Reversible k (change places) t := by
  obtain ⟨hbatch, hcapture⟩ := batch_capture f places t
  -- The second time only the places count that held an entry, which makes no difference.
  have hagain := h.there ((capture f places t).map FoundEntry.place) t ht
  have hback := h.back (capture f places t) (batch f places t)
  rw [hbatch, hcapture] at hagain
  rw [(ht.putBack_capture_eq_iff h.plain h.plain_back h.last).2 hrewinds] at hback
  exact (h.there places t ht).reversible (ht.batch h.plain places) ⟨hagain, hback⟩

theorem leads_toggle (places : List Address) (t : Text) :
    Leads k (toggle places) t (toggle places) (batch Entry.toggled places t) :=
  meets_bind (meets_toggle places t) fun _ _ hu => meets_pure ⟨rfl, hu⟩

theorem batch_toggled_twice (ht : PlainDocument t) (places : List Address) :
    batch Entry.toggled places (batch Entry.toggled places t) = t := by
  have hplain : ∀ e : Entry, e.Plain → e.toggled.Plain := fun _ he => he.toggled
  have hbatch := ht.batch hplain places
  apply (hbatch.batch hplain places).ext_entries ht
    ((hbatch.sameShape_batch hplain places).trans (ht.sameShape_batch hplain places))
  intro q
  -- A toggle is its own reverse, so it does not matter how often a place is named.
  have htwice : Entry.toggled^[places.count q] ∘ Entry.toggled^[places.count q] = id := by
    rw [← Function.iterate_add, Entry.toggled_involutive.iterate_even ⟨_, rfl⟩]
  rw [hbatch.entryIn_batch hplain, ht.entryIn_batch hplain, Option.map_map, htwice,
    Option.map_id_fun, id]

theorem reversible_toggle (ht : PlainDocument t) (places : List Address) :
    Reversible k (toggle places) t := by
  have hagain := leads_toggle (k := k) places (batch Entry.toggled places t)
  rw [batch_toggled_twice ht] at hagain
  exact (leads_toggle places t).reversible (ht.batch (fun _ he => he.toggled) places)
    ⟨leads_toggle places t, hagain⟩

theorem batched_cycleKinds : Batched k cycleKinds restoreKinds Entry.cycled Entry.withKind where
  plain _ he := he.cycled
  plain_back _ _ ha hb := ha.withKind hb
  last _ _ _ := rfl
  there places t _ := by
    refine meets_bind (meets_cycleKinds places t) fun found u hu => meets_pure ?_
    exact ⟨congrArg restoreKinds hu.1, hu.2⟩
  back found t :=
    meets_bind (meets_restoreKinds found t) fun _ u hu => meets_pure ⟨rfl, hu⟩
  goes found :=
    goes_bind (goes_forM fun x => goes_changeEntry x.place _) fun _ => goes_pure _

theorem goes_restoreContents (found : List FoundContent) : Goes (restoreContents found) :=
  goes_mapM fun x => goes_bind (goes_changeEntry x.place _) fun _ => goes_pure _

theorem leads_changeTags {change : TagChange}
    (hchange : ∀ tag, change = .append tag → Tag.isName tag = true) (places : List Address)
    (ht : PlainDocument t) :
    Leads k (changeTags change places) t
      (restoreTags change ((capture change.onEntry places t).map FoundEntry.contentOnly))
      (batch change.onEntry places t) := by
  -- `contents` writes only where `transform` gives a text; otherwise the entry stays as it is.
  have hkeep : ∀ (w : Workspace) (e : Entry), w.In k →
      (Except.ok (change.transform e.content) : Except Fault _) = .ok none →
        change.onEntry e = e := by
    intro w e _ h
    rw [TagChange.onEntry, Except.ok.inj h]
    rfl
  have hwrite : ∀ (w : Workspace) (e : Entry) c t place, w.In k →
      (Except.ok (change.transform e.content) : Except Fault _) = .ok (some c) →
        entryIn t place = some e →
          Meets k (Change.persist place c) t fun _ u => u = mapEntry t place change.onEntry := by
    intro w e c t place _ h he
    refine (meets_persist place c).imp fun _ u hu => ?_
    rw [hu, mapEntry_of_some he, mapEntry_of_some he, TagChange.onEntry, Except.ok.inj h]
    rfl
  have hcontents := meets_contents (fun _ content => .ok (change.transform content))
    (fun e he => TagChange.plain_onEntry hchange he) hkeep hwrite places ht
  refine meets_bind hcontents fun found u hu => meets_pure ?_
  exact ⟨congrArg (restoreTags change) hu.1, hu.2⟩

theorem leads_changeDates {change : DateChange} (hchange : change ≠ .remove)
    (hfavorites : ∀ f ∈ k.settings.favorites, '\n' ∉ f.2) (places : List Address)
    (ht : PlainDocument t) :
    Leads k (changeDates change places) t
      (restoreDates change ((capture (change.onEntry k) places t).map FoundEntry.contentOnly))
      (batch (change.onEntry k) places t) := by
  have hkeep : ∀ (w : Workspace) (e : Entry), w.In k →
      change.transform w.today e.content = .ok none → change.onEntry k e = e := by
    intro w e hw h
    rw [hw.today] at h
    rw [DateChange.onEntry, h]
  have hwrite : ∀ (w : Workspace) (e : Entry) c t place, w.In k →
      change.transform w.today e.content = .ok (some c) → entryIn t place = some e →
        Meets k (saveContent place c) t fun _ u => u = mapEntry t place (change.onEntry k) := by
    intro w e c t place hw h he
    rw [hw.today] at h
    refine (meets_saveContent place c).imp fun _ u hu => ?_
    obtain ⟨normal, hnormal, rfl⟩ := hu
    rw [mapEntry_of_some he, mapEntry_of_some he, DateChange.onEntry, h]
    simp only [hnormal]
  have hcontents := meets_contents (fun w => change.transform w.today)
    (fun e he => DateChange.plain_onEntry hchange hfavorites he) hkeep hwrite places ht
  refine meets_bind hcontents fun found u hu => meets_pure ?_
  exact ⟨congrArg (restoreDates change) hu.1, hu.2⟩

theorem batched_changeTags {change : TagChange}
    (hchange : ∀ tag, change = .append tag → Tag.isName tag = true) :
    Batched k (changeTags change)
      (fun found => restoreTags change (found.map FoundEntry.contentOnly)) change.onEntry
      Entry.withContent where
  plain _ he := TagChange.plain_onEntry hchange he
  plain_back _ _ ha hb := ha.withContent hb
  last _ _ _ := rfl
  there places _ ht := leads_changeTags hchange places ht
  back found t := by
    refine meets_bind (meets_restoreContents found t) fun places u hu => meets_pure ?_
    exact ⟨congrArg (changeTags change) hu.1, hu.2⟩
  goes _ := goes_bind (goes_restoreContents _) fun _ => goes_pure _

theorem appendTag_eq_changeTags {tag : Text} (h : Tag.isName tag = true) :
    appendTag tag = changeTags (.append tag) := by
  unfold appendTag
  rw [Tag.bareName_of_isName h]

theorem batched_changeDates {change : DateChange} (hchange : change ≠ .remove)
    (hfavorites : ∀ f ∈ k.settings.favorites, '\n' ∉ f.2) :
    Batched k (changeDates change)
      (fun found => restoreDates change (found.map FoundEntry.contentOnly)) (change.onEntry k)
      Entry.withContent where
  plain _ he := DateChange.plain_onEntry hchange hfavorites he
  plain_back _ _ ha hb := ha.withContent hb
  last _ _ _ := rfl
  there places _ ht := leads_changeDates hchange hfavorites places ht
  back found t := by
    refine meets_bind (meets_restoreContents found t) fun places u hu => meets_pure ?_
    exact ⟨congrArg (changeDates change) hu.1, hu.2⟩
  goes _ := goes_bind (goes_restoreContents _) fun _ => goes_pure _

end Batches

/-! ## Entries that are deleted or moved -/

theorem leads_delete (places : List Address) (t : Text) :
    Leads k (delete places) t
      (restoreDeleted ((Deletion.mk t [] []).run (Address.lastFirst places)).deleted
        ((Deletion.mk t [] []).run (Address.lastFirst places)).days)
      ((Deletion.mk t [] []).run (Address.lastFirst places)).text := by
  refine meets_bind (meets_deleteEntries (Address.lastFirst places) ⟨t, [], []⟩)
    fun r u hu => meets_pure ?_
  obtain ⟨rfl, rfl⟩ := hu
  exact ⟨rfl, rfl⟩

theorem goes_delete (places : List Address) : Goes (delete places).perform :=
  goes_bind (goes_deleteEntries _ [] []) fun _ => goes_pure _

theorem goes_restoreDeleted (deleted : List FoundEntry) (days : List (Date × Text)) :
    Goes (restoreDeleted deleted days).perform :=
  goes_bind (goes_forM fun d => goes_restoreDay d.1 d.2) fun _ => goes_pure _

theorem leads_putDays (deleted : List FoundEntry) (days : List (Date × Text)) (t : Text) :
    Leads k (restoreDeleted deleted days) t (delete (deleted.map FoundEntry.place))
      (putDays (sortBy (fun a b => a.1 < b.1) days) t) :=
  meets_bind (meets_restoreDays _ _) fun _ _ hu => meets_pure ⟨rfl, hu⟩

theorem leads_restoreDeleted (ht : PlainDocument t) (places : List Address) :
    let s := (Deletion.mk t [] []).run places
    Leads k (restoreDeleted s.deleted s.days) s.text
      (delete (s.deleted.map FoundEntry.place)) t := by
  intro s
  have hback := leads_putDays (k := k) s.deleted s.days s.text
  have hfrom : s.From t := Deletion.from_run ht.canonical.dated places
  rwa [ht.putDays_of_from hfrom (Deletion.plain_run ht places) fun d => mem_sortBy] at hback

theorem reversible_delete (ht : PlainDocument t) (places : List Address) :
    Reversible k (delete places) t := by
  have hagain := leads_delete (k := k)
    (((Deletion.mk t [] []).run (Address.lastFirst places)).deleted.map FoundEntry.place) t
  rw [Deletion.run_deleted] at hagain
  exact (leads_delete places t).reversible (Deletion.plain_run ht (Address.lastFirst places))
    ⟨hagain, leads_restoreDeleted ht (Address.lastFirst places)⟩

theorem reversible_move {place : Address} {day : Date} (ht : PlainDocument t)
    (late : 1000 ≤ day.year) : Reversible k (move place day) t := by
  cases hold : entryIn t place with
  | none =>
      refine meets_bind (meets_dayText place.day) fun before u hu => ?_
      obtain ⟨rfl, rfl⟩ := hu
      refine meets_bind (meets_delete place) fun e? u' hu => ?_
      obtain ⟨rfl, -⟩ := hu
      rw [hold]
      exact meets_throw
  | some e =>
      have hlate := ht.late_of_entryIn hold
      have hlines : ∀ l ∈ Line.remove (dayLines t place.day) place.line, l.Plain :=
        fun l hl => ht.plain_dayLines l (Line.mem_of_mem_remove hl)
      -- There and back lead through the document without the entry.
      have hbetween : PlainDocument (removeLine t place) := ht.setLines hlate hlines
      have he : ∀ x ∈ [e], x.Plain := by simpa using ht.plain_of_entryIn hold
      obtain ⟨index, hindex⟩ : ∃ index, index = (dayLines (removeLine t place) day).length :=
        ⟨_, rfl⟩
      have fits : Fits (removeLine t place) ⟨day, index⟩ := ⟨late, by simp, by simp [hindex]⟩
      have hthere : Leads k (move place day) t (moveBack place (dayText t place.day) ⟨day, index⟩)
          (putEntries (removeLine t place) ⟨day, index⟩ [e]) := by
        refine meets_bind (meets_dayText place.day) fun before u hu => ?_
        obtain ⟨rfl, rfl⟩ := hu
        refine meets_bind (meets_delete place) fun e? u' hu => ?_
        obtain ⟨rfl, rfl⟩ := hu
        rw [hold]
        refine meets_bind (meets_append day [e]) fun index' u'' hu => meets_pure ?_
        obtain ⟨rfl, rfl⟩ := hu
        rw [if_neg (by simp), putEntries, linesWith_eq_append (by rw [hindex]), hindex]
        exact ⟨rfl, rfl⟩
      have hback : Leads k (moveBack place (dayText t place.day) ⟨day, index⟩)
          (putEntries (removeLine t place) ⟨day, index⟩ [e]) (move place day) t := by
        obtain ⟨hentry, hremove⟩ := hbetween.takeOut_putEntries fits (he e (by simp))
        refine meets_bind (meets_delete ⟨day, index⟩) fun e? u hu => ?_
        obtain ⟨rfl, rfl⟩ := hu
        refine meets_bind (meets_restoreDay _ _) fun _ u hu => meets_pure ⟨rfl, ?_⟩
        rw [hu, hentry, if_neg (by simp), hremove, ht.updateDay_dayText]
        apply ht.setLines_dayLines hbetween hlate
        intro other hother
        rw [dayLines, removeLine, dayText_setLines_of_ne hlate hlines hother]
        rfl
      exact hthere.reversible (hbetween.putEntries fits he) ⟨hthere, hback⟩

end Action

end DayJournal

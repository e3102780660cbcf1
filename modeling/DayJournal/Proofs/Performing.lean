import DayJournal.Proofs.Batch
import DayJournal.Proofs.Deletion
import DayJournal.Proofs.Effects

/-!
# Changes of several entries

What the changes do to the journal that an action makes on the entries at several places: they are
the batches and deletions of documents.
-/

namespace DayJournal

open Text Document Change

def FoundEntry.contentOnly (x : FoundEntry) : FoundContent := ⟨x.place, x.entry.content⟩

namespace Entry

def withContent (found e : Entry) : Entry := { e with content := found.content }

def withKind (found e : Entry) : Entry :=
  { e with kind := found.kind, completed := found.completed }

theorem Plain.toggled {e : Entry} (h : e.Plain) : e.toggled.Plain := by
  unfold Entry.toggled
  split
  · next hkind => exact ⟨h.content, fun _ => hkind⟩
  · exact h

theorem Plain.cycled {e : Entry} (h : e.Plain) : e.cycled.Plain :=
  ⟨h.content, fun hcompleted => by cases hcompleted⟩

theorem Plain.withContent {a b : Entry} (ha : a.Plain) (hb : b.Plain) : (a.withContent b).Plain :=
  ⟨ha.content, hb.completed⟩

theorem Plain.withKind {a b : Entry} (ha : a.Plain) (hb : b.Plain) : (a.withKind b).Plain :=
  ⟨hb.content, ha.completed⟩

theorem toggled_involutive : Function.Involutive toggled := by
  rintro ⟨kind, content, completed⟩
  cases kind <;> simp [toggled]

end Entry

namespace Change

variable {k : Surroundings} {t : Text} {f : Entry → Entry}

/-- Contents that are changed one after the other are a batch, if each write makes of its entry
what the batch makes of it. -/
theorem meets_contents (transform : Workspace → Text → Except Fault (Option Text))
    {write : Address → Text → Change Unit} (hf : ∀ e, e.Plain → (f e).Plain)
    (hkeep : ∀ w e, w.In k → transform w e.content = .ok none → f e = e)
    (hwrite : ∀ w e c t place, w.In k → transform w e.content = .ok (some c) →
      entryIn t place = some e → Meets k (write place c) t fun _ u => u = mapEntry t place f)
    (places : List Address) (ht : PlainDocument t) :
    Meets k (contents transform write places) t fun found u =>
      found = (capture f places t).map FoundEntry.contentOnly ∧ u = batch f places t := by
  induction places generalizing t with
  | nil => exact meets_pure ⟨rfl, rfl⟩
  | cons place more ih =>
      unfold contents
      refine meets_bind (meets_entry place) fun e? u hu => ?_
      obtain ⟨rfl, rfl⟩ := hu
      cases he : entryIn u place with
      | none =>
          rw [capture_cons_of_none he, batch_cons, mapEntry_of_none he]
          exact ih ht
      | some e =>
          rw [capture_cons_of_some he, batch_cons]
          have hnext : Meets k (do return ⟨place, e.content⟩ :: (← contents transform write more))
              (mapEntry u place f) fun found u' =>
                found = (⟨place, e⟩ :: capture f more (mapEntry u place f)).map
                  FoundEntry.contentOnly ∧ u' = batch f more (mapEntry u place f) := by
            refine meets_bind (ih (ht.mapEntry hf place)) fun found u' hu' => ?_
            obtain ⟨rfl, rfl⟩ := hu'
            exact meets_pure ⟨rfl, rfl⟩
          -- `transform` may look at the workspace, so the rest is about the one that it was given.
          have hread : Meets k (single fun w => (transform w e.content).map (·, w)) u fun t? u' =>
              u' = u ∧ ∃ w : Workspace, w.In k ∧ transform w e.content = .ok t? := by
            apply meets_single
            intro w t? w' hw hwu h
            obtain ⟨t?', ht?, heq⟩ := map_eq_ok.1 h
            cases heq
            exact ⟨hw, hwu, w, hw, ht?⟩
          refine meets_bind hread fun t? u' hu' => ?_
          obtain ⟨rfl, w, hw, ht?⟩ := hu'
          cases t? with
          | none =>
              have hsame : mapEntry u' place f = u' := ht.mapEntry_of_eq he (hkeep w e hw ht?)
              rw [hsame] at hnext ⊢
              exact hnext
          | some c =>
              refine meets_bind (hwrite w e c u' place hw ht? he) fun _ u'' hu'' => ?_
              subst hu''
              exact hnext

theorem meets_restoreContents (found : List FoundEntry) (t : Text) :
    Meets k (restoreContents (found.map FoundEntry.contentOnly)) t fun places u =>
      places = found.map FoundEntry.place ∧ u = putBack Entry.withContent found t := by
  have hone : ∀ x ∈ found.map FoundEntry.contentOnly, ∀ t,
      Meets k (do persist x.place x.content; return x.place) t fun place u =>
        place = x.place ∧ u = mapEntry t x.place fun e => { e with content := x.content } := by
    intro x _ t
    exact meets_bind (meets_persist x.place x.content) fun _ u hu => meets_pure ⟨rfl, hu⟩
  refine (meets_mapM hone t).imp fun places u h => ?_
  rwa [List.map_map, List.foldl_map] at h

theorem meets_cycleKinds (places : List Address) (t : Text) :
    Meets k (Change.cycleKinds places) t fun found u =>
      found = capture Entry.cycled places t ∧ u = batch Entry.cycled places t := by
  induction places generalizing t with
  | nil => exact meets_pure ⟨rfl, rfl⟩
  | cons place more ih =>
      unfold Change.cycleKinds
      refine meets_bind (meets_entry place) fun e? u hu => ?_
      obtain ⟨rfl, rfl⟩ := hu
      cases he : entryIn u place with
      | none =>
          rw [capture_cons_of_none he, batch_cons, mapEntry_of_none he]
          exact ih u
      | some e =>
          rw [capture_cons_of_some he, batch_cons]
          refine meets_bind (meets_changeEntry place Entry.cycled) fun _ u' hu' => ?_
          subst hu'
          refine meets_bind (ih _) fun found u'' hu'' => ?_
          obtain ⟨rfl, rfl⟩ := hu''
          exact meets_pure ⟨rfl, rfl⟩

theorem meets_restoreKinds (found : List FoundEntry) (t : Text) :
    Meets k (found.forM fun f => single (Workspace.changeEntry f.place fun e =>
      { e with kind := f.entry.kind, completed := f.entry.completed })) t fun _ u =>
      u = putBack Entry.withKind found t :=
  meets_forM (fun x _ _ => meets_changeEntry x.place _) t

theorem meets_toggle (places : List Address) (t : Text) :
    Meets k (places.forM fun place => single (Workspace.changeEntry place Entry.toggled)) t
      fun _ u => u = batch Entry.toggled places t :=
  meets_forM (fun place _ _ => meets_changeEntry place _) t

theorem meets_deleteEntries (places : List Address) (s : Deletion) :
    Meets k (deleteEntries places s.deleted s.days) s.text fun r u =>
      r = ((s.run places).deleted, (s.run places).days) ∧ u = (s.run places).text := by
  induction places generalizing s with
  | nil => exact meets_pure ⟨rfl, rfl⟩
  | cons place more ih =>
      unfold deleteEntries
      refine meets_bind (meets_dayText place.day) fun before u hu => ?_
      obtain ⟨rfl, rfl⟩ := hu
      refine meets_bind (meets_delete place) fun e? u hu => ?_
      obtain ⟨rfl, rfl⟩ := hu
      have hrun : s.run (place :: more) = (s.step place).run more := rfl
      cases he : entryIn s.text place with
      | none =>
          rw [hrun, Deletion.step_of_none he]
          exact ih s
      | some e =>
          have hmore := ih (s.step place)
          rw [hrun]
          rw [Deletion.step, he] at hmore ⊢
          exact hmore

theorem meets_restoreDays (days : List (Date × Text)) (t : Text) :
    Meets k (days.forM fun (day, content) => single (Workspace.restoreDay day content)) t
      fun _ u => u = putDays days t :=
  meets_forM (fun d _ _ => meets_restoreDay d.1 d.2) t

/-! ## Changes of several entries that cannot fail -/

theorem goes_deleteEntries (places : List Address) (deleted : List FoundEntry)
    (days : List (Date × Text)) : Goes (deleteEntries places deleted days) := by
  induction places generalizing deleted days with
  | nil => exact goes_pure _
  | cons place more ih =>
      refine goes_bind (fun w hw => ⟨_, w, rfl, hw⟩) fun before => ?_
      refine goes_bind (goes_delete place) fun e? => ?_
      cases e? with
      | none => exact ih deleted days
      | some e => exact ih _ _

theorem goes_cycleKinds (places : List Address) : Goes (Change.cycleKinds places) := by
  induction places with
  | nil => exact goes_pure _
  | cons place more ih =>
      refine goes_bind (fun w hw => ⟨_, w, rfl, hw⟩) fun e? => ?_
      cases e? with
      | none => exact ih
      | some e =>
          exact goes_bind (goes_changeEntry place _) fun _ => goes_bind ih fun _ => goes_pure _

theorem goes_persisted (transform : Text → Option Text) (places : List Address) :
    Goes (contents (fun _ content => .ok (transform content)) Change.persist places) := by
  induction places with
  | nil => exact goes_pure _
  | cons place more ih =>
      refine goes_bind (fun w hw => ⟨_, w, rfl, hw⟩) fun e? => ?_
      cases e? with
      | none => exact ih
      | some e =>
          have hrest : Goes (do
              return FoundContent.mk place e.content ::
                (← contents (fun _ content => .ok (transform content)) Change.persist more)) :=
            goes_bind ih fun _ => goes_pure _
          refine goes_bind (fun w hw => ⟨transform e.content, w, rfl, hw⟩) fun t? => ?_
          cases t? with
          | none => exact hrest
          | some content => exact goes_bind (goes_changeEntry place _) fun _ => hrest

end Change

end DayJournal

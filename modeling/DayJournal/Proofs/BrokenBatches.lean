import DayJournal.Proofs.CoherentRuns
import DayJournal.Proofs.Refusals

/-!
# Batches of date changes that break off

A batch changes its entries one after the other.  All its locations are checked before the first
change, so a batch that is refused has done nothing; but when the date of an entry cannot be changed
the entries before it have their new dates already, and nothing of that is in the history.  What is
left is the journal as the same batch leaves it that ends before that entry.
-/

namespace DayJournal

open Text Document

namespace Change

variable {α β : Type} {w w' : Workspace} {e : Fault}
  {transform : Workspace → Text → Except Fault (Option Text)} {write : Address → Text → Change Unit}

/-! ## Changes that are made as a whole or not at all -/

/-- When the change fails, the workspace is as it was. -/
def Whole (c : Change α) : Prop := ∀ w e w', c.run w = (.error e, w') → w' = w

theorem whole_pure (a : α) : Whole (pure a) := by
  intro w e w' h
  cases h

theorem whole_single (f : Workspace → Except Fault (α × Workspace)) : Whole (single f) := by
  intro w e w' h
  cases hf : f w with
  | error e' =>
      rw [run_single_error hf] at h
      exact (congrArg Prod.snd h).symm
  | ok r =>
      rw [run_single hf] at h
      cases h

theorem whole_bind {c : Change α} {f : α → Change β} (hc : Whole c)
    (hf : ∀ a w, ∃ b w', (f a).run w = (.ok b, w')) : Whole (c >>= f) := by
  intro w e w' h
  cases hrun : c.run w with
  | mk result w₁ =>
      cases result with
      | error e' =>
          rw [run_bind_error hrun] at h
          cases h
          exact hc w e w' hrun
      | ok a =>
          obtain ⟨b, w₂, hok⟩ := hf a w₁
          rw [run_bind_ok hrun, hok] at h
          cases h

theorem whole_bind_of_still {c : Change α} {f : α → Change β}
    (hc : ∀ w, (c.run w).2 = w) (hf : ∀ a, Whole (f a)) : Whole (c >>= f) := by
  intro w e w' h
  have hstill := hc w
  cases hrun : c.run w with
  | mk result w₁ =>
      rw [hrun] at hstill
      obtain rfl : w₁ = w := hstill
      cases result with
      | error e' =>
          rw [run_bind_error hrun] at h
          exact (congrArg Prod.snd h).symm
      | ok a =>
          rw [run_bind_ok hrun] at h
          exact hf a w₁ e w' h

theorem still_asked (f : Workspace → Except Fault α) (w : Workspace) :
    ((single fun w => (f w).map (·, w)).run w).2 = w := by
  cases h : f w with
  | error e =>
      have hrun : (f w).map (·, w) = .error e := by rw [h]; rfl
      rw [run_single_error hrun]
  | ok a =>
      have hrun : (f w).map (·, w) = .ok (a, w) := by rw [h]; rfl
      rw [run_single hrun]

theorem whole_saveContent (place : Address) (content : Text) : Whole (saveContent place content) :=
  whole_bind (whole_single _) fun _ w => ⟨(), w, rfl⟩

theorem whole_contents_singleton (hwrite : ∀ place content, Whole (write place content))
    (place : Address) : Whole (contents transform write [place]) := by
  refine whole_bind_of_still (fun _ => rfl) fun e? => ?_
  cases e? with
  | none => exact whole_pure []
  | some e =>
      refine whole_bind_of_still (still_asked fun w => transform w e.content) fun t? => ?_
      cases t? with
      | none => exact whole_pure [FoundContent.mk place e.content]
      | some content =>
          exact whole_bind (hwrite place content) fun _ w => ⟨[⟨place, e.content⟩], w, rfl⟩

/-! ## Batches turn by turn -/

theorem contents_cons (place : Address) (more : List Address) :
    contents transform write (place :: more) = (do
      let first ← contents transform write [place]
      let rest ← contents transform write more
      pure (first ++ rest)) := by
  simp only [contents, bind_assoc]
  refine bind_congr fun e? => ?_
  cases e? with
  | none => simp
  | some e =>
      simp only [bind_assoc]
      refine bind_congr fun t? => ?_
      cases t? <;> simp

/-- A batch that fails comes to an end at some place: the turns before it have been taken, and the
turn at that place changes nothing. -/
theorem contents_breaks_off (hwrite : ∀ place content, Whole (write place content))
    {places : List Address} (h : (contents transform write places).run w = (.error e, w')) :
    ∃ done place rest found, places = done ++ place :: rest ∧
      (contents transform write done).run w = (.ok found, w') ∧
      (contents transform write [place]).run w' = (.error e, w') := by
  induction places generalizing w with
  | nil => cases h
  | cons place more ih =>
      rw [contents_cons] at h
      cases hfirst : (contents transform write [place]).run w with
      | mk result w₁ =>
          cases result with
          | error e' =>
              rw [run_bind_error hfirst] at h
              cases h
              obtain rfl := whole_contents_singleton hwrite place w e w' hfirst
              exact ⟨[], place, more, [], rfl, rfl, hfirst⟩
          | ok first =>
              rw [run_bind_ok hfirst] at h
              cases hmore : (contents transform write more).run w₁ with
              | mk result w₂ =>
                  cases result with
                  | ok found =>
                      rw [run_bind_ok hmore] at h
                      cases h
                  | error e' =>
                      rw [run_bind_error hmore] at h
                      cases h
                      obtain ⟨done, last, rest, found, rfl, hdone, hlast⟩ := ih hmore
                      refine ⟨place :: done, last, rest, first ++ found, rfl, ?_, hlast⟩
                      rw [contents_cons, run_bind_ok hfirst, run_bind_ok hdone]
                      rfl

/-! ## The displayed day -/

theorem day_refreshAfter (day : Date) (w : Workspace) : (w.refreshAfter day).day = w.day := by
  have hfilter : ∀ v : Workspace, v.refreshFilter.day = v.day := by
    intro v
    unfold Workspace.refreshFilter
    split <;> rfl
  rw [Workspace.refreshAfter, hfilter]
  show (if day = w.day then w.reloadDay else w).day = w.day
  split <;> rfl

theorem day_of_saveContent {place : Address} {content new : Text}
    (h : w.saveContent place content = .ok (new, w')) : w'.day = w.day := by
  obtain ⟨normal, -, h⟩ := bind_eq_ok.1 h
  obtain ⟨⟨_, w₁⟩, hpersist, h⟩ := bind_eq_ok.1 h
  cases h
  obtain ⟨⟨_, w₂⟩, hchange, heq⟩ := map_eq_ok.1 hpersist
  cases heq
  obtain ⟨⟨_, j⟩, -, heq⟩ := map_eq_ok.1 hchange
  cases heq
  exact day_refreshAfter place.day { w with journal := j }

theorem safe_contents {I : Workspace → Prop} {places : List Address}
    (hwrite : ∀ place ∈ places, ∀ w e content, I w → w.journal.entry? place = some e →
      transform w e.content = .ok (some content) →
        Safe I (write place content) w fun _ _ => True)
    (hw : I w) : Safe I (contents transform write places) w fun _ _ => True := by
  induction places generalizing w with
  | nil => exact Safe.pure hw trivial
  | cons place more ih =>
      obtain ⟨hplace, hmore⟩ := List.forall_mem_cons.1 hwrite
      have hrest : ∀ (x : FoundContent) w, I w →
          Safe I (do return x :: (← contents transform write more)) w fun _ _ => True :=
        fun x w hw => Safe.bind (ih hmore hw) fun _ _ hw' _ => Safe.pure hw' trivial
      have hentry : Safe I (Change.entry? place) w fun e? w' => e? = w'.journal.entry? place := by
        refine ⟨hw, fun e? he? => ?_⟩
        cases he?
        rfl
      refine Safe.bind hentry fun e? w₁ hw₁ he? => ?_
      cases e? with
      | none => exact ih hmore hw₁
      | some e =>
          have hask : Safe I (single fun w => (transform w e.content).map (·, w)) w₁
              fun t? w' => w' = w₁ ∧ transform w₁ e.content = .ok t? := by
            cases ht : transform w₁ e.content with
            | error e' =>
                have hrun : (transform w₁ e.content).map (·, w₁) = .error e' := by rw [ht]; rfl
                rw [Safe, run_single_error hrun]
                exact ⟨hw₁, fun _ h => by cases h⟩
            | ok t? =>
                have hrun : (transform w₁ e.content).map (·, w₁) = .ok (t?, w₁) := by rw [ht]; rfl
                rw [Safe, run_single hrun]
                refine ⟨hw₁, fun _ h => ?_⟩
                cases h
                exact ⟨rfl, rfl⟩
          refine Safe.bind hask fun t? w₂ hw₂ ht? => ?_
          obtain ⟨rfl, ht?⟩ := ht?
          cases t? with
          | none => exact hrest _ w₂ hw₂
          | some content =>
              exact Safe.bind (hplace w₂ e content hw₂ he?.symm ht?) fun _ w₃ hw₃ _ =>
                hrest _ w₃ hw₃

theorem safe_single {I : Workspace → Prop} {f : Workspace → Except Fault (α × Workspace)}
    (hf : ∀ a w', f w = .ok (a, w') → I w') (hw : I w) :
    Safe I (single f) w fun _ _ => True := by
  cases h : f w with
  | error e =>
      rw [Safe, run_single_error h]
      exact ⟨hw, fun _ _ => trivial⟩
  | ok r =>
      rw [Safe, run_single h]
      exact ⟨hf r.1 r.2 h, fun _ _ => trivial⟩

theorem safe_saveContent {I : Workspace → Prop} {place : Address} {content : Text}
    (hf : ∀ new w', w.saveContent place content = .ok (new, w') → I w') (hw : I w) :
    Safe I (saveContent place content) w fun _ _ => True :=
  Safe.bind (safe_single hf hw) fun _ _ hw' _ => Safe.pure hw' trivial

end Change

namespace Session

variable {s s' : Session} {e : Fault} {check : Row → Except Fault Unit}

theorem checked_congr {v w : Workspace} (hcheck : ∀ r : Row, r.origin = .home → check r = .ok ())
    (hday : v.day = w.day) (location : Location) :
    v.checked check location = w.checked check location := by
  have hdaily : ∀ (u : Workspace) line, u.checked check (.daily line) = .ok ⟨u.day, line⟩ := by
    intro u line
    simp only [Workspace.checked, Workspace.rowAt?]
    cases u.journal.entry? ⟨u.day, line⟩ with
    | none => rfl
    | some e =>
        show (check ⟨e, u.day, line, .home⟩ >>= fun _ => pure _) = _
        rw [hcheck _ rfl]
        rfl
  cases location with
  | daily line => rw [hdaily, hdaily, hday]
  | shown row => rfl
  | place address => rfl

theorem checked_ensureDateOperable {v w : Workspace} (hday : v.day = w.day) (location : Location) :
    v.checked Row.ensureDateOperable location = w.checked Row.ensureDateOperable location := by
  refine checked_congr (fun r hr => ?_) hday location
  rw [Row.ensureDateOperable, hr]

abbrev datesAt (change : DateChange) (places : List Address) : Change (List FoundContent) :=
  Change.contents (fun w => change.transform w.today) Change.saveContent places

section Dates

variable {change : DateChange} {locations : List Location} {places : List Address}
  {found : List FoundContent} {w : Workspace}

theorem day_of_datesAt {w' : Workspace} (h : (datesAt change places).run w = (.ok found, w')) :
    w'.day = w.day := by
  have hsafe : Safe (fun w' => w'.day = w.day) (datesAt change places) w fun _ _ => True :=
    Change.safe_contents (fun _ _ _ _ _ hw _ _ => Change.safe_saveContent
      (fun _ _ hsave => (Change.day_of_saveContent hsave).trans hw) hw) rfl
  rw [Safe, h] at hsafe
  exact hsafe.1

theorem exists_run_changeDates
    (hplaces : locations.mapM (s.workspace.checked Row.ensureDateOperable) = .ok places)
    (h : (datesAt change places).run s.workspace = (.ok found, w)) :
    ∃ answer s₁, (changeDates change locations).run s = (.ok answer, s₁) ∧ s₁.workspace = w := by
  by_cases hne : places = []
  · subst hne
    cases h
    exact ⟨none, s, (run_bind_ok (run_ask hplaces)).trans rfl, rfl⟩
  · have hperform : (Action.changeDates change places).perform.run s.workspace =
        (.ok (.restoreDates change found), w) := (run_bind_ok h).trans rfl
    obtain ⟨s₁, hrun, hworkspace, -⟩ := exists_run_recorded hperform
    exact ⟨_, s₁, (run_onAll_of_checked hplaces hne _).trans hrun, hworkspace⟩

theorem run_changeDates_error
    (hplaces : locations.mapM (s.workspace.checked Row.ensureDateOperable) = .ok places)
    (h : (datesAt change places).run s.workspace = (.error e, w)) :
    (changeDates change locations).run s = (.error e, { s with workspace := w }) := by
  have hne : places ≠ [] := by
    rintro rfl
    cases h
  have hperform : (Action.changeDates change places).perform.run s.workspace = (.error e, w) :=
    run_bind_error h
  exact (run_onAll_of_checked hplaces hne _).trans (run_execute_error hperform)

end Dates

/-- A batch of date changes that fails leaves the history, the message and the listener as they
were.  If a location was refused, all is as it was.  Otherwise all locations had passed their
checks, the journal is as the same batch leaves it that ends before some location, and from there
the change at that location alone fails and changes nothing.  So a call with one location is all or
nothing, and a call with more is so just when the part of it that was made leaves the journal as it
was. -/
theorem changeDates_breaks_off {change : DateChange} {locations : List Location}
    (h : (changeDates change locations).run s = (.error e, s')) :
    (s' = s ∧ ∃ location ∈ locations,
      s.workspace.checked Row.ensureDateOperable location = .error e) ∨
    (∀ location ∈ locations, ∃ place,
      s.workspace.checked Row.ensureDateOperable location = .ok place) ∧
    ∃ done location rest answer s₁, locations = done ++ location :: rest ∧
      (changeDates change done).run s = (.ok answer, s₁) ∧
      (changeDates change [location]).run s₁ = (.error e, s₁) ∧
      s' = { s with workspace := s₁.workspace } := by
  have hresolve : ∀ location place,
      s.workspace.checked Row.ensureDateOperable location = .ok place →
        s.workspace.resolve location = place := fun _ _ hplace => (checked_eq_ok hplace).symm
  cases hplaces : locations.mapM (s.workspace.checked Row.ensureDateOperable) with
  | error e' =>
      rw [changeDates, onAll, run_bind_error (run_ask_error hplaces)] at h
      cases h
      exact Or.inl ⟨rfl, exists_of_mapM_eq_error hplaces⟩
  | ok places =>
      obtain ⟨hchecked, rfl⟩ := (mapM_eq_ok_iff hresolve).1 hplaces
      refine Or.inr ⟨hchecked, ?_⟩
      cases hrun : (datesAt change (locations.map s.workspace.resolve)).run s.workspace with
      | mk result w =>
          cases result with
          | ok found =>
              obtain ⟨answer, s₁, hok, -⟩ := exists_run_changeDates hplaces hrun
              rw [hok] at h
              cases h
          | error e' =>
              rw [run_changeDates_error hplaces hrun] at h
              cases h
              obtain ⟨donePlaces, place, more, found, hsplit, hdone, hplace⟩ :=
                Change.contents_breaks_off Change.whole_saveContent hrun
              obtain ⟨done, tail, rfl, rfl, htail⟩ := List.map_eq_append_iff.1 hsplit
              obtain ⟨location, rest, rfl, rfl, -⟩ := List.map_eq_cons_iff.1 htail
              have hdoneChecked := (mapM_eq_ok_iff hresolve).2
                ⟨fun l hl => hchecked l (List.mem_append_left _ hl), rfl⟩
              obtain ⟨answer, s₁, hok, rfl⟩ := exists_run_changeDates hdoneChecked hdone
              refine ⟨done, location, rest, answer, s₁, rfl, hok, ?_, rfl⟩
              -- The location means the same place after the turns before it.
              have hone : [location].mapM (s₁.workspace.checked Row.ensureDateOperable) =
                  .ok [s.workspace.resolve location] := by
                obtain ⟨p, hp⟩ := hchecked location (by simp)
                rw [← hresolve location p hp] at hp
                rw [List.mapM_cons, checked_ensureDateOperable (day_of_datesAt hdone), hp]
                rfl
              exact run_changeDates_error hone hplace

/-- The second entry is on the last day there is. -/
theorem changeDates_breaks_off_of_last_day :
    let s := start ⟨"# 2026/01/05\n- [ ] a\n- [ ] b @9999/12/31\n".toList, none⟩ {}
      ⟨2026, 1, 5, by decide⟩
    let locations := [Location.daily 0, .daily 1]
    ∃ e s', (changeDates .defer locations).run s = (.error e, s') ∧
      ((s' = s ∧ ∃ location ∈ locations,
        s.workspace.checked Row.ensureDateOperable location = .error e) ∨
      (∀ location ∈ locations, ∃ place,
        s.workspace.checked Row.ensureDateOperable location = .ok place) ∧
      ∃ done location rest answer s₁, locations = done ++ location :: rest ∧
        (changeDates .defer done).run s = (.ok answer, s₁) ∧
        (changeDates .defer [location]).run s₁ = (.error e, s₁) ∧
        s' = { s with workspace := s₁.workspace }) := by
  intro s locations
  have hfails : ((changeDates .defer locations).run s).1.isOk = false := by decide +kernel
  obtain ⟨e, hrun⟩ := exists_run_error hfails
  exact ⟨e, _, hrun, changeDates_breaks_off hrun⟩

/-- The first entry keeps its new date, and there is nothing to take back. -/
theorem changed_and_not_recorded :
    let s := start ⟨"# 2026/01/05\n- [ ] a\n- [ ] b @9999/12/31\n".toList, none⟩ {}
      ⟨2026, 1, 5, by decide⟩
    ∃ e s', (changeDates .defer [.daily 0, .daily 1]).run s = (.error e, s') ∧
      e.message = "date value out of range".toList ∧
      s'.workspace.journal.text =
        "# 2026/01/05\n- [ ] a @01/06\n- [ ] b @9999/12/31\n".toList ∧
      s'.workspace.journal.text ≠ s.workspace.journal.text ∧ s'.history.undo.length = 0 := by
  intro s
  let run := (changeDates .defer [.daily 0, .daily 1]).run s
  have hfails : run.1.isOk = false := by decide +kernel
  have hmessage : (run.1.tryCatch fun e => .ok (some e.message)).toOption =
      some (some "date value out of range".toList) := by decide +kernel
  obtain ⟨e, hrun⟩ := exists_run_error hfails
  rw [show run = _ from hrun] at hmessage
  exact ⟨e, run.2, hrun, Option.some.inj (Option.some.inj hmessage), by decide +kernel⟩

end Session

end DayJournal

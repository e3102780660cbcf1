import DayJournal.Proofs.Effects

/-!
# What no change does

Three things hold of every change, however it is put together from single ones: it refuses nothing
but what it says it may refuse, it changes nothing when nothing can be written, and it does not
depend on what is shown.  `Change.Tame` says so of a change, with one rule for each way in which
changes are put together; `Action.tame_perform` is the main statement.  Only a move can be refused
once it has begun, and then nothing has been changed (`Action.perform_refused`).
-/

namespace DayJournal

/-- Whether something was refused for what was asked, and not because of the calendar or the
store. -/
def Fault.isRefusal : Fault → Bool
  | readOnly _ => true
  | nothingToMove _ => true
  | badTagName _ => true
  | unknownLocation _ => true
  | _ => false

variable {α β : Type}

/-! ## What cannot be refused -/

theorem isRefusal_of_outOfRange {o : Option α} {f : α → β} {e : Fault}
    (h : o.elim (.error .dateOutOfRange) (.ok ∘ f) = (.error e : Except Fault β)) :
    e.isRefusal = false := by
  cases o <;> cases h
  rfl

theorem isRefusal_of_resolve {today : Date} {day : RelativeDay} {e : Fault}
    (h : day.resolve today = .error e) : e.isRefusal = false := by
  -- Only a weekday can be out of reach.
  cases day with
  | weekday w side => cases side <;> exact isRefusal_of_outOfRange h
  | daysAway count side => cases side <;> cases h
  | today => cases h
  | tomorrow => cases h
  | yesterday => cases h

theorem isRefusal_of_ofToken {outlook : Outlook} {today : Date} {token : Text} {e : Fault}
    (h : Date.ofToken outlook today token = .error e) : e.isRefusal = false := by
  unfold Date.ofToken at h
  split at h
  · exact isRefusal_of_resolve h
  · split at h
    · cases h
      rfl
    · cases h

theorem isRefusal_of_absoluteFor {today : Date} {found token : Text} {e : Fault}
    (h : DateMark.absoluteFor today found token = .error e) : e.isRefusal = false := by
  rcases bind_eq_error.1 h with h | ⟨d?, -, h⟩
  · exact isRefusal_of_ofToken h
  · cases d? <;> cases h

theorem isRefusal_of_normalize {today : Date} {content : Text} {e : Fault}
    (h : DateMark.normalize content today = .error e) : e.isRefusal = false := by
  rcases bind_eq_error.1 h with h | ⟨parts, -, h⟩
  · obtain ⟨segment, -, hsegment⟩ := exists_of_mapM_eq_error h
    cases segment with
    | other c => cases hsegment
    | found text token => exact isRefusal_of_absoluteFor hsegment
  · cases h

theorem isRefusal_of_nextDay {d : Date} {e : Fault} (h : DateMark.nextDay d = .error e) :
    e.isRefusal = false := isRefusal_of_outOfRange (f := id) h

theorem DateChange.isRefusal_of_transform {change : DateChange} {today : Date} {content : Text}
    {e : Fault} (h : change.transform today content = .error e) : e.isRefusal = false := by
  cases change with
  | defer =>
      have hdefer := map_eq_error.1 h
      unfold DateMark.defer at hdefer
      split at hdefer
      · exact isRefusal_of_nextDay (map_eq_error.1 hdefer)
      · exact isRefusal_of_nextDay (map_eq_error.1 hdefer)
  | remove => cases h
  | bringToToday => cases h

/-! ## Changes of the journal -/

namespace Journal

/-- The only obstacle for the change is that nothing can be written. -/
structure Tame (change : Journal → Except Fault (α × Journal)) : Prop where
  fault : ∀ j e, change j = .error e → e = .notWritable
  locked : ∀ j a j', j.writesLeft = some 0 → change j = .ok (a, j') → j' = j

theorem tame_save (text : Journal → Text) (answer : Journal → α) :
    Tame fun j => (j.save (text j)).map fun j' => (answer j, j') where
  fault j e h := by
    unfold save at h
    split at h <;> cases h
    rfl
  locked j a j' hj h := by
    rw [save, hj] at h
    cases h

theorem tame_changeEntry (place : Address) (f : Entry → Entry) : Tame (changeEntry place f) where
  fault j e h := by
    simp only [changeEntry] at h
    split at h
    · cases h
    · next old _ => exact (tame_save (fun _ => _) fun _ => some (f old)).fault j e h
  locked j a j' hj h := by
    simp only [changeEntry] at h
    split at h
    · cases h
      rfl
    · next old _ => exact (tame_save (fun _ => _) fun _ => some (f old)).locked j a j' hj h

end Journal

/-! ## Changes of the workspace in one go -/

namespace Workspace

/-- The workspaces differ in nothing but what is shown. -/
structure Akin (v w : Workspace) : Prop where
  journal : v.journal = w.journal
  settings : v.settings = w.settings
  today : v.today = w.today

theorem Akin.refl (w : Workspace) : w.Akin w := ⟨rfl, rfl, rfl⟩

theorem Akin.symm {v w : Workspace} (h : v.Akin w) : w.Akin v :=
  ⟨h.journal.symm, h.settings.symm, h.today.symm⟩

theorem Akin.trans {u v w : Workspace} (huv : u.Akin v) (hvw : v.Akin w) : u.Akin w :=
  ⟨huv.journal.trans hvw.journal, huv.settings.trans hvw.settings, huv.today.trans hvw.today⟩

theorem akin_refreshAfter (day : Date) (w : Workspace) : (w.refreshAfter day).Akin w :=
  ⟨(journal_refreshAfter day w).1, (journal_refreshAfter day w).2.1,
    (journal_refreshAfter day w).2.2⟩

theorem akin_refreshAll (w : Workspace) : w.refreshAll.Akin w := by
  obtain ⟨hjournal, hsettings, htoday⟩ := journal_refreshFilter w.reloadDay.refreshProjected
  exact ⟨hjournal, hsettings, htoday⟩

/-- What is read off a workspace that refuses nothing and does not depend on what is shown. -/
structure TameReading (f : Workspace → Except Fault α) : Prop where
  fault : ∀ w e, f w = .error e → e.isRefusal = false
  blind : ∀ v w, v.Akin w → f v = f w

theorem tameReading_normalize (content : Text) : TameReading (normalize content) where
  fault w e h := isRefusal_of_normalize (map_eq_error.1 h)
  blind v w h := by rw [normalize, normalize, h.settings, h.today]

/-- The same answer with workspaces that differ in nothing but what is shown, or the same fault. -/
def SameOutcome : Except Fault (α × Workspace) → Except Fault (α × Workspace) → Prop
  | .ok (a, v), .ok (b, w) => a = b ∧ v.Akin w
  | .error e, .error e' => e = e'
  | _, _ => False

/-- The change refuses nothing, changes nothing when nothing can be written, and does not depend
on what is shown. -/
structure Tame (f : Workspace → Except Fault (α × Workspace)) : Prop where
  fault : ∀ w e, f w = .error e → e.isRefusal = false
  locked : ∀ w a w', w.journal.writesLeft = some 0 → f w = .ok (a, w') → w'.Akin w
  blind : ∀ v w, v.Akin w → SameOutcome (f v) (f w)

theorem tame_ok (a : α) : Tame fun w => .ok (a, w) where
  fault w e h := by cases h
  locked w b w' _ h := by
    cases h
    exact Akin.refl w
  blind v w h := ⟨rfl, h⟩

theorem Tame.after {f : Workspace → Except Fault α}
    {g : α → Workspace → Except Fault (β × Workspace)} (hf : TameReading f)
    (hg : ∀ a, Tame (g a)) : Tame fun w => f w >>= fun a => g a w where
  fault w e h := by
    rcases bind_eq_error.1 h with h | ⟨a, -, h⟩
    · exact hf.fault w e h
    · exact (hg a).fault w e h
  locked w b w' hw h := by
    obtain ⟨a, -, h⟩ := bind_eq_ok.1 h
    exact (hg a).locked w b w' hw h
  blind v w h := by
    simp only [hf.blind v w h]
    cases f w with
    | error e => rfl
    | ok a => exact (hg a).blind v w h

theorem tame_reading {f : Workspace → Except Fault α} (hf : TameReading f) :
    Tame fun w => (f w).map (·, w) := by
  have hbind : (fun w => (f w).map (·, w)) = fun w => f w >>= fun a => .ok (a, w) := by
    funext w
    cases f w <;> rfl
  rw [hbind]
  exact Tame.after hf tame_ok

theorem Tame.map {f : Workspace → Except Fault (α × Workspace)} (hf : Tame f) (g : α → β) :
    Tame fun w => (f w).map fun r => (g r.1, r.2) where
  fault w e h := hf.fault w e (map_eq_error.1 h)
  locked w b w' hw h := by
    obtain ⟨⟨a, w''⟩, hf', heq⟩ := map_eq_ok.1 h
    cases heq
    exact hf.locked w a w'' hw hf'
  blind v w h := by
    have hsame := hf.blind v w h
    revert hsame
    cases f v <;> cases f w <;> intro hsame
    · exact hsame
    · exact hsame
    · exact hsame
    · exact ⟨congrArg g hsame.1, hsame.2⟩

theorem tame_refreshed {change : Journal → Except Fault (α × Journal)}
    (hchange : Journal.Tame change) {refresh : Workspace → Workspace}
    (hrefresh : ∀ w, (refresh w).Akin w) :
    Tame fun w => (change w.journal).map fun r => (r.1, refresh { w with journal := r.2 }) where
  fault w e h := by
    rw [hchange.fault _ _ (map_eq_error.1 h)]
    rfl
  locked w a w' hw h := by
    obtain ⟨⟨b, j⟩, hj, heq⟩ := map_eq_ok.1 h
    cases heq
    have hsame : j = w.journal := hchange.locked _ _ _ hw hj
    exact (hrefresh _).trans ⟨hsame, rfl, rfl⟩
  blind v w h := by
    rw [h.journal]
    cases change w.journal with
    | error e => rfl
    | ok r =>
        have hput : ({ v with journal := r.2 } : Workspace).Akin { w with journal := r.2 } :=
          ⟨rfl, h.settings, h.today⟩
        exact ⟨rfl, ((hrefresh _).trans hput).trans (hrefresh _).symm⟩

theorem tame_changeDay (day : Date) {change : Journal → Except Fault (α × Journal)}
    (h : Journal.Tame change) : Tame (changeDay day change) :=
  tame_refreshed h (akin_refreshAfter day)

theorem tame_changeEntry (place : Address) (f : Entry → Entry) : Tame (changeEntry place f) :=
  (tame_changeDay place.day (Journal.tame_changeEntry place f)).map fun _ => ()

theorem tame_persist (place : Address) (content : Text) : Tame (persist place content) :=
  tame_changeEntry place _

theorem tame_saveContent (place : Address) (content : Text) :
    Tame (saveContent place content) :=
  Tame.after (tameReading_normalize content) fun normal =>
    (tame_persist place normal).map fun _ => normal

theorem tame_insert (place : Address) (entries : List Entry) : Tame (insert place entries) :=
  tame_changeDay place.day (Journal.tame_save _ _)

theorem tame_append (day : Date) (entries : List Entry) : Tame (append day entries) :=
  tame_changeDay day (Journal.tame_save _ _)

theorem tame_restoreDay (day : Date) (content : Text) : Tame (restoreDay day content) :=
  tame_changeDay day
    (Journal.tame_save (fun j => Document.updateDay j.text day content) fun _ => ())

theorem tame_replaceAll (text : Text) : Tame (replaceAll text) := by
  have hrefreshed := tame_refreshed (Journal.tame_save (fun _ => text) fun _ => ()) akin_refreshAll
  have hmap : replaceAll text = fun w => ((w.journal.save text).map fun j => ((), j)).map
      fun r => (r.1, { w with journal := r.2 }.refreshAll) := by
    funext w
    rw [replaceAll]
    cases w.journal.save text <;> rfl
  rw [hmap]
  exact hrefreshed

theorem tame_delete (place : Address) : Tame (delete place) := by
  have hsome : ∀ e : Entry, Tame
      (changeDay place.day fun j => (j.deleteLine place).map fun j => (some e, j)) :=
    fun e => tame_changeDay place.day (Journal.tame_save _ _)
  refine ⟨fun w e h => ?_, fun w a w' hw h => ?_, fun v w h => ?_⟩
  · unfold delete at h
    split at h
    · cases h
    · next old _ => exact (hsome old).fault w e h
  · unfold delete at h
    split at h
    · cases h
      exact Akin.refl w
    · next old _ => exact (hsome old).locked w a w' hw h
  · unfold delete
    rw [h.journal]
    split
    · exact ⟨rfl, h⟩
    · next old _ => exact (hsome old).blind v w h

end Workspace

/-! ## Changes one after the other -/

namespace Change

open Workspace

variable {refusals : Fault → Prop}

/-- The change refuses only what it says, changes nothing when nothing can be written, and does not
depend on what is shown. -/
structure Tame (refusals : Fault → Prop) (c : Change α) : Prop where
  fault : ∀ w e, (c.run w).1 = .error e → e.isRefusal = true → refusals e
  locked : ∀ w, w.journal.writesLeft = some 0 → (c.run w).2.Akin w
  blind : ∀ v w, v.Akin w → (c.run v).1 = (c.run w).1 ∧ (c.run v).2.Akin (c.run w).2

theorem tame_pure (a : α) : Tame refusals (pure a) where
  fault w e h := by cases h
  locked w _ := Akin.refl w
  blind v w h := ⟨rfl, h⟩

theorem tame_throw {e : Fault} (he : refusals e) : Tame refusals (throw e : Change α) where
  fault w e' h _ := by
    cases h
    exact he
  locked w _ := Akin.refl w
  blind v w h := ⟨rfl, h⟩

theorem tame_read {f : Workspace → α} (hf : ∀ v w, v.Akin w → f v = f w) :
    Tame refusals (read f) where
  fault w e h := by cases h
  locked w _ := Akin.refl w
  blind v w h := ⟨congrArg Except.ok (hf v w h), h⟩

theorem tame_single {f : Workspace → Except Fault (α × Workspace)} (hf : Workspace.Tame f) :
    Tame refusals (single f) where
  fault w e h he := by
    cases hw : f w with
    | error e' =>
        rw [run_single_error hw] at h
        cases h
        rw [hf.fault w e hw] at he
        cases he
    | ok r =>
        rw [run_single hw] at h
        cases h
  locked w hlocked := by
    cases hw : f w with
    | error e =>
        rw [run_single_error hw]
        exact Akin.refl w
    | ok r =>
        rw [run_single hw]
        exact hf.locked w r.1 r.2 hlocked hw
  blind v w h := by
    have hsame := hf.blind v w h
    simp only [single, ExceptT.run_mk]
    revert hsame
    cases f v <;> cases f w <;> intro hsame
    · exact ⟨congrArg Except.error hsame, h⟩
    · exact hsame.elim
    · exact hsame.elim
    · exact ⟨congrArg Except.ok hsame.1, hsame.2⟩

theorem tame_bind {c : Change α} {f : α → Change β} (hc : Tame refusals c)
    (hf : ∀ a, Tame refusals (f a)) : Tame refusals (c >>= f) where
  fault w e h he := by
    have hfault := hc.fault w e
    rw [run_bind] at h
    rcases hrun : c.run w with ⟨_ | a, w'⟩ <;> rw [hrun] at h hfault
    · cases h
      exact hfault rfl he
    · exact (hf a).fault w' e h he
  locked w hlocked := by
    have hfirst := hc.locked w hlocked
    rw [run_bind]
    rcases hrun : c.run w with ⟨_ | a, w'⟩ <;> rw [hrun] at hfirst
    · exact hfirst
    · have hsecond := (hf a).locked w' (by rw [hfirst.journal, hlocked])
      exact hsecond.trans hfirst
  blind v w h := by
    have hfirst := hc.blind v w h
    rw [run_bind, run_bind]
    rcases hv : c.run v with ⟨r, v'⟩
    rcases hw : c.run w with ⟨r', w'⟩
    rw [hv, hw] at hfirst
    obtain ⟨rfl, hakin⟩ : r = r' ∧ v'.Akin w' := hfirst
    cases r with
    | error e => exact ⟨rfl, hakin⟩
    | ok a => exact (hf a).blind v' w' hakin

theorem tame_forM {l : List α} {f : α → Change PUnit} (hf : ∀ a, Tame refusals (f a)) :
    Tame refusals (l.forM f) := by
  induction l with
  | nil => exact tame_pure PUnit.unit
  | cons a l ih => exact tame_bind (hf a) fun _ => ih

theorem tame_mapM {l : List α} {f : α → Change β} (hf : ∀ a, Tame refusals (f a)) :
    Tame refusals (l.mapM f) := by
  induction l with
  | nil =>
      rw [List.mapM_nil]
      exact tame_pure []
  | cons a l ih =>
      rw [List.mapM_cons]
      exact tame_bind (hf a) fun b => tame_bind ih fun bs => tame_pure (b :: bs)

theorem tame_entry (place : Address) : Tame refusals (Change.entry? place) :=
  tame_read fun v w h => by rw [h.journal]

theorem tame_dayText (day : Date) :
    Tame refusals (read fun w => Document.dayText w.journal.text day) :=
  tame_read fun v w h => by rw [h.journal]

theorem tame_contents {transform : Workspace → Text → Except Fault (Option Text)}
    {write : Address → Text → Change Unit} (ht : ∀ content, TameReading (transform · content))
    (hwrite : ∀ place content, Tame refusals (write place content)) (places : List Address) :
    Tame refusals (contents transform write places) := by
  induction places with
  | nil => exact tame_pure []
  | cons place more ih =>
      unfold contents
      refine tame_bind (tame_entry place) fun e? => ?_
      cases e? with
      | none => exact ih
      | some e =>
          have hnext : Tame refusals
              (do return ⟨place, e.content⟩ :: (← contents transform write more)) :=
            tame_bind ih fun _ => tame_pure _
          refine tame_bind (tame_single (tame_reading (ht e.content))) fun t? => ?_
          cases t? with
          | none => exact hnext
          | some t => exact tame_bind (hwrite place t) fun _ => hnext

theorem tame_restoreContents (found : List FoundContent) :
    Tame refusals (restoreContents found) :=
  tame_mapM fun f => tame_bind (tame_single (tame_persist f.place f.content)) fun _ => tame_pure _

theorem tame_deleteEntries (places : List Address) (deleted : List FoundEntry)
    (days : List (Date × Text)) : Tame refusals (deleteEntries places deleted days) := by
  induction places generalizing deleted days with
  | nil => exact tame_pure (deleted, days)
  | cons place more ih =>
      unfold deleteEntries
      refine tame_bind (tame_dayText place.day) fun before => ?_
      refine tame_bind (tame_single (tame_delete place)) fun e? => ?_
      cases e? with
      | none => exact ih deleted days
      | some e => exact ih _ _

theorem tame_cycleKinds (places : List Address) : Tame refusals (Change.cycleKinds places) := by
  induction places with
  | nil => exact tame_pure []
  | cons place more ih =>
      unfold Change.cycleKinds
      refine tame_bind (tame_entry place) fun e? => ?_
      cases e? with
      | none => exact ih
      | some e =>
          refine tame_bind (tame_single (tame_changeEntry place Entry.cycled)) fun _ => ?_
          exact tame_bind ih fun found => tame_pure _

end Change

/-! ## Performing an action -/

namespace Action

open Change Workspace

/-- What can still be refused when an action has begun: a move of what is not there. -/
def refuses (a : Action) (e : Fault) : Prop :=
  ∃ place day, a = move place day ∧ e = .nothingToMove place

theorem tame_perform (a : Action) : Tame a.refuses a.perform := by
  cases a with
  | create stage place e =>
      cases stage with
      | recorded => exact tame_pure _
      | takingBack => exact tame_bind (tame_single (tame_delete place)) fun _ => tame_pure _
      | makingAgain => exact tame_bind (tame_single (tame_insert place [e])) fun _ => tame_pure _
  | paste stage start entries =>
      cases stage with
      | recorded => exact tame_pure _
      | takingBack =>
          refine tame_bind (tame_forM fun place => ?_) fun _ => tame_pure _
          exact tame_bind (tame_single (tame_delete place)) fun _ => tame_pure _
      | makingAgain =>
          exact tame_bind (tame_single (tame_insert start entries)) fun _ => tame_pure _
  | edit stage place old new =>
      cases stage with
      | recorded => exact tame_pure _
      | takingBack => exact tame_bind (tame_single (tame_persist place old)) fun _ => tame_pure _
      | makingAgain => exact tame_bind (tame_single (tame_persist place new)) fun _ => tame_pure _
  | changeDates change places =>
      have htransform : ∀ content, TameReading fun w => change.transform w.today content :=
        fun content => ⟨fun _ _ => DateChange.isRefusal_of_transform, fun _ _ h => by rw [h.today]⟩
      refine tame_bind (tame_contents htransform (fun place content => ?_) places) fun _ =>
        tame_pure _
      exact tame_bind (tame_single (tame_saveContent place content)) fun _ => tame_pure _
  | restoreDates change found =>
      exact tame_bind (tame_restoreContents found) fun _ => tame_pure _
  | changeTags change places =>
      have htransform : ∀ content, TameReading fun _ => .ok (change.transform content) :=
        fun content => ⟨fun _ _ h => (by cases h), fun _ _ _ => rfl⟩
      exact tame_bind (tame_contents htransform
        (fun place content => tame_single (tame_persist place content)) places) fun _ => tame_pure _
  | restoreTags change found =>
      exact tame_bind (tame_restoreContents found) fun _ => tame_pure _
  | delete places => exact tame_bind (tame_deleteEntries _ [] []) fun _ => tame_pure _
  | restoreDeleted deleted days =>
      exact tame_bind (tame_forM fun d => tame_single (tame_restoreDay d.1 d.2)) fun _ =>
        tame_pure _
  | move place day =>
      refine tame_bind (tame_dayText place.day) fun before => ?_
      refine tame_bind (tame_single (tame_delete place)) fun e? => ?_
      cases e? with
      | none => exact tame_throw ⟨place, day, rfl, rfl⟩
      | some e => exact tame_bind (tame_single (tame_append day [e])) fun _ => tame_pure _
  | moveBack place dayText destination =>
      refine tame_bind (tame_single (tame_delete destination)) fun _ => ?_
      exact tame_bind (tame_single (tame_restoreDay place.day dayText)) fun _ => tame_pure _
  | sweep s =>
      refine tame_bind (tame_read fun v w h => by rw [h.journal]) fun document => ?_
      exact tame_bind (tame_single (tame_replaceAll _)) fun _ => tame_pure _
  | restoreDocument document s =>
      exact tame_bind (tame_single (tame_replaceAll document)) fun _ => tame_pure _
  | cycleKinds places => exact tame_bind (tame_cycleKinds places) fun _ => tame_pure _
  | restoreKinds found =>
      exact tame_bind (tame_forM fun f => tame_single (tame_changeEntry f.place _)) fun _ =>
        tame_pure _
  | toggle places =>
      exact tame_bind (tame_forM fun place => tame_single (tame_changeEntry place Entry.toggled))
        fun _ => tame_pure _

theorem perform_refused {a : Action} {w w' : Workspace} {e : Fault}
    (h : a.perform.run w = (.error e, w')) (he : e.isRefusal = true) : w' = w := by
  obtain ⟨place, day, rfl, -⟩ := (tame_perform a).fault w e (by rw [h]) he
  rw [perform, run_bind_ok (run_read _ w), run_bind] at h
  cases hdelete : Workspace.delete place w with
  | error e' =>
      rw [run_single_error hdelete] at h
      cases h
      rfl
  | ok r =>
      obtain ⟨e?, w''⟩ := r
      rw [run_single hdelete] at h
      cases e? with
      -- Nothing was there, so nothing was deleted.
      | none =>
          cases h
          unfold Workspace.delete at hdelete
          split at hdelete
          · cases hdelete
            rfl
          · obtain ⟨⟨e?, j⟩, hj, heq⟩ := map_eq_ok.1 hdelete
            obtain ⟨j', -, heq'⟩ := map_eq_ok.1 hj
            cases heq'
            cases heq
      | some e' =>
          have htame : Tame (fun _ => False) (do
              let index ← single (Workspace.append day [e'])
              return moveBack place (Document.dayText w.journal.text place.day) ⟨day, index⟩) :=
            tame_bind (tame_single (tame_append day [e'])) fun _ => tame_pure _
          exact (htame.fault w'' e (congrArg Prod.fst h) he).elim

end Action

end DayJournal

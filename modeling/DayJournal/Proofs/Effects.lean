import DayJournal.Action.Perform
import DayJournal.Proofs.EntryMap
import DayJournal.Proofs.Insertion
import DayJournal.Proofs.Running

/-!
# What changes do to the journal

What a change does to the text of the journal, and what it answers, depends on that text, on the
settings and on the day, and not on what is shown.  `Meets k c t Q` says that the change `c`, when
it is made to a journal with the text `t` and succeeds, gives an answer and a text that satisfy `Q`.
There is one rule for each change of the workspace.
-/

namespace DayJournal

open Text Document

/-- What a change depends on apart from the journal. -/
structure Surroundings where
  settings : Settings
  today : Date

namespace Surroundings

def normalize (k : Surroundings) (content : Text) : Except Fault Text :=
  (DateMark.normalize (Shorthand.expandFavorites k.settings.favorites content) k.today).map
    Text.trimEnd

end Surroundings

namespace Workspace

structure In (k : Surroundings) (w : Workspace) : Prop where
  settings : w.settings = k.settings
  today : w.today = k.today

theorem In.normalize {k : Surroundings} {w : Workspace} (hw : w.In k) (content : Text) :
    w.normalize content = k.normalize content := by
  rw [Workspace.normalize, Surroundings.normalize, hw.settings, hw.today]

theorem trimEnd_of_normalize {w : Workspace} {content new : Text}
    (h : w.normalize content = .ok new) : trimEnd new = new := by
  obtain ⟨t, -, rfl⟩ := map_eq_ok.1 h
  exact trimEnd_trimEnd t

theorem In.surroundings_eq {k : Surroundings} {w : Workspace} (hw : w.In k) :
    (⟨w.settings, w.today⟩ : Surroundings) = k := by
  rw [hw.settings, hw.today]

theorem journal_refreshFilter (w : Workspace) :
    w.refreshFilter.journal = w.journal ∧ w.refreshFilter.settings = w.settings ∧
      w.refreshFilter.today = w.today := by
  unfold refreshFilter
  split <;> exact ⟨rfl, rfl, rfl⟩

theorem journal_refreshAfter (day : Date) (w : Workspace) :
    (w.refreshAfter day).journal = w.journal ∧ (w.refreshAfter day).settings = w.settings ∧
      (w.refreshAfter day).today = w.today := by
  unfold refreshAfter
  obtain ⟨hjournal, hsettings, htoday⟩ :=
    journal_refreshFilter (if day = w.day then w.reloadDay else w).refreshProjected
  rw [hjournal, hsettings, htoday]
  split <;> exact ⟨rfl, rfl, rfl⟩

theorem journal_showDay (day : Date) (w : Workspace) :
    (w.showDay day).journal = w.journal ∧ (w.showDay day).settings = w.settings ∧
      (w.showDay day).today = w.today := ⟨rfl, rfl, rfl⟩

theorem journal_openFilter {query : Text} {w w' : Workspace} (h : w.openFilter query = .ok w') :
    w'.journal = w.journal ∧ w'.settings = w.settings ∧ w'.today = w.today := by
  obtain ⟨filter, -, rfl⟩ := map_eq_ok.1 h
  exact journal_refreshFilter { w with view := .filtered query filter [] 0 }

theorem changeDay_eq_ok {α : Type} {day : Date} {change : Journal → Except Fault (α × Journal)}
    {w w' : Workspace} {a : α} {k : Surroundings} (hw : w.In k)
    (h : w.changeDay day change = .ok (a, w')) :
    w'.In k ∧ change w.journal = .ok (a, w'.journal) := by
  obtain ⟨⟨b, j⟩, hj, heq⟩ := map_eq_ok.1 h
  cases heq
  obtain ⟨hjournal, hsettings, htoday⟩ := journal_refreshAfter day { w with journal := j }
  exact ⟨⟨hsettings.trans hw.settings, htoday.trans hw.today⟩, by rw [hjournal, hj]⟩

end Workspace

theorem Workspace.exists_changeEntry {w : Workspace} (h : w.journal.writesLeft ≠ some 0)
    (place : Address) (f : Entry → Entry) : ∃ w', w.changeEntry place f = .ok ((), w') := by
  obtain ⟨r, hr⟩ : ∃ r, Journal.changeEntry place f w.journal = .ok r := by
    simp only [Journal.changeEntry]
    split
    · exact ⟨_, rfl⟩
    · next e he =>
      obtain ⟨j', hj'⟩ := Journal.exists_save h (updateDay w.journal.text place.day
        (Line.writeAll ((w.journal.lines place.day).set place.line.toNat (.entry (f e)))))
      rw [Journal.saveLines, Journal.saveDay, hj']
      exact ⟨_, rfl⟩
  rw [Workspace.changeEntry, Workspace.changeDay, hr]
  exact ⟨_, rfl⟩

namespace Change

variable {α β : Type} {k : Surroundings} {t u : Text} {Q : α → Text → Prop} {R : β → Text → Prop}
  {Q' : Text → Prop}

/-- A change of a journal with the text `t`, if it succeeds, leads to an answer and to a text that
satisfy `Q`. -/
def Meets (k : Surroundings) (c : Change α) (t : Text) (Q : α → Text → Prop) : Prop :=
  ∀ w, w.In k → w.journal.text = t →
    Safe (Workspace.In k) c w fun a w' => Q a w'.journal.text

theorem meets_pure {a : α} (h : Q a t) : Meets k (pure a) t Q :=
  fun _ hw ht => Safe.pure hw (by rw [ht]; exact h)

theorem meets_throw {fault : Fault} : Meets k (throw fault) t Q := fun _ hw _ => Safe.throw hw

theorem meets_bind {c : Change α} {f : α → Change β} (hc : Meets k c t Q)
    (hf : ∀ a u, Q a u → Meets k (f a) u R) : Meets k (c >>= f) t R :=
  fun w hw ht => Safe.bind (hc w hw ht) fun a w' hw' ha => hf a _ ha w' hw' rfl

theorem Meets.imp {c : Change α} {Q' : α → Text → Prop} (hc : Meets k c t Q)
    (h : ∀ a u, Q a u → Q' a u) : Meets k c t Q' :=
  fun w hw ht => (hc w hw ht).imp fun a _ _ ha => h a _ ha

theorem meets_read {f : Workspace → α} {a : α}
    (h : ∀ w, w.In k → w.journal.text = t → f w = a) :
    Meets k (read f) t fun b u => b = a ∧ u = t := by
  intro w hw ht
  refine ⟨hw, fun b hb => ?_⟩
  cases hb
  exact ⟨h w hw ht, ht⟩

theorem meets_single {f : Workspace → Except Fault (α × Workspace)}
    (h : ∀ w a w', w.In k → w.journal.text = t → f w = .ok (a, w') →
      w'.In k ∧ Q a w'.journal.text) : Meets k (single f) t Q := by
  intro w hw ht
  cases hf : f w with
  | error fault =>
      rw [Safe, run_single_error hf]
      exact ⟨hw, fun a ha => by cases ha⟩
  | ok r =>
      obtain ⟨a, w'⟩ := r
      obtain ⟨hw', ha⟩ := h w a w' hw ht hf
      rw [Safe, run_single hf]
      exact ⟨hw', fun b hb => by cases hb; exact ha⟩

theorem meets_discard {c : Change α} (hc : Meets k c t fun _ u => Q' u) :
    Meets k (discard c) t fun _ u => Q' u :=
  meets_bind hc fun _ _ h => meets_pure h

theorem meets_forM {l : List α} {f : α → Change PUnit} {step : Text → α → Text}
    (h : ∀ a ∈ l, ∀ t, Meets k (f a) t fun _ u => u = step t a) (t : Text) :
    Meets k (l.forM f) t fun _ u => u = l.foldl step t := by
  induction l generalizing t with
  | nil => exact meets_pure rfl
  | cons a l ih =>
      show Meets k (f a >>= fun _ => l.forM f) t _
      refine meets_bind (h a (by simp) t) fun _ u hu => ?_
      subst hu
      exact ih (fun b hb => h b (List.mem_cons_of_mem a hb)) (step t a)

theorem meets_mapM {l : List α} {f : α → Change β} {answer : α → β} {step : Text → α → Text}
    (h : ∀ a ∈ l, ∀ t, Meets k (f a) t fun b u => b = answer a ∧ u = step t a) (t : Text) :
    Meets k (l.mapM f) t fun bs u => bs = l.map answer ∧ u = l.foldl step t := by
  induction l generalizing t with
  | nil =>
      rw [List.mapM_nil]
      exact meets_pure ⟨rfl, rfl⟩
  | cons a l ih =>
      rw [List.mapM_cons]
      refine meets_bind (h a (by simp) t) fun b u hu => ?_
      obtain ⟨rfl, rfl⟩ := hu
      have hmore := ih (fun x hx => h x (List.mem_cons_of_mem a hx)) (step t a)
      refine meets_bind hmore fun bs u hu => ?_
      obtain ⟨rfl, rfl⟩ := hu
      exact meets_pure ⟨rfl, rfl⟩

/-! ## The single changes -/

theorem meets_entry (place : Address) :
    Meets k (Change.entry? place) t fun e? u => e? = entryIn t place ∧ u = t :=
  meets_read fun w _ ht => by rw [← ht]; rfl

theorem meets_dayText (day : Date) :
    Meets k (read fun w => dayText w.journal.text day) t fun s u => s = dayText t day ∧ u = t :=
  meets_read fun w _ ht => by rw [ht]

theorem meets_delete (place : Address) :
    Meets k (single (Workspace.delete place)) t fun e? u =>
      e? = entryIn t place ∧ u = if e? = none then t else removeLine t place := by
  apply meets_single
  intro w e? w' hw ht h
  subst ht
  unfold Workspace.delete at h
  split at h
  · next hnone =>
    cases h
    exact ⟨hw, hnone.symm, rfl⟩
  · next e he =>
    obtain ⟨hw', hj⟩ := Workspace.changeDay_eq_ok hw h
    obtain ⟨j, hdelete, heq⟩ := map_eq_ok.1 hj
    cases heq
    exact ⟨hw', he.symm, Journal.text_of_saveDay hdelete⟩

theorem meets_changeDay {day : Date} {change : Journal → Except Fault (α × Journal)}
    (h : ∀ j a j', j.text = t → change j = .ok (a, j') → Q a j'.text) :
    Meets k (single (Workspace.changeDay day change)) t Q := by
  apply meets_single
  intro w a w' hw ht hchange
  obtain ⟨hw', hj⟩ := Workspace.changeDay_eq_ok hw hchange
  exact ⟨hw', h w.journal a w'.journal ht hj⟩

theorem meets_insert (place : Address) (entries : List Entry) :
    Meets k (single (Workspace.insert place entries)) t fun positions u =>
      positions = (Line.insertEntries (dayLines t place.day) place.line entries).2 ∧
        u = setLines t place.day
          (Line.insertEntries (dayLines t place.day) place.line entries).1 := by
  refine meets_changeDay fun j positions j' ht h => ?_
  subst ht
  obtain ⟨j'', hsave, heq⟩ := map_eq_ok.1 h
  cases heq
  exact ⟨rfl, Journal.text_of_saveDay hsave⟩

theorem meets_append (day : Date) (entries : List Entry) :
    Meets k (single (Workspace.append day entries)) t fun index u =>
      index = (dayLines t day).length ∧
        u = setLines t day (dayLines t day ++ entries.map .entry) := by
  refine meets_changeDay fun j index j' ht h => ?_
  subst ht
  obtain ⟨j'', hsave, heq⟩ := map_eq_ok.1 h
  cases heq
  exact ⟨rfl, Journal.text_of_saveDay hsave⟩

theorem changeEntry_eq_ok {w w' : Workspace} {place : Address} {f : Entry → Entry} {v : Unit}
    (hw : w.In k) (h : w.changeEntry place f = .ok (v, w')) :
    w'.In k ∧ w'.journal.text = mapEntry w.journal.text place f := by
  obtain ⟨⟨e?, w''⟩, hchange, heq⟩ := map_eq_ok.1 h
  cases heq
  obtain ⟨hw', hj⟩ := Workspace.changeDay_eq_ok hw hchange
  refine ⟨hw', ?_⟩
  simp only [Journal.changeEntry] at hj
  unfold mapEntry
  split at hj
  · next hnone =>
    simp only [Except.ok.injEq, Prod.mk.injEq] at hj
    rw [show entryIn w.journal.text place = none from hnone, ← hj.2]
  · next e he =>
    obtain ⟨j, hsave, heq⟩ := map_eq_ok.1 hj
    simp only [Prod.mk.injEq] at heq
    rw [show entryIn w.journal.text place = some e from he, ← heq.2,
      Journal.text_of_saveDay hsave]
    rfl

theorem meets_changeEntry (place : Address) (f : Entry → Entry) :
    Meets k (single (Workspace.changeEntry place f)) t fun _ u => u = mapEntry t place f := by
  apply meets_single
  intro w v w' hw ht h
  subst ht
  exact changeEntry_eq_ok hw h

theorem meets_persist (place : Address) (content : Text) :
    Meets k (Change.persist place content) t fun _ u =>
      u = mapEntry t place fun e => { e with content } :=
  meets_changeEntry place _

theorem meets_save (place : Address) (content : Text) :
    Meets k (single (Workspace.saveContent place content)) t fun normal u =>
      k.normalize content = .ok normal ∧
        u = mapEntry t place fun e => { e with content := normal } := by
  apply meets_single
  intro w new w' hw ht h
  subst ht
  obtain ⟨normal, hnormal, h⟩ := bind_eq_ok.1 h
  obtain ⟨⟨v, w''⟩, hpersist, h⟩ := bind_eq_ok.1 h
  cases h
  rw [hw.normalize] at hnormal
  obtain ⟨hw', htext⟩ := changeEntry_eq_ok hw hpersist
  exact ⟨hw', hnormal, htext⟩

theorem meets_saveContent (place : Address) (content : Text) :
    Meets k (Change.saveContent place content) t fun _ u => ∃ normal,
      k.normalize content = .ok normal ∧
        u = mapEntry t place fun e => { e with content := normal } :=
  meets_bind (meets_save place content) fun normal _ h => meets_pure ⟨normal, h⟩

theorem meets_restoreDay (day : Date) (content : Text) :
    Meets k (single (Workspace.restoreDay day content)) t
      fun _ u => u = updateDay t day content := by
  refine meets_changeDay fun j v j' ht h => ?_
  subst ht
  obtain ⟨j'', hsave, heq⟩ := map_eq_ok.1 h
  cases heq
  exact Journal.text_of_saveDay hsave

/-! ## Changes that cannot fail -/

/-- The change succeeds as long as nothing stands in the way of writing. -/
def Goes (c : Change α) : Prop :=
  ∀ w, w.journal.writesLeft = none →
    ∃ a w', c.run w = (.ok a, w') ∧ w'.journal.writesLeft = none

theorem Meets.exists_run {c : Change α} {w : Workspace} (hc : Meets k c t Q) (hgoes : Goes c)
    (hw : w.In k) (ht : w.journal.text = t) (hwrites : w.journal.writesLeft = none) :
    ∃ a w', c.run w = (.ok a, w') ∧ w'.In k ∧ Q a w'.journal.text ∧
      w'.journal.writesLeft = none := by
  obtain ⟨a, w', hrun, hwrites'⟩ := hgoes w hwrites
  have hsafe := hc w hw ht
  rw [Safe, hrun] at hsafe
  exact ⟨a, w', hrun, hsafe.1, hsafe.2 a rfl, hwrites'⟩

theorem goes_pure (a : α) : Goes (pure a) := fun w hw => ⟨a, w, rfl, hw⟩

theorem goes_bind {c : Change α} {f : α → Change β} (hc : Goes c) (hf : ∀ a, Goes (f a)) :
    Goes (c >>= f) := by
  intro w hw
  obtain ⟨a, w', hrun, hw'⟩ := hc w hw
  obtain ⟨b, w'', hrun', hw''⟩ := hf a w' hw'
  refine ⟨b, w'', ?_, hw''⟩
  rw [run_bind, hrun]
  exact hrun'

theorem goes_forM {l : List α} {f : α → Change PUnit} (hf : ∀ a, Goes (f a)) : Goes (l.forM f) := by
  induction l with
  | nil => exact goes_pure PUnit.unit
  | cons a l ih => exact goes_bind (hf a) fun _ => ih

theorem goes_mapM {l : List α} {f : α → Change β} (hf : ∀ a, Goes (f a)) : Goes (l.mapM f) := by
  induction l with
  | nil =>
      rw [List.mapM_nil]
      exact goes_pure []
  | cons a l ih =>
      rw [List.mapM_cons]
      exact goes_bind (hf a) fun b => goes_bind ih fun bs => goes_pure (b :: bs)

theorem goes_changeDay {day : Date} {change : Journal → Except Fault (α × Journal)}
    (h : ∀ j, j.writesLeft = none → ∃ a j', change j = .ok (a, j') ∧ j'.writesLeft = none) :
    Goes (single (Workspace.changeDay day change)) := by
  intro w hw
  obtain ⟨a, j, hchange, hj⟩ := h w.journal hw
  have hjournal := (Workspace.journal_refreshAfter day { w with journal := j }).1
  refine ⟨a, _, run_single ?_, by rw [hjournal, hj]⟩
  rw [Workspace.changeDay, hchange]
  rfl

theorem goes_restoreDay (day : Date) (content : Text) :
    Goes (single (Workspace.restoreDay day content)) :=
  goes_changeDay fun j hj =>
    ⟨(), ⟨_, none⟩, by simp only [Journal.saveDay, Journal.save, hj]; rfl, rfl⟩

theorem goes_append (day : Date) (entries : List Entry) :
    Goes (single (Workspace.append day entries)) :=
  goes_changeDay fun j hj => ⟨(j.lines day).length, ⟨_, none⟩, by
    simp only [Journal.append, Journal.saveLines, Journal.saveDay, Journal.save, hj]
    rfl, rfl⟩

theorem goes_delete (place : Address) : Goes (single (Workspace.delete place)) := by
  intro w hw
  cases he : w.journal.entry? place with
  | none => exact ⟨none, w, run_single (by rw [Workspace.delete, he]), hw⟩
  | some e =>
      have hdelete : w.delete place = w.changeDay place.day fun j =>
          (j.deleteLine place).map fun j => (some e, j) := by
        rw [Workspace.delete, he]
      have hgoes : Goes (single (Workspace.changeDay place.day fun j =>
          (j.deleteLine place).map fun j => (some e, j))) :=
        goes_changeDay fun j hj => ⟨some e, ⟨_, none⟩, by
          simp only [Journal.deleteLine, Journal.saveLines, Journal.saveDay, Journal.save, hj]
          rfl, rfl⟩
      obtain ⟨a, w', hrun, hw'⟩ := hgoes w hw
      exact ⟨a, w', (run_single_congr hdelete).trans hrun, hw'⟩

theorem goes_changeEntry (place : Address) (f : Entry → Entry) :
    Goes (single (Workspace.changeEntry place f)) := by
  intro w hw
  obtain ⟨e?, j, hchange, hj⟩ :
      ∃ e? j, w.journal.changeEntry place f = .ok (e?, j) ∧ j.writesLeft = none := by
    simp only [Journal.changeEntry]
    split
    · exact ⟨none, w.journal, rfl, hw⟩
    · next e he =>
      simp only [Journal.saveLines, Journal.saveDay, Journal.save, hw]
      exact ⟨_, _, rfl, rfl⟩
  obtain ⟨hjournal, -, -⟩ := Workspace.journal_refreshAfter place.day { w with journal := j }
  have hrun : w.changeEntry place f = .ok ((), { w with journal := j }.refreshAfter place.day) := by
    rw [Workspace.changeEntry, Workspace.changeDay, hchange]
    rfl
  refine ⟨(), _, run_single hrun, by rw [hjournal, hj]⟩

/-! ## Changes at one place -/

section OnePlace

variable {w w' : Workspace} {place : Address} {e : Entry} {content new : Text}

theorem exists_changeEntry (hw : w.journal.writesLeft = none) (place : Address)
    (f : Entry → Entry) :
    ∃ w', w.changeEntry place f = .ok ((), w') ∧ w'.In ⟨w.settings, w.today⟩ ∧
      w'.journal.writesLeft = none ∧ w'.journal.text = mapEntry w.journal.text place f := by
  obtain ⟨w', hchange⟩ := Workspace.exists_changeEntry (by rw [hw]; simp) place f
  obtain ⟨hin, htext⟩ := changeEntry_eq_ok (k := ⟨w.settings, w.today⟩) ⟨rfl, rfl⟩ hchange
  obtain ⟨_, w'', hrun, hw''⟩ := goes_changeEntry place f w hw
  rw [run_single hchange] at hrun
  cases hrun
  exact ⟨w', hchange, hin, hw'', htext⟩

section Save

variable (hnew : w.normalize content = .ok new) (hpersist : w.persist place new = .ok ((), w'))
include hnew hpersist

theorem run_save : (single (Workspace.saveContent place content)).run w = (.ok new, w') := by
  apply run_single
  rw [Workspace.saveContent, hnew]
  show (w.persist place new >>= fun r => pure (new, r.2)) = .ok (new, w')
  rw [hpersist]
  rfl

theorem run_saveContent : (Change.saveContent place content).run w = (.ok (), w') :=
  (run_bind_ok (run_save hnew hpersist)).trans rfl

end Save

theorem run_contents {transform : Workspace → Text → Except Fault (Option Text)}
    {write : Address → Text → Change Unit} {t? : Option Text} (he : w.journal.entry? place = some e)
    (ht : transform w e.content = .ok t?)
    (hwrite : (t?.elim (pure ()) (write place)).run w = (.ok (), w')) :
    (contents transform write [place]).run w = (.ok [⟨place, e.content⟩], w') := by
  have hentry : (Change.entry? place).run w = (.ok (some e), w) := by
    rw [← he]
    rfl
  have hread : (single fun w => (transform w e.content).map (·, w)).run w = (.ok t?, w) :=
    run_single (by rw [ht]; rfl)
  rw [contents, run_bind_ok hentry]
  dsimp only
  rw [run_bind_ok hread]
  cases t? with
  | none =>
      cases hwrite
      rfl
  | some content =>
      exact (run_bind_ok hwrite).trans rfl

end OnePlace

end Change

end DayJournal

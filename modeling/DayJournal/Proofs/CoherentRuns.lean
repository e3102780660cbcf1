import DayJournal.Proofs.Calls
import DayJournal.Proofs.Coherence

/-!
# A session never shows stale data

Whatever is asked of a session, and whichever writes of the journal fail, what it shows is what the
journal has.  Undo and redo run actions that were recorded earlier, so the invariant is about the
history as well: all that its actions may write is sound.
-/

namespace DayJournal

open Text Document

namespace Session

/-- The workspace is sound, and so is all that the history may do to it. -/
structure Sound (s : Session) : Prop where
  workspace : s.workspace.Sound
  undo : ∀ step ∈ s.history.undo, step.action.Sound
  redo : ∀ step ∈ s.history.redo, step.action.Sound

variable {s : Session} {α : Type} {Q : α → Prop}

/-! ## Building blocks -/

theorem safe_ask {I : Session → Prop} {f : Workspace → Except Fault α} (hs : I s) :
    Safe I (ask f) s fun a s' => s = s' ∧ f s.workspace = .ok a := by
  refine Safe.bind (Safe.get hs) ?_
  rintro _ _ - ⟨rfl, rfl⟩
  split
  · next a ha => exact Safe.pure hs ⟨rfl, ha⟩
  · exact Safe.throw hs

theorem safe_change {c : Change α} (hc : c.Keeps Q) (hs : s.Sound) :
    Safe Sound (change c) s fun a _ => Q a := by
  obtain ⟨hkept, hresult⟩ := hc s.workspace hs.workspace
  exact ⟨⟨hkept, hs.undo, hs.redo⟩, hresult⟩

theorem safe_display {f : Workspace → Workspace} (hs : s.Sound) (hf : (f s.workspace).Sound) :
    Safe Sound (display f) s fun _ s' => s' = { s with workspace := f s.workspace } :=
  Safe.modify ⟨hf, hs.undo, hs.redo⟩

theorem safe_say (status : Option Text) (hs : s.Sound) :
    Safe Sound (say status) s fun _ _ => True :=
  Safe.bind (Safe.modify ⟨hs.workspace, hs.undo, hs.redo⟩) fun _ _ hs' _ => Safe.pure hs' trivial

theorem safe_announce (occasion : Occasion) (status : Option Text) (hs : s.Sound) :
    Safe Sound (announce occasion status) s fun _ _ => True :=
  Safe.bind (Safe.modify ⟨hs.workspace, hs.undo, hs.redo⟩) fun _ _ hs' _ => safe_say status hs'

/-! ## The history -/

theorem safe_record {a : Action} (ha : a.Sound) (hs : s.Sound) :
    Safe Sound (record a) s fun _ _ => True := by
  refine Safe.bind (safe_change (Action.keeps_perform a ha) hs) fun reverse s' hs' hreverse => ?_
  refine Safe.bind (Safe.modify ⟨hs'.workspace, fun step hstep => ?_, by simp [History.record]⟩)
    fun _ _ hs'' _ => Safe.pure hs'' trivial
  rcases History.mem_undo_record hstep with rfl | hstep
  · exact hreverse
  · exact hs'.undo step hstep

theorem safe_execute {a : Action} (ha : a.Sound) (hs : s.Sound) :
    Safe Sound (execute a) s fun _ _ => True :=
  Safe.bind (safe_record ha hs) fun _ _ hs' _ => safe_announce .run _ hs'

theorem safe_takeBack (hs : s.Sound) : Safe Sound takeBack s fun _ _ => True := by
  refine Safe.bind (Safe.get hs) ?_
  rintro _ _ - ⟨rfl, rfl⟩
  split
  · exact Safe.pure hs trivial
  · next step rest hundo =>
    have hstep : step.action.Sound := hs.undo step (by simp [hundo])
    have hrest : ∀ step ∈ rest, step.action.Sound := fun x hx => hs.undo x (by simp [hundo, hx])
    refine Safe.bind (Safe.modify ⟨hs.workspace, hrest, hs.redo⟩) fun _ s' hs' _ => ?_
    refine Safe.bind (safe_change (Action.keeps_perform _ hstep) hs')
      fun reverse s'' hs'' hrev => ?_
    refine Safe.bind (Safe.modify ⟨hs''.workspace, hs''.undo, ?_⟩)
      fun _ _ hs''' _ => Safe.pure hs''' trivial
    exact List.forall_mem_cons.2 ⟨hrev, hs''.redo⟩

theorem safe_makeAgain (hs : s.Sound) : Safe Sound makeAgain s fun _ _ => True := by
  refine Safe.bind (Safe.get hs) ?_
  rintro _ _ - ⟨rfl, rfl⟩
  split
  · exact Safe.pure hs trivial
  · next step rest hredo =>
    have hstep : step.action.Sound := hs.redo step (by simp [hredo])
    have hrest : ∀ step ∈ rest, step.action.Sound := fun x hx => hs.redo x (by simp [hredo, hx])
    refine Safe.bind (Safe.modify ⟨hs.workspace, hs.undo, hrest⟩) fun _ s' hs' _ => ?_
    refine Safe.bind (safe_change (Action.keeps_perform _ hstep) hs')
      fun reverse s'' hs'' hrev => ?_
    refine Safe.bind (Safe.modify ⟨hs''.workspace, ?_, hs''.redo⟩)
      fun _ _ hs''' _ => Safe.pure hs''' trivial
    exact List.forall_mem_cons.2 ⟨hrev, hs''.undo⟩

theorem safe_undo (hs : s.Sound) : Safe Sound undo s fun _ _ => True :=
  Safe.bind (safe_takeBack hs) fun _ _ hs' _ => safe_announce .undo _ hs'

theorem safe_redo (hs : s.Sound) : Safe Sound redo s fun _ _ => True :=
  Safe.bind (safe_makeAgain hs) fun _ _ hs' _ => safe_announce .redo _ hs'

/-! ## Views -/

theorem safe_viewDay (day : Option Date) (hs : s.Sound) :
    Safe Sound (viewDay day) s fun _ _ => True := by
  have hshow : ∀ d, (s.workspace.showDay d).Sound := fun d =>
    ⟨Workspace.coherent_showDay d _, hs.workspace.favorites⟩
  have hview : ∀ {s' : Session}, s'.Sound → Safe Sound (do
      let w := (← get).workspace
      return if w.settings.hideCompleted then w.dayView.withoutCompleted else w.dayView) s'
      fun _ _ => True :=
    fun hs' => Safe.bind (Safe.get hs') fun _ _ hs'' _ => Safe.pure hs'' trivial
  refine Safe.bind (Safe.get hs) ?_
  rintro _ _ - ⟨rfl, rfl⟩
  dsimp only
  split
  · exact hview hs
  · exact Safe.bind (safe_display hs (hshow _)) fun _ _ hs' _ => hview hs'
  · split
    · exact hview hs
    · exact Safe.bind (safe_display hs (hshow _)) fun _ _ hs' _ => hview hs'

theorem safe_viewFilter (query : Text) (hs : s.Sound) :
    Safe Sound (viewFilter query) s fun _ _ => True := by
  refine Safe.bind (Safe.get hs) ?_
  rintro _ _ - ⟨rfl, rfl⟩
  refine Safe.bind (safe_ask hs) ?_
  rintro opened _ - ⟨rfl, hopened⟩
  have hsound := Workspace.sound_openFilter hs.workspace hopened
  refine Safe.bind (safe_display hs hsound) fun _ s' hs' _ => ?_
  split
  · exact Safe.bind (safe_say _ hs') fun _ _ hs'' _ => Safe.pure hs'' trivial
  · exact Safe.pure hs' trivial

theorem safe_exitFilter (hs : s.Sound) : Safe Sound exitFilter s fun _ _ => True :=
  (safe_display hs ⟨⟨rfl, hs.workspace.coherent.projected, fun _ _ _ _ h => by cases h⟩,
    hs.workspace.favorites⟩).imp fun _ _ _ _ => trivial

/-! ## Changes of entries -/

theorem safe_add {content : Text} {kind : Kind} {day : Option Date} (hs : s.Sound)
    (late : 1000 ≤ (day.getD s.workspace.day).year) (hcontent : '\n' ∉ content) :
    Safe Sound (add content kind day) s fun _ _ => True := by
  refine Safe.bind (Safe.get hs) ?_
  rintro _ _ - ⟨rfl, rfl⟩
  refine Safe.bind (safe_ask hs) ?_
  rintro normal _ - ⟨rfl, hnormal⟩
  have hnew := Workspace.newline_not_mem_normalize hs.workspace.favorites hcontent hnormal
  refine Safe.bind (safe_change (Change.keeps_append late (by simpa using hnew)) hs)
    fun index s' hs' _ => ?_
  exact safe_execute ⟨late, hnew⟩ hs'

theorem checked_eq_ok {check : Row → Except Fault Unit} {w : Workspace} {location : Location}
    {place : Address} (h : w.checked check location = .ok place) : place = w.resolve location := by
  obtain ⟨row, -, h⟩ := bind_eq_ok.1 h
  cases row with
  | none =>
      cases h
      rfl
  | some row =>
      obtain ⟨u, -, h⟩ := bind_eq_ok.1 h
      cases h
      rfl

theorem safe_edit {location : Location} {content : Text} (hs : s.Sound)
    (late : 1000 ≤ (s.workspace.resolve location).day.year) (hcontent : '\n' ∉ content) :
    Safe Sound (edit location content) s fun _ _ => True := by
  refine Safe.bind (safe_ask hs) ?_
  rintro place _ - ⟨rfl, hplace⟩
  rw [← checked_eq_ok hplace] at late
  refine Safe.bind (Safe.get hs) ?_
  rintro _ _ - ⟨rfl, rfl⟩
  refine Safe.bind (safe_change (Change.keeps_save late hcontent) hs) fun new s' hs' hnew => ?_
  refine safe_execute ⟨late, ?_, hnew⟩ hs'
  cases he : s.workspace.journal.entry? place with
  | none => simp
  | some e => exact Journal.content_of_entry he

theorem newline_not_mem_pastedEntries {text : Text} {w : Workspace} {entries : List Entry}
    (hw : w.Sound) (h : pastedEntries text w = .ok entries) : ∀ e ∈ entries, '\n' ∉ e.content := by
  intro e he
  obtain ⟨l, hl, hmade⟩ := exists_of_mem_mapM h he
  obtain ⟨normal, hnormal, heq⟩ := bind_eq_ok.1 hmade
  cases heq
  have hline := newline_not_mem_foreignLines text l (List.mem_filter.1 hl).1
  exact Workspace.newline_not_mem_normalize hw.favorites (Entry.newline_not_mem_ofAnyLine hline)
    hnormal

theorem safe_paste {text : Text} {day : Option Date} {line : Option Int} (hs : s.Sound)
    (late : 1000 ≤ (day.getD s.workspace.day).year) :
    Safe Sound (paste text day line) s fun _ _ => True := by
  refine Safe.bind (Safe.get hs) ?_
  rintro _ _ - ⟨rfl, rfl⟩
  refine Safe.bind (safe_ask hs) ?_
  rintro entries _ - ⟨rfl, hentries⟩
  have hentries := newline_not_mem_pastedEntries hs.workspace hentries
  dsimp only
  split
  · exact Safe.pure hs trivial
  · cases line with
    | none =>
        refine Safe.bind (safe_change (Change.keeps_append late hentries) hs)
          fun index s' hs' _ => ?_
        exact safe_execute (a := .paste .recorded _ entries) ⟨late, hentries⟩ hs'
    | some line =>
        refine Safe.bind (safe_change (Change.keeps_insert late hentries) hs)
          fun positions s' hs' _ => ?_
        exact safe_execute (a := .paste .recorded _ entries) ⟨late, hentries⟩ hs'

theorem safe_onAll {check : Row → Except Fault Unit} {action : List Address → Action}
    {locations : List Location} (hs : s.Sound)
    (haction : ∀ places : List Address,
      (∀ place ∈ places, ∃ location ∈ locations, place = s.workspace.resolve location) →
        (action places).Sound) :
    Safe Sound (onAll check action locations) s fun _ _ => True := by
  refine Safe.bind (safe_ask hs) ?_
  rintro places _ - ⟨rfl, hplaces⟩
  split
  · exact Safe.pure hs trivial
  · refine safe_execute (haction places fun place hplace => ?_) hs
    obtain ⟨location, hlocation, hchecked⟩ := exists_of_mem_mapM hplaces hplace
    exact ⟨location, hlocation, checked_eq_ok hchecked⟩

theorem safe_appendTag {tag : Text} {locations : List Location} (hs : s.Sound) (htag : '\n' ∉ tag)
    (late : ∀ l ∈ locations, 1000 ≤ (s.workspace.resolve l).day.year) :
    Safe Sound (appendTag tag locations) s fun _ _ => True := by
  have hbare : ∀ {t : Text}, '\n' ∉ t → '\n' ∉ Tag.bareName t :=
    fun ht h => ht (Tag.bareName_subset _ h)
  refine Safe.bind (Safe.get hs) ?_
  rintro _ _ - ⟨rfl, rfl⟩
  refine safe_onAll hs fun places hplaces => ⟨fun t ht => ?_, fun place hplace => ?_⟩
  · cases ht
    apply hbare
    split
    · next favorite hfavorite =>
      split
      · exact hbare htag
      · exact hs.workspace.favorites _ (mem_of_lookup hfavorite)
    · exact hbare htag
  · obtain ⟨l, hl, rfl⟩ := hplaces place hplace
    exact late l hl

theorem safe_move {location : Location} {day : Date} (hs : s.Sound)
    (late : (s.workspace.resolve location).day ≠ day →
      1000 ≤ (s.workspace.resolve location).day.year ∧ 1000 ≤ day.year) :
    Safe Sound (move location day) s fun _ _ => True := by
  refine Safe.bind (safe_ask hs) ?_
  rintro place _ - ⟨rfl, hplace⟩
  rw [← checked_eq_ok hplace] at late
  split
  · exact safe_say _ hs
  · next hne => exact safe_execute (late hne) hs

theorem safe_sweepTag (change : SweepChange) (tag : Text) (hs : s.Sound) :
    Safe Sound (sweepTag change tag) s fun _ _ => True := by
  refine Safe.bind (Safe.get hs) ?_
  rintro _ _ - ⟨rfl, rfl⟩
  dsimp only
  split
  · exact safe_say _ hs
  · exact safe_execute trivial hs

theorem safe_renameTag (tag newName : Text) (hs : s.Sound) :
    Safe Sound (renameTag tag newName) s fun _ _ => True := by
  unfold renameTag
  dsimp only
  split
  · exact safe_sweepTag _ tag hs
  · exact Safe.throw hs

/-! ## Runs -/

theorem safe_discard {c : Command α} (h : Safe Sound c s fun _ _ => True) :
    Safe Sound (discard c) s fun _ _ => True :=
  Safe.bind h fun _ _ hs' _ => Safe.pure hs' trivial

theorem safe_command {c : Call} (hs : s.Sound) (hc : c.Proper s.workspace) :
    Safe Sound c.command s fun _ _ => True := by
  obtain ⟨hdays, htexts⟩ := hc
  -- Actions on several entries differ in the days of their places only.
  have hall : ∀ {check : Row → Except Fault Unit} {action : List Address → Action}
      {locations : List Location},
      (∀ day ∈ locations.map fun l => (s.workspace.resolve l).day, 1000 ≤ day.year) →
      (∀ places, (∀ place ∈ places, 1000 ≤ place.day.year) → (action places).Sound) →
      Safe Sound (discard (onAll check action locations)) s fun _ _ => True := by
    intro check action locations hlate haction
    refine safe_discard (safe_onAll hs fun places hplaces => haction places fun place hplace => ?_)
    obtain ⟨l, hl, rfl⟩ := hplaces place hplace
    exact hlate _ (List.mem_map_of_mem hl)
  cases c with
  | viewDay day => exact safe_discard (safe_viewDay day hs)
  | viewFilter query => exact safe_discard (safe_viewFilter query hs)
  | exitFilter => exact safe_exitFilter hs
  | add content kind day =>
      exact safe_discard (safe_add hs (hdays _ (by simp [Call.writtenDays]))
        (htexts _ (by simp [Call.givenTexts])))
  | edit location content =>
      exact safe_discard (safe_edit hs (hdays _ (by simp [Call.writtenDays]))
        (htexts _ (by simp [Call.givenTexts])))
  | paste text day line =>
      exact safe_discard (safe_paste hs (hdays _ (by simp [Call.writtenDays])))
  | delete locations => exact hall hdays fun _ h => h
  | toggle locations => exact hall hdays fun _ h => h
  | cycleKinds locations => exact hall hdays fun _ h => h
  | appendTag tag locations =>
      refine safe_discard (safe_appendTag hs (htexts _ (by simp [Call.givenTexts])) fun l hl => ?_)
      exact hdays _ (List.mem_map_of_mem hl)
  | removeLastTag locations => exact hall hdays fun _ h => ⟨fun _ ht => (by cases ht), h⟩
  | removeAllTags locations => exact hall hdays fun _ h => ⟨fun _ ht => (by cases ht), h⟩
  | changeDates change locations => exact hall hdays fun _ h => h
  | move location day =>
      refine safe_discard (safe_move hs fun hne => ?_)
      simp only [Call.writtenDays, if_neg hne] at hdays
      simpa using hdays
  | deleteTag tag => exact safe_discard (safe_sweepTag _ tag hs)
  | deleteTagFromCompleted tag => exact safe_discard (safe_sweepTag _ tag hs)
  | renameTag tag newName => exact safe_discard (safe_renameTag tag newName hs)
  | undo => exact safe_discard (safe_undo hs)
  | redo => exact safe_discard (safe_redo hs)

theorem sound_turn {t : Turn} (hs : s.Sound) (ht : t.call.Proper s.workspace) :
    (s.turn t).Sound := by
  have hallowed : (s.allow t.writes).Sound :=
    ⟨⟨⟨hs.workspace.coherent.lines, hs.workspace.coherent.projected, hs.workspace.coherent.rows⟩,
      hs.workspace.favorites⟩, hs.undo, hs.redo⟩
  exact (safe_command hallowed ht).1

theorem sound_run {turns : List Turn} (hs : s.Sound) (h : s.Proper turns) :
    (s.run turns).Sound := by
  induction turns generalizing s with
  | nil => exact hs
  | cons t more ih => exact ih (sound_turn hs h.1) h.2

/-- A session shows what its journal has after any run of calls, whether they succeed or fail and
whichever writes of the journal fail. -/
theorem coherent_run (journal : Journal) {settings : Settings} (today : Date) {turns : List Turn}
    (hfavorites : ∀ f ∈ settings.favorites, '\n' ∉ f.2)
    (hturns : (start journal settings today).Proper turns) :
    ((start journal settings today).run turns).workspace.Coherent := by
  have hstart : (start journal settings today).Sound :=
    ⟨⟨Workspace.coherent_start journal settings today, hfavorites⟩, by simp [start],
      by simp [start]⟩
  exact (sound_run hstart hturns).workspace.coherent

/-- A run with an open filter, a change of another day, a write that fails, and an undo. -/
theorem coherent_run_filter :
    ((start ⟨"# 2026/01/05\n- [ ] a #x\n".toList, none⟩ {} ⟨2026, 1, 5, by decide⟩).run
      [⟨none, .viewFilter "#x".toList⟩,
        ⟨none, .move (.shown ⟨⟨.task, "a #x".toList, false⟩, ⟨2026, 1, 5, by decide⟩, 0, .home⟩)
          ⟨2026, 1, 6, by decide⟩⟩,
        ⟨none, .add "b #x".toList .note (some ⟨2026, 1, 7, by decide⟩)⟩,
        ⟨some 0, .add "c #x".toList .note (some ⟨2026, 1, 5, by decide⟩)⟩,
        ⟨none, .undo⟩]).workspace.Coherent :=
  coherent_run _ _ (by simp)
    (by simp [Session.Proper, Call.Proper, Call.writtenDays, Call.givenTexts, Workspace.resolve,
      Row.place])

end Session

end DayJournal

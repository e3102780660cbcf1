import DayJournal.Proofs.HistorySteps
import DayJournal.Proofs.Tracking

/-!
# The history is linear

The main statement: after plain calls that succeed, and undo and redo in between, the journal is
where its timeline says, and so it stays under undo and redo.  There is one condition, and it is
exact: an entry that a batch names several times has to be as it was in the beginning when its last
turn comes.  What was found is put back in the order in which it was found, so otherwise a batch is
not taken back.
-/

namespace DayJournal

open Text Document

namespace Session

variable {k : Surroundings} {s : Session} {line : Timeline} {turns : List Turn} {t u : Text}

/-- After a run the journal and its history are where the timeline says. -/
structure OnTimeline (s : Session) (turns : List Turn) : Prop where
  text : (s.run turns).workspace.journal.text =
    (timeline ⟨[], s.workspace.journal.text, []⟩ s turns).present
  undo : (s.run turns).history.undo.length =
    (timeline ⟨[], s.workspace.journal.text, []⟩ s turns).past.length
  redo : (s.run turns).history.redo.length =
    (timeline ⟨[], s.workspace.journal.text, []⟩ s turns).future.length
  plain : PlainDocument (s.run turns).workspace.journal.text

def Moves (turns : List Turn) : Prop := ∀ t ∈ turns, t.call = .undo ∨ t.call = .redo

/-! ## The condition is enough -/

theorem rewinds_of_moves (hmoves : Moves turns) (s : Session) : s.Rewinds turns := by
  induction turns generalizing s with
  | nil => trivial
  | cons t more ih =>
      obtain ⟨hcall, hmore⟩ := List.forall_mem_cons.1 hmoves
      refine ⟨?_, ih hmore _⟩
      rcases hcall with hcall | hcall <;> rw [hcall] <;> trivial

theorem Rewinds.append {more : List Turn} (h : s.Rewinds turns) {done : List Turn}
    (hdone : done <+: turns) (hmoves : Moves more) : s.Rewinds (done ++ more) := by
  induction done generalizing s turns with
  | nil => exact rewinds_of_moves hmoves s
  | cons t done ih =>
      obtain ⟨rest, rfl⟩ := hdone
      exact ⟨h.1, ih h.2 (List.prefix_append done rest)⟩

theorem Tracks.onTimeline
    (h : Tracks k (s.run turns) (timeline ⟨[], s.workspace.journal.text, []⟩ s turns)) :
    s.OnTimeline turns := by
  refine ⟨h.text, h.past.length_eq, h.future.length_eq, ?_⟩
  rw [h.text]
  exact h.plain

/-! ## The condition is necessary -/

theorem undo_step {step : Step Action} {rest : List (Step Action)} {b : Action}
    (hs : Within k s) (hwrites : s.workspace.journal.writesLeft = none)
    (hundo : s.history.undo = step :: rest) (hgoes : Change.Goes step.action.perform)
    (hleads : Action.Leads k step.action s.workspace.journal.text b u) :
    s.succeeds .undo = true ∧ (s.after .undo).workspace.journal.text = u := by
  obtain ⟨reverse, w, hrun, -⟩ := hgoes s.workspace hwrites
  have htext : w.journal.text = u := by
    have hresult := (hleads s.workspace hs rfl).2 reverse
    rw [hrun] at hresult
    exact (hresult rfl).2
  obtain ⟨s', hcommand, hworkspace, -⟩ := exists_run_undo hundo hrun
  obtain ⟨hsucceeds, hafter⟩ := succeeds_of_run hcommand
  exact ⟨hsucceeds, by rw [hafter, hworkspace, htext]⟩

theorem safe_leads {a b : Action} (hs : Within k s) (hdeep : 0 < s.history.depth)
    (ha : Action.Leads k a s.workspace.journal.text b u) :
    Safe (Within k) (execute a) s fun _ s' => s'.workspace.journal.text = u ∧
      ∃ step rest, s'.history.undo = step :: rest ∧ step.action = b := by
  have hrecord : Safe (Within k) (record a) s fun _ s' => s'.workspace.journal.text = u ∧
      ∃ step rest, s'.history.undo = step :: rest ∧ step.action = b := by
    refine Safe.bind (track_change ha hs) fun reverse s₁ hs₁ h₁ => ?_
    obtain ⟨hhistory, rfl, htext⟩ := h₁
    refine Safe.bind (Safe.modify (I := Within k) hs₁) fun _ s₂ hs₂ hmodified => ?_
    subst hmodified
    rw [← hhistory] at hdeep
    obtain ⟨rest, hundo⟩ : ∃ rest, (s₁.history.record reverse a.describe).undo =
        ⟨reverse, a.describe⟩ :: rest := History.exists_undo_record hdeep
    exact Safe.pure hs₂ ⟨htext, ⟨reverse, a.describe⟩, rest, hundo, rfl⟩
  refine Safe.bind hrecord fun _ s₁ hs₁ h₁ => ?_
  refine (keep_announce .run _ hs₁).imp fun _ s₂ _ hkept => ?_
  rwa [hkept.1, hkept.2]

section Batches

variable {check : Row → Except Fault Unit} {change : List Address → Action}
  {restore : List FoundEntry → Action} {f : Entry → Entry} {g : Entry → Entry → Entry}
  {locations : List Location}

theorem safe_onAll_leads (check : Row → Except Fault Unit) {b : Action}
    (hleads : Action.Leads k (change (locations.map s.workspace.resolve))
      s.workspace.journal.text b u)
    (hs : Within k s) (hdeep : 0 < s.history.depth) (hne : locations ≠ []) :
    Safe (Within k) (discard (onAll check change locations)) s fun _ s' =>
      s'.workspace.journal.text = u ∧
        ∃ step rest, s'.history.undo = step :: rest ∧ step.action = b := by
  refine Safe.bind ?_ fun _ _ hs' h' => Safe.pure hs' h'
  refine Safe.bind (safe_ask (I := Within k) hs) ?_
  rintro places _ - ⟨rfl, hplaces⟩
  have hresolved : places = locations.map s.workspace.resolve :=
    eq_map_of_mapM (fun _ _ hchecked => (checked_eq_ok hchecked).symm) hplaces
  have hfilled : places.isEmpty = false := by
    rw [hresolved, List.isEmpty_map, List.isEmpty_eq_false_iff]
    exact hne
  rw [hfilled, hresolved]
  exact safe_leads hs hdeep hleads

theorem safe_batch (check : Row → Except Fault Unit)
    (hbatched : Action.Batched k change restore f g)
    (hs : Within k s) (hdocument : PlainDocument s.workspace.journal.text)
    (hdeep : 0 < s.history.depth) (hne : locations ≠ []) :
    Safe (Within k) (discard (onAll check change locations)) s fun _ s' =>
      s'.workspace.journal.text =
          batch f (locations.map s.workspace.resolve) s.workspace.journal.text ∧
        ∃ step rest, s'.history.undo = step :: rest ∧ step.action =
          restore (capture f (locations.map s.workspace.resolve) s.workspace.journal.text) :=
  safe_onAll_leads check (hbatched.there _ _ hdocument) hs hdeep hne

/-- A batch that is undone right away gives the document back just when each entry was as in the
beginning when its last turn came. -/
theorem text_undo_batch {s' : Session} (hbatched : Action.Batched k change restore f g)
    (hs : Within k s) (hdocument : PlainDocument s.workspace.journal.text)
    (hdeep : 0 < s.history.depth) (hne : locations ≠ [])
    (hrun : (discard (onAll check change locations)).run s = (.ok (), s')) :
    (s'.allow none).succeeds .undo = true ∧
      (((s'.allow none).after .undo).workspace.journal.text = s.workspace.journal.text ↔
        Document.Rewinds f g (locations.map s.workspace.resolve) s.workspace.journal.text) := by
  obtain ⟨hs', hresult⟩ := safe_batch check hbatched hs hdocument hdeep hne
  rw [hrun] at hs' hresult
  obtain ⟨htext, step, rest, hundo, hstep⟩ := hresult () rfl
  -- What was recorded is the restoring action, so the undo puts back what the batch found.
  have hback := hbatched.back
    (capture f (locations.map s.workspace.resolve) s.workspace.journal.text)
    (batch f (locations.map s.workspace.resolve) s.workspace.journal.text)
  rw [← hstep, ← htext] at hback
  have hgoes := hbatched.goes
    (capture f (locations.map s.workspace.resolve) s.workspace.journal.text)
  rw [← hstep] at hgoes
  have hin : Within k (s'.allow none) := ⟨hs'.settings, hs'.today⟩
  obtain ⟨hsucceeds, hundone⟩ := undo_step hin rfl hundo hgoes hback
  refine ⟨hsucceeds, ?_⟩
  rw [hundone, htext]
  exact hdocument.putBack_capture_eq_iff hbatched.plain hbatched.plain_back hbatched.last

end Batches

theorem batched_action {c : Call} (hs : Within k s)
    (hfavorites : ∀ f ∈ k.settings.favorites, '\n' ∉ f.2) (hplain : c.Plain s.workspace)
    (hne : c.locations ≠ []) (hdelete : ∀ locations, c ≠ .delete locations)
    (htoggle : ∀ locations, c ≠ .toggle locations) :
    ∃ restore f g, Action.Batched k (c.action s.workspace) restore f g ∧
      (Document.Rewinds f g (c.locations.map s.workspace.resolve) s.workspace.journal.text ↔
        c.Rewinds s.workspace) := by
  cases c with
  | delete locations => exact absurd rfl (hdelete locations)
  | toggle locations => exact absurd rfl (htoggle locations)
  | cycleKinds locations => exact ⟨_, _, _, Action.batched_cycleKinds, Iff.rfl⟩
  | appendTag tag locations =>
      refine ⟨_, _, _, Action.batched_changeTags fun name hname => ?_, Iff.rfl⟩
      cases hname
      exact hplain
  | removeLastTag locations =>
      exact ⟨_, _, _, Action.batched_changeTags fun name hname => (by cases hname), Iff.rfl⟩
  | removeAllTags locations =>
      exact ⟨_, _, _, Action.batched_changeTags fun name hname => (by cases hname), Iff.rfl⟩
  | changeDates change locations =>
      refine ⟨_, _, _, Action.batched_changeDates hplain hfavorites, ?_⟩
      rw [Call.Rewinds, hs.surroundings_eq]
      rfl
  | _ => exact absurd rfl hne

theorem step_of_locations {c : Call} (hne : c.locations ≠ []) (line : Timeline) (t : Text) :
    Timeline.step line s c t = line.push s.history.depth t := by
  have hacts : c.acts s.workspace = true := by
    cases c <;> first | exact absurd rfl hne | simpa [Call.acts, Call.locations] using hne
  have hstep : Timeline.step line s c t =
      if c.acts s.workspace then line.push s.history.depth t else line := by
    cases c <;> first | rfl | exact absurd rfl hne
  rw [hstep, if_pos hacts]

theorem rewinds_of_undo {turn : Turn} (h : Tracks k s line)
    (hfavorites : ∀ f ∈ k.settings.favorites, Tag.isName f.2 = true)
    (hplain : turn.call.Plain (s.allow turn.writes).workspace)
    (hok : (s.allow turn.writes).succeeds turn.call = true)
    (hall : ((s.turn turn).allow none).succeeds .undo = true →
      (((s.turn turn).allow none).after .undo).workspace.journal.text =
        (Timeline.step line (s.allow turn.writes) turn.call
          (s.turn turn).workspace.journal.text).back.present) :
    turn.call.Rewinds (s.allow turn.writes).workspace := by
  have hin : Within k (s.allow turn.writes) := ⟨h.inside.settings, h.inside.today⟩
  have hdocument : PlainDocument (s.allow turn.writes).workspace.journal.text := by
    show PlainDocument s.workspace.journal.text
    rw [h.text]
    exact h.plain
  have hlines : ∀ f ∈ k.settings.favorites, '\n' ∉ f.2 :=
    fun f hf => Tag.newline_not_mem_of_isName (hfavorites f hf)
  by_cases hne : turn.call.locations = []
  · exact Call.rewinds_of_nodup (by rw [hne]; exact List.nodup_nil)
  by_cases hdelete : ∃ locations, turn.call = .delete locations
  · obtain ⟨locations, hcall⟩ := hdelete
    rw [hcall]
    trivial
  by_cases htoggle : ∃ locations, turn.call = .toggle locations
  · obtain ⟨locations, hcall⟩ := htoggle
    rw [hcall]
    trivial
  obtain ⟨restore, f, g, hbatched, hrewinds⟩ := batched_action hin hlines hplain hne
    (fun locations hcall => hdelete ⟨locations, hcall⟩)
    fun locations hcall => htoggle ⟨locations, hcall⟩
  -- An undo right after the call is one of the runs that `hall` is about.
  have hrun := run_of_succeeds hok
  rw [run_batch hne hplain] at hrun
  obtain ⟨hsucceeds, hiff⟩ := text_undo_batch hbatched hin hdocument h.deep hne hrun
  apply hrewinds.1
  apply hiff.1
  refine (hall hsucceeds).trans ?_
  rw [step_of_locations hne]
  obtain ⟨depth, hdepth⟩ := Nat.exists_eq_add_one.2 h.deep
  show (Timeline.push line s.history.depth _).back.present = s.workspace.journal.text
  rw [h.text, Timeline.push, hdepth, List.take_succ_cons]
  rfl

theorem rewinds_of_timeline (h : Tracks k s line)
    (hfavorites : ∀ f ∈ k.settings.favorites, Tag.isName f.2 = true) (hplain : s.PlainRun turns)
    (hall : ∀ done more, done <+: turns → Moves more → s.PlainRun (done ++ more) →
      (s.run (done ++ more)).workspace.journal.text =
        (timeline line s (done ++ more)).present) : s.Rewinds turns := by
  induction turns generalizing s line with
  | nil => trivial
  | cons turn more ih =>
      obtain ⟨hcall, hok, hmore⟩ := hplain
      have hrewinds : turn.call.Rewinds (s.allow turn.writes).workspace := by
        apply rewinds_of_undo h hfavorites hcall hok
        intro hundo
        have hmoves : Moves [⟨none, .undo⟩] := by simp [Moves]
        exact hall [turn] [⟨none, .undo⟩] (List.prefix_append [turn] more) hmoves
          ⟨hcall, hok, trivial, hundo, trivial⟩
      refine ⟨hrewinds, ih (tracks_turn h hfavorites hcall hok hrewinds) hmore ?_⟩
      intro done moves hdone hmoves hplain
      exact hall (turn :: done) moves (List.cons_prefix_cons.2 ⟨rfl, hdone⟩) hmoves
        ⟨hcall, hok, hplain⟩

/-! ## The history is linear -/

/-- From every point of a run of plain calls that succeed, undo and redo move the journal along its
timeline, just when each entry that a batch names several times was as in the beginning when its
last turn came. -/
theorem linear_history {journal : Journal} {settings : Settings} {today : Date}
    (hdocument : PlainDocument journal.text)
    (hfavorites : ∀ f ∈ settings.favorites, Tag.isName f.2 = true)
    (hplain : (start journal settings today).PlainRun turns) :
    (start journal settings today).Rewinds turns ↔
      ∀ done more, done <+: turns → Moves more →
        (start journal settings today).PlainRun (done ++ more) →
          (start journal settings today).OnTimeline (done ++ more) := by
  have hstart : Tracks ⟨settings, today⟩ (start journal settings today) ⟨[], journal.text, []⟩ :=
    ⟨⟨rfl, rfl⟩, rfl, hdocument, Nat.succ_pos 49, Nat.zero_le 50, .nil _, .nil _⟩
  constructor
  · intro hrewinds done more hdone hmoves hrun
    exact (tracks_run hstart hfavorites hrun (hrewinds.append hdone hmoves)).onTimeline
  · intro hall
    exact rewinds_of_timeline hstart hfavorites hplain fun done more hdone hmoves hrun =>
      (hall done more hdone hmoves hrun).text

theorem plainDocument_task : PlainDocument "# 2026/01/05\n- [ ] a\n".toList := by
  have hcontent : PlainContent "a".toList := by constructor <;> decide
  have hlines : ∀ l ∈ [Line.entry ⟨.task, "a".toList, false⟩], l.Plain := by
    simpa using Line.plain_entry ⟨hcontent, fun hcompleted => by cases hcompleted⟩
  have htext : setLines [] ⟨2026, 1, 5, by decide⟩ [.entry ⟨.task, "a".toList, false⟩] =
      "# 2026/01/05\n- [ ] a\n".toList := by decide +kernel
  rw [← htext]
  exact PlainDocument.nil.setLines (by decide) hlines

/-- A tag added, an entry added, and both taken back. -/
theorem linear_history_taken_back :
    (start ⟨"# 2026/01/05\n- [ ] a\n".toList, none⟩ {} ⟨2026, 1, 5, by decide⟩).OnTimeline
      [⟨none, .appendTag "x".toList [.daily 0]⟩, ⟨none, .add "b".toList .note none⟩,
        ⟨none, .undo⟩, ⟨none, .undo⟩] := by
  have hcontent : PlainContent "b".toList := by constructor <;> decide
  have hnormal : (Workspace.normalize "b".toList
      (((start ⟨"# 2026/01/05\n- [ ] a\n".toList, none⟩ {} ⟨2026, 1, 5, by decide⟩).turn
        ⟨none, .appendTag "x".toList [.daily 0]⟩).allow none).workspace).toOption =
          some "b".toList := by decide +kernel
  have hadd : ∀ normal, Workspace.normalize "b".toList
      (((start ⟨"# 2026/01/05\n- [ ] a\n".toList, none⟩ {} ⟨2026, 1, 5, by decide⟩).turn
        ⟨none, .appendTag "x".toList [.daily 0]⟩).allow none).workspace = .ok normal →
          PlainContent normal := by
    intro normal hok
    rw [hok] at hnormal
    rw [Option.some.inj hnormal]
    exact hcontent
  have hname : Tag.isName (Workspace.tagName ((start ⟨"# 2026/01/05\n- [ ] a\n".toList, none⟩ {}
      ⟨2026, 1, 5, by decide⟩).allow none).workspace "x".toList) = true := by decide +kernel
  have hplain :
      (start ⟨"# 2026/01/05\n- [ ] a\n".toList, none⟩ {} ⟨2026, 1, 5, by decide⟩).PlainRun
        [⟨none, .appendTag "x".toList [.daily 0]⟩, ⟨none, .add "b".toList .note none⟩,
          ⟨none, .undo⟩, ⟨none, .undo⟩] :=
    ⟨hname, by decide +kernel, ⟨by decide +kernel, hadd⟩, by decide +kernel, trivial,
      by decide +kernel, trivial, by decide +kernel, trivial⟩
  have hlinear := linear_history plainDocument_task (fun f hf => absurd hf List.not_mem_nil) hplain
  exact hlinear.1 ⟨Call.rewinds_of_nodup (by simp [Call.locations]), trivial, trivial, trivial,
    trivial⟩ _ [] (List.prefix_refl _) (by simp [Moves]) hplain

/-- A tag that is added twice in one call stays when the call is taken back: the contents that
were found are put back in the order in which they were found. -/
theorem not_on_timeline_of_repeated_location :
    PlainDocument "# 2026/01/05\n- [ ] a\n".toList ∧
      (start ⟨"# 2026/01/05\n- [ ] a\n".toList, none⟩ {} ⟨2026, 1, 5, by decide⟩).PlainRun
        [⟨none, .appendTag "x".toList [.daily 0, .daily 0]⟩, ⟨none, .undo⟩] ∧
      ((start ⟨"# 2026/01/05\n- [ ] a\n".toList, none⟩ {} ⟨2026, 1, 5, by decide⟩).run
          [⟨none, .appendTag "x".toList [.daily 0, .daily 0]⟩,
            ⟨none, .undo⟩]).workspace.journal.text ≠
        (timeline ⟨[], "# 2026/01/05\n- [ ] a\n".toList, []⟩
          (start ⟨"# 2026/01/05\n- [ ] a\n".toList, none⟩ {} ⟨2026, 1, 5, by decide⟩)
          [⟨none, .appendTag "x".toList [.daily 0, .daily 0]⟩, ⟨none, .undo⟩]).present := by
  have hname : Tag.isName (Workspace.tagName ((start ⟨"# 2026/01/05\n- [ ] a\n".toList, none⟩ {}
      ⟨2026, 1, 5, by decide⟩).allow none).workspace "x".toList) = true := by decide +kernel
  refine ⟨plainDocument_task, ⟨hname, by decide +kernel, trivial, by decide +kernel, trivial⟩, ?_⟩
  decide +kernel

end Session

end DayJournal

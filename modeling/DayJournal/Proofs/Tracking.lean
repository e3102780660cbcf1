import DayJournal.Proofs.CoherentRuns
import DayJournal.Proofs.Timeline

/-!
# Sessions on a timeline

Plain calls on a plain document, with undo, redo and views in any order, move the journal along a
timeline.  The invariant is about the actions in the history: each leads from the text that is there
when its turn comes to the next one on the timeline, and back.
-/

namespace DayJournal

open Text Document

namespace Session

/-- The texts are those that actions lead to, one after the other, each of which can be taken
back. -/
inductive Chain (k : Surroundings) : Text → List (Step Action) → List Text → Prop
  | nil (t : Text) : Chain k t [] []
  | cons {step : Step Action} {t u : Text} {steps : List (Step Action)} {texts : List Text}
      (reverse : Action) (hplain : PlainDocument u)
      (hswaps : Action.Swaps k step.action reverse t u) (hmore : Chain k u steps texts) :
      Chain k t (step :: steps) (u :: texts)

/-- The session is where the timeline says, and its history leads along the timeline. -/
structure Tracks (k : Surroundings) (s : Session) (line : Timeline) : Prop where
  inside : s.workspace.In k
  text : s.workspace.journal.text = line.present
  plain : PlainDocument line.present
  deep : 0 < s.history.depth
  fits : s.history.undo.length + s.history.redo.length ≤ s.history.depth
  past : Chain k line.present s.history.undo line.past
  future : Chain k line.present s.history.redo line.future

def Within (k : Surroundings) (s : Session) : Prop := s.workspace.In k

variable {k : Surroundings} {s s' : Session} {line : Timeline} {t u : Text}
  {steps : List (Step Action)} {texts : List Text} {α : Type}

theorem Chain.take (h : Chain k t steps texts) (depth : Nat) :
    Chain k t (steps.take depth) (texts.take depth) := by
  induction h generalizing depth with
  | nil t => simpa using Chain.nil t
  | cons reverse hplain hswaps hmore ih =>
      cases depth with
      | zero => exact .nil _
      | succ depth => exact .cons reverse hplain hswaps (ih depth)

theorem Chain.length_eq (h : Chain k t steps texts) : steps.length = texts.length := by
  induction h with
  | nil t => rfl
  | cons reverse hplain hswaps hmore ih => rw [List.length_cons, List.length_cons, ih]

theorem Tracks.same (h : Tracks k s line) (hin : Within k s')
    (htext : s'.workspace.journal.text = s.workspace.journal.text)
    (hhistory : s'.history = s.history) : Tracks k s' line := by
  refine ⟨hin, htext.trans h.text, h.plain, ?_, ?_, ?_, ?_⟩
  · rw [hhistory]
    exact h.deep
  · rw [hhistory]
    exact h.fits
  · rw [hhistory]
    exact h.past
  · rw [hhistory]
    exact h.future

/-! ## Building blocks -/

theorem track_change {c : Change α} {Q : α → Text → Prop}
    (hc : Change.Meets k c s.workspace.journal.text Q) (hs : Within k s) :
    Safe (Within k) (change c) s fun a s' =>
      s'.history = s.history ∧ Q a s'.workspace.journal.text := by
  obtain ⟨hin, hresult⟩ := hc s.workspace hs rfl
  exact ⟨hin, fun a ha => ⟨rfl, hresult a ha⟩⟩

theorem keep_say (status : Option Text) (hs : Within k s) :
    Safe (Within k) (say status) s fun _ s' =>
      s'.workspace = s.workspace ∧ s'.history = s.history := by
  refine Safe.bind (Safe.modify (I := Within k) hs) fun _ s' hs' hmodified => ?_
  subst hmodified
  exact Safe.pure hs' ⟨rfl, rfl⟩

theorem keep_announce (occasion : Occasion) (status : Option Text) (hs : Within k s) :
    Safe (Within k) (announce occasion status) s fun _ s' =>
      s'.workspace = s.workspace ∧ s'.history = s.history := by
  refine Safe.bind (Safe.modify (I := Within k) hs) fun _ s' hs' hmodified => ?_
  subst hmodified
  exact keep_say status hs'

theorem track_say (status : Option Text) (h : Tracks k s line) :
    Safe (Within k) (say status) s fun _ s' => Tracks k s' line := by
  refine (keep_say status h.inside).imp fun _ s' hs' hkept => ?_
  exact h.same hs' (by rw [hkept.1]) hkept.2

theorem track_announce (occasion : Occasion) (status : Option Text) (h : Tracks k s line) :
    Safe (Within k) (announce occasion status) s fun _ s' => Tracks k s' line := by
  refine (keep_announce occasion status h.inside).imp fun _ s' hs' hkept => ?_
  exact h.same hs' (by rw [hkept.1]) hkept.2

theorem track_display {f : Workspace → Workspace} (h : Tracks k s line)
    (hf : (f s.workspace).journal = s.workspace.journal ∧
      (f s.workspace).settings = s.workspace.settings ∧
        (f s.workspace).today = s.workspace.today) :
    Safe (Within k) (display f) s fun _ s' => Tracks k s' line := by
  obtain ⟨hjournal, hsettings, htoday⟩ := hf
  have hin : Within k { s with workspace := f s.workspace } :=
    ⟨hsettings.trans h.inside.settings, htoday.trans h.inside.today⟩
  refine Safe.imp (Safe.modify (I := Within k) hin) fun _ s' hs' hmodified => ?_
  subst hmodified
  exact h.same hs' (congrArg Journal.text hjournal) rfl

/-! ## The history -/

/-- The session is one change further on the timeline, if there was a change at all. -/
def Advances (k : Surroundings) (s : Session) (line : Timeline) (acts : Bool) (s' : Session) :
    Prop :=
  Tracks k s' (if acts then line.push s.history.depth s'.workspace.journal.text else line)

/-- An action that is recorded, when what was done before it and the action itself lead to a new
text. -/
theorem track_record {a : Action} (h : Tracks k s line) (hs' : Within k s')
    (hhistory : s'.history = s.history)
    (ha : Change.Meets k a.perform s'.workspace.journal.text fun b u =>
      PlainDocument u ∧ ∃ a', Action.Swaps k a' b line.present u) :
    Safe (Within k) (record a) s' fun _ s'' => Advances k s line true s'' := by
  refine Safe.bind (track_change ha hs') fun reverse s₁ hs₁ h₁ => ?_
  obtain ⟨hhistory₁, hnew, a', hswaps⟩ := h₁
  rw [hhistory] at hhistory₁
  refine Safe.bind (Safe.modify (I := Within k) hs₁) fun _ s₂ hs₂ hmodified => ?_
  subst hmodified
  -- The new link leads back to where the timeline was; the oldest one is forgotten.
  have hchain : Chain k s₁.workspace.journal.text
      (⟨reverse, a.describe⟩ :: s.history.undo) (line.present :: line.past) :=
    .cons a' h.plain hswaps.symm h.past
  have hundo : (s.history.record reverse a.describe).undo =
      (⟨reverse, a.describe⟩ :: s.history.undo).take s.history.depth :=
    History.undo_record ((Nat.le_add_right _ _).trans h.fits)
  rw [hhistory₁] at hs₂ ⊢
  refine Safe.pure hs₂ ⟨hs₁, rfl, hnew, h.deep, ?_, ?_, .nil _⟩
  · show (s.history.record reverse a.describe).undo.length + 0 ≤ s.history.depth
    rw [hundo]
    exact List.length_take_le _ _
  · show Chain k _ (s.history.record reverse a.describe).undo _
    rw [hundo]
    exact hchain.take s.history.depth

theorem track_execute {a : Action} (h : Tracks k s line) (hs' : Within k s')
    (hhistory : s'.history = s.history)
    (ha : Change.Meets k a.perform s'.workspace.journal.text fun b u =>
      PlainDocument u ∧ ∃ a', Action.Swaps k a' b line.present u) :
    Safe (Within k) (execute a) s' fun _ s'' => Advances k s line true s'' := by
  refine Safe.bind (track_record h hs' hhistory ha) fun _ s₁ _ h₁ => ?_
  refine (track_announce .run _ h₁).imp fun _ s₂ _ h₂ => ?_
  unfold Advances
  rwa [h₂.text]

theorem track_undo (h : Tracks k s line) :
    Safe (Within k) undo s fun _ s' => Tracks k s' line.back := by
  obtain ⟨past, present, future⟩ := line
  obtain ⟨hin, htext, hplain, hdeep, hfits, hpast, hfuture⟩ := h
  have htakeBack : Safe (Within k) takeBack s fun _ s' =>
      Tracks k s' (Timeline.back ⟨past, present, future⟩) := by
    refine Safe.bind (Safe.get hin) ?_
    rintro _ _ - ⟨rfl, rfl⟩
    -- The chain behind has one link for each step, so the cases of the one are those of the other.
    generalize hundo : s.history.undo = steps at hfits hpast
    cases hpast with
    | nil =>
        rw [← hundo] at hfits
        exact Safe.pure hin ⟨hin, htext, hplain, hdeep, hfits, by rw [hundo]; exact .nil _, hfuture⟩
    | @cons step _ u steps texts reverse hu hswaps hmore =>
        refine Safe.bind (Safe.modify (I := Within k) hin) fun _ s₁ hs₁ hmodified => ?_
        subst hmodified
        have hleads : Action.Leads k step.action s.workspace.journal.text reverse u := by
          rw [htext]
          exact hswaps.there
        refine Safe.bind (track_change hleads hs₁) fun reverse' s₂ hs₂ h₂ => ?_
        obtain ⟨hhistory, rfl, htext₂⟩ := h₂
        refine Safe.bind (Safe.modify (I := Within k) hs₂) fun _ s₃ hs₃ hmodified => ?_
        subst hmodified
        refine Safe.pure hs₃ ⟨hs₂, htext₂, hu, ?_, ?_, ?_, ?_⟩
        · show 0 < s₂.history.depth
          rw [hhistory]
          exact hdeep
        · show s₂.history.undo.length + (s₂.history.redo.length + 1) ≤ s₂.history.depth
          rw [hhistory]
          show steps.length + (s.history.redo.length + 1) ≤ s.history.depth
          rw [List.length_cons] at hfits
          omega
        · show Chain k u s₂.history.undo texts
          rw [hhistory]
          exact hmore
        · show Chain k u (⟨reverse', step.action.describe⟩ :: s₂.history.redo) (present :: future)
          rw [hhistory]
          exact .cons step.action hplain hswaps.symm hfuture
  exact Safe.bind htakeBack fun _ _ _ h' => track_announce .undo _ h'

theorem track_redo (h : Tracks k s line) :
    Safe (Within k) redo s fun _ s' => Tracks k s' line.forth := by
  obtain ⟨past, present, future⟩ := line
  obtain ⟨hin, htext, hplain, hdeep, hfits, hpast, hfuture⟩ := h
  have hmakeAgain : Safe (Within k) makeAgain s fun _ s' =>
      Tracks k s' (Timeline.forth ⟨past, present, future⟩) := by
    refine Safe.bind (Safe.get hin) ?_
    rintro _ _ - ⟨rfl, rfl⟩
    generalize hredo : s.history.redo = steps at hfits hfuture
    cases hfuture with
    | nil =>
        rw [← hredo] at hfits
        exact Safe.pure hin ⟨hin, htext, hplain, hdeep, hfits, hpast, by rw [hredo]; exact .nil _⟩
    | @cons step _ u steps texts reverse hu hswaps hmore =>
        refine Safe.bind (Safe.modify (I := Within k) hin) fun _ s₁ hs₁ hmodified => ?_
        subst hmodified
        have hleads : Action.Leads k step.action s.workspace.journal.text reverse u := by
          rw [htext]
          exact hswaps.there
        refine Safe.bind (track_change hleads hs₁) fun reverse' s₂ hs₂ h₂ => ?_
        obtain ⟨hhistory, rfl, htext₂⟩ := h₂
        refine Safe.bind (Safe.modify (I := Within k) hs₂) fun _ s₃ hs₃ hmodified => ?_
        subst hmodified
        refine Safe.pure hs₃ ⟨hs₂, htext₂, hu, ?_, ?_, ?_, ?_⟩
        · show 0 < s₂.history.depth
          rw [hhistory]
          exact hdeep
        · show s₂.history.undo.length + 1 + s₂.history.redo.length ≤ s₂.history.depth
          rw [hhistory]
          show s.history.undo.length + 1 + steps.length ≤ s.history.depth
          rw [List.length_cons] at hfits
          omega
        · show Chain k u (⟨reverse', step.action.describe⟩ :: s₂.history.undo) (present :: past)
          rw [hhistory]
          exact .cons step.action hplain hswaps.symm hpast
        · show Chain k u s₂.history.redo texts
          rw [hhistory]
          exact hmore
  exact Safe.bind hmakeAgain fun _ _ _ h' => track_announce .redo _ h'

/-! ## Views -/

theorem track_viewDay (day : Option Date) (h : Tracks k s line) :
    Safe (Within k) (viewDay day) s fun _ s' => Tracks k s' line := by
  have hview : ∀ {s' : Session}, Tracks k s' line → Safe (Within k) (do
      let w := (← get).workspace
      return if w.settings.hideCompleted then w.dayView.withoutCompleted else w.dayView) s'
      fun _ s'' => Tracks k s'' line := by
    intro s' h'
    refine Safe.bind (Safe.get (I := Within k) h'.inside) ?_
    rintro _ _ hs'' ⟨rfl, rfl⟩
    exact Safe.pure hs'' h'
  refine Safe.bind (Safe.get (I := Within k) h.inside) ?_
  rintro _ _ - ⟨rfl, rfl⟩
  dsimp only
  split
  · exact hview h
  · exact Safe.bind (track_display h (Workspace.journal_showDay _ _)) fun _ _ _ h' => hview h'
  · split
    · exact hview h
    · exact Safe.bind (track_display h (Workspace.journal_showDay _ _)) fun _ _ _ h' => hview h'

theorem track_viewFilter (query : Text) (h : Tracks k s line) :
    Safe (Within k) (viewFilter query) s fun _ s' => Tracks k s' line := by
  refine Safe.bind (Safe.get (I := Within k) h.inside) ?_
  rintro _ _ - ⟨rfl, rfl⟩
  refine Safe.bind (safe_ask (I := Within k) h.inside) ?_
  rintro opened _ - ⟨rfl, hopened⟩
  refine Safe.bind (track_display h (Workspace.journal_openFilter hopened)) fun _ s' hs' h' => ?_
  split
  · exact Safe.bind (track_say _ h') fun _ _ hs'' h'' => Safe.pure hs'' h''
  · exact Safe.pure hs' h'

theorem track_exitFilter (h : Tracks k s line) :
    Safe (Within k) exitFilter s fun _ s' => Tracks k s' line :=
  track_display h ⟨rfl, rfl, rfl⟩

/-! ## Changes of entries -/

theorem track_add {content : Text} {kind : Kind} {day : Option Date} (h : Tracks k s line)
    (hc : (Call.add content kind day).Plain s.workspace) :
    Safe (Within k) (add content kind day) s fun _ s' => Advances k s line true s' := by
  obtain ⟨late, hnormal⟩ := hc
  refine Safe.bind (Safe.get (I := Within k) h.inside) ?_
  rintro _ _ - ⟨rfl, rfl⟩
  refine Safe.bind (safe_ask (I := Within k) h.inside) ?_
  rintro normal _ - ⟨rfl, hok⟩
  have he : ∀ e ∈ [(⟨kind, normal, false⟩ : Entry)], e.Plain := by
    simpa using ⟨hnormal normal hok, fun hcompleted => by cases hcompleted⟩
  refine Safe.bind (track_change (Change.meets_append _ _) h.inside) fun index s₁ hs₁ h₁ => ?_
  obtain ⟨hhistory, rfl, htext₁⟩ := h₁
  rw [h.text] at htext₁ ⊢
  have fits : Fits line.present ⟨day.getD s.workspace.day,
      (dayLines line.present (day.getD s.workspace.day)).length⟩ := ⟨late, by simp, le_rfl⟩
  rw [← linesWith_eq_append rfl] at htext₁
  apply track_execute h hs₁ hhistory
  apply Change.meets_pure
  rw [htext₁]
  exact ⟨h.plain.putEntries fits he, _, Action.swaps_create h.plain fits (he _ (by simp))⟩

theorem track_edit {location : Location} {content : Text} (h : Tracks k s line)
    (hc : (Call.edit location content).Plain s.workspace) :
    Safe (Within k) (edit location content) s fun _ s' => Advances k s line true s' := by
  refine Safe.bind (safe_ask (I := Within k) h.inside) ?_
  rintro place _ - ⟨rfl, -⟩
  refine Safe.bind (Safe.get (I := Within k) h.inside) ?_
  rintro _ _ - ⟨rfl, rfl⟩
  refine Safe.bind (track_change (Change.meets_save place content) h.inside)
    fun new s₁ hs₁ h₁ => ?_
  obtain ⟨hhistory, hnormal, htext₁⟩ := h₁
  have hnew : PlainContent new := hc new (by rw [h.inside.normalize, hnormal])
  have hold : s.workspace.journal.entry? place = entryIn line.present place := by
    rw [← h.text]
    rfl
  rw [h.text] at htext₁
  rw [hold]
  have hedit : ∀ e : Entry, e.Plain → Entry.Plain { e with content := new } :=
    fun e he => ⟨hnew, he.completed⟩
  have hplain := h.plain.mapEntry hedit place
  apply track_execute h hs₁ hhistory
  apply Change.meets_pure
  rw [htext₁]
  exact ⟨hplain, _, Action.swaps_edit h.plain hnew⟩

theorem plain_pastedEntries {text : Text} {w : Workspace} {entries : List Entry}
    (h : pastedEntries text w = .ok entries) (hcontents : ∀ e ∈ entries, PlainContent e.content) :
    ∀ e ∈ entries, e.Plain := by
  intro e he
  obtain ⟨l, -, hmade⟩ := exists_of_mem_mapM h he
  obtain ⟨normal, -, heq⟩ := bind_eq_ok.1 hmade
  cases heq
  refine ⟨hcontents _ he, ?_⟩
  show (Entry.ofAnyLine l).completed = true → (Entry.ofAnyLine l).kind = .task
  cases hline : Entry.ofLine? l with
  | none => simp [Entry.ofAnyLine, hline]
  | some e =>
      rw [Entry.ofAnyLine, hline, Option.getD_some]
      exact Entry.completed_of_ofLine hline

theorem track_paste {text : Text} {day : Option Date} {index : Option Int} (h : Tracks k s line)
    (hc : (Call.paste text day index).Plain s.workspace) :
    Safe (Within k) (paste text day index) s fun _ s' =>
      Advances k s line ((Call.paste text day index).acts s.workspace) s' := by
  obtain ⟨late, hindex, hcontents⟩ := hc
  refine Safe.bind (Safe.get (I := Within k) h.inside) ?_
  rintro _ _ - ⟨rfl, rfl⟩
  refine Safe.bind (safe_ask (I := Within k) h.inside) ?_
  rintro entries _ - ⟨rfl, hentries⟩
  have hplain := plain_pastedEntries hentries (hcontents entries hentries)
  have hacts : (Call.paste text day index).acts s.workspace = !entries.isEmpty := by
    rw [isEmpty_of_mapM hentries, Call.acts]
    rw [Bool.eq_iff_iff]
    simp [List.isEmpty_eq_false_iff]
  rw [hacts]
  dsimp only
  split
  · next hempty => exact Safe.pure h.inside (by simpa [Advances, hempty] using h)
  · next hne =>
    have hfilled : entries ≠ [] := by simpa using hne
    have hwritten : ∀ {s₁ : Session} {start : Int}, Within k s₁ → s₁.history = s.history →
        Fits line.present ⟨day.getD s.workspace.day, start⟩ →
        s₁.workspace.journal.text =
          putEntries line.present ⟨day.getD s.workspace.day, start⟩ entries →
        Safe (Within k) (execute (.paste .recorded ⟨day.getD s.workspace.day, start⟩ entries)) s₁
          fun _ s' => Advances k s line true s' := by
      intro s₁ start hs₁ hhistory fits htext₁
      apply track_execute h hs₁ hhistory
      apply Change.meets_pure
      rw [htext₁]
      exact ⟨h.plain.putEntries fits hplain, _, Action.swaps_paste h.plain fits hplain⟩
    have hnot : (!entries.isEmpty) = true := by simpa using hne
    rw [hnot]
    cases index with
    | none =>
        refine Safe.bind (track_change (Change.meets_append _ _) h.inside) fun _ s₁ hs₁ h₁ => ?_
        obtain ⟨hhistory, rfl, htext₁⟩ := h₁
        rw [h.text] at htext₁ ⊢
        refine hwritten hs₁ hhistory ⟨late, by simp, le_rfl⟩ ?_
        rw [htext₁, putEntries, linesWith_eq_append rfl]
    | some start =>
        have hstart : 0 ≤ start := hindex start rfl
        refine Safe.bind (track_change (Change.meets_insert _ _) h.inside) fun _ s₁ hs₁ h₁ => ?_
        obtain ⟨hhistory, rfl, htext₁⟩ := h₁
        rw [h.text] at htext₁ ⊢
        rw [Line.insertEntries_headD hfilled]
        refine hwritten hs₁ hhistory ⟨late, by simp [hstart], by simp⟩ ?_
        rw [htext₁, putEntries, linesWith_eq_insertEntries hstart]

theorem track_onAll {check : Row → Except Fault Unit} {action : List Address → Action}
    {locations : List Location} (h : Tracks k s line)
    (ha : Action.Reversible k (action (locations.map s.workspace.resolve)) line.present) :
    Safe (Within k) (onAll check action locations) s fun _ s' =>
      Advances k s line (!locations.isEmpty) s' := by
  refine Safe.bind (safe_ask (I := Within k) h.inside) ?_
  rintro places _ - ⟨rfl, hplaces⟩
  have hresolved : places = locations.map s.workspace.resolve :=
    eq_map_of_mapM (fun _ _ hchecked => (checked_eq_ok hchecked).symm) hplaces
  rw [hresolved, List.isEmpty_map]
  cases hempty : locations.isEmpty with
  | true => exact Safe.pure h.inside h
  | false =>
      apply track_execute h h.inside rfl
      rw [h.text]
      exact ha

theorem track_appendTag {tag : Text} {locations : List Location} (h : Tracks k s line)
    (hname : Tag.isName (s.workspace.tagName tag) = true)
    (hrewinds : (Call.appendTag tag locations).Rewinds s.workspace) :
    Safe (Within k) (appendTag tag locations) s fun _ s' =>
      Advances k s line (!locations.isEmpty) s' := by
  refine Safe.bind (Safe.get (I := Within k) h.inside) ?_
  rintro _ _ - ⟨rfl, rfl⟩
  show Safe (Within k)
    (onAll Row.ensureEditable (Action.appendTag (s.workspace.tagName tag)) locations) s _
  rw [Action.appendTag_eq_changeTags hname]
  apply track_onAll h
  rw [Call.Rewinds, h.text] at hrewinds
  exact (Action.batched_changeTags fun t ht => by cases ht; exact hname).reversible h.plain hrewinds

theorem track_move {location : Location} {day : Date} (h : Tracks k s line)
    (late : 1000 ≤ day.year) :
    Safe (Within k) (move location day) s fun _ s' =>
      Advances k s line ((s.workspace.resolve location).day != day) s' := by
  refine Safe.bind (safe_ask (I := Within k) h.inside) ?_
  rintro place _ - ⟨rfl, hplace⟩
  rw [← checked_eq_ok hplace]
  by_cases hday : place.day = day
  · rw [if_pos hday, hday, bne_self_eq_false]
    exact track_say _ h
  · rw [if_neg hday, bne_iff_ne.2 hday]
    apply track_execute h h.inside rfl
    rw [h.text]
    exact Action.reversible_move h.plain late

/-! ## Runs -/

theorem track_discard {c : Command α} {acts : Bool}
    (h : Safe (Within k) c s fun _ s' => Advances k s line acts s') :
    Safe (Within k) (discard c) s fun _ s' => Advances k s line acts s' :=
  Safe.bind h fun _ _ hs' h' => Safe.pure hs' h'

theorem track_command {c : Call} (h : Tracks k s line)
    (hfavorites : ∀ f ∈ k.settings.favorites, Tag.isName f.2 = true) (hc : c.Plain s.workspace)
    (hrewinds : c.Rewinds s.workspace) :
    Safe (Within k) c.command s fun _ s' =>
      Tracks k s' (line.step s c s'.workspace.journal.text) := by
  have hlines : ∀ f ∈ k.settings.favorites, '\n' ∉ f.2 :=
    fun f hf => Tag.newline_not_mem_of_isName (hfavorites f hf)
  cases c with
  | viewDay day => exact Safe.bind (track_viewDay day h) fun _ _ hs' h' => Safe.pure hs' h'
  | viewFilter query =>
      exact Safe.bind (track_viewFilter query h) fun _ _ hs' h' => Safe.pure hs' h'
  | exitFilter => exact track_exitFilter h
  | add content kind day => exact track_discard (track_add h hc)
  | edit location content => exact track_discard (track_edit h hc)
  | paste text day index => exact track_discard (track_paste h hc)
  | delete locations =>
      exact track_discard (track_onAll h (Action.reversible_delete h.plain _))
  | toggle locations =>
      exact track_discard (track_onAll h (Action.reversible_toggle h.plain _))
  | cycleKinds locations =>
      rw [Call.Rewinds, h.text] at hrewinds
      exact track_discard (track_onAll h (Action.batched_cycleKinds.reversible h.plain hrewinds))
  | appendTag tag locations => exact track_discard (track_appendTag h hc hrewinds)
  | removeLastTag locations =>
      rw [Call.Rewinds, h.text] at hrewinds
      exact track_discard (track_onAll h
        ((Action.batched_changeTags fun _ ht => by cases ht).reversible h.plain hrewinds))
  | removeAllTags locations =>
      rw [Call.Rewinds, h.text] at hrewinds
      exact track_discard (track_onAll h
        ((Action.batched_changeTags fun _ ht => by cases ht).reversible h.plain hrewinds))
  | changeDates change locations =>
      rw [Call.Rewinds, h.text, h.inside.surroundings_eq] at hrewinds
      exact track_discard (track_onAll h
        ((Action.batched_changeDates hc hlines).reversible h.plain hrewinds))
  | move location day => exact track_discard (track_move h hc)
  | deleteTag tag => exact hc.elim
  | deleteTagFromCompleted tag => exact hc.elim
  | renameTag tag newName => exact hc.elim
  | undo => exact Safe.bind (track_undo h) fun _ _ hs' h' => Safe.pure hs' h'
  | redo => exact Safe.bind (track_redo h) fun _ _ hs' h' => Safe.pure hs' h'

theorem tracks_turn {turn : Turn} (h : Tracks k s line)
    (hfavorites : ∀ f ∈ k.settings.favorites, Tag.isName f.2 = true)
    (hplain : turn.call.Plain (s.allow turn.writes).workspace)
    (hok : (s.allow turn.writes).succeeds turn.call = true)
    (hrewinds : turn.call.Rewinds (s.allow turn.writes).workspace) :
    Tracks k (s.turn turn) (line.step (s.allow turn.writes) turn.call
      (s.turn turn).workspace.journal.text) := by
  have hin : Within k (s.allow turn.writes) := ⟨h.inside.settings, h.inside.today⟩
  have hallowed : Tracks k (s.allow turn.writes) line := h.same hin rfl rfl
  -- `track_command` speaks of calls that succeed only: a change that fails halfway leaves the
  -- timeline.
  have hresult := (track_command hallowed hfavorites hplain hrewinds).2 ()
  rw [run_of_succeeds hok] at hresult
  exact hresult rfl

theorem tracks_run {turns : List Turn} (h : Tracks k s line)
    (hfavorites : ∀ f ∈ k.settings.favorites, Tag.isName f.2 = true) (hplain : s.PlainRun turns)
    (hrewinds : s.Rewinds turns) : Tracks k (s.run turns) (timeline line s turns) := by
  induction turns generalizing s line with
  | nil => exact h
  | cons t more ih =>
      obtain ⟨hcall, hok, hmore⟩ := hplain
      exact ih (tracks_turn h hfavorites hcall hok hrewinds.1) hmore hrewinds.2

end Session

end DayJournal

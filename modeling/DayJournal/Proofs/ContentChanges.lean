import DayJournal.Proofs.HistorySteps
import DayJournal.Proofs.LinearHistory
import DayJournal.Proofs.ReplacedContent

/-!
# Changes of one content that are taken back

An edit, a tag added and a date removed put a new content where an old one stood, and what takes
them back puts the old content into whatever then stands there.  The main statement says exactly
when that restores the document: on the last line of its day the new content must not be blank, and
that of a note must not begin with the box of a task.
-/

namespace DayJournal

open Text Document Change

theorem Workspace.In.tagName {w w' : Workspace} (hin : w'.In ⟨w.settings, w.today⟩) (tag : Text) :
    w'.tagName tag = w.tagName tag := by
  rw [Workspace.tagName, Workspace.tagName, hin.settings]

/-- The second workspace is the first one after a content has been put at a place. -/
structure Workspace.Puts (w : Workspace) (place : Address) (content : Text) (w' : Workspace) :
    Prop where
  inside : w'.In ⟨w.settings, w.today⟩
  writes : w'.journal.writesLeft = none
  text : w'.journal.text = mapEntry w.journal.text place fun e => { e with content }

theorem Workspace.exists_persist {w : Workspace} (hwrites : w.journal.writesLeft = none)
    (place : Address) (content : Text) :
    ∃ w', w.persist place content = .ok ((), w') ∧ w.Puts place content w' := by
  obtain ⟨w', hchange, hin, hwrites', htext⟩ := Change.exists_changeEntry hwrites place
    fun e => { e with content }
  exact ⟨w', hchange, hin, hwrites', htext⟩

/-- A change of the content of one entry. -/
inductive ContentChange where
  | edit (content : Text)
  | appendTag (tag : Text)
  | removeDate

namespace ContentChange

def call (location : Location) : ContentChange → Call
  | edit content => .edit location content
  | appendTag tag => .appendTag tag [location]
  | removeDate => .changeDates .remove [location]

def check : ContentChange → Row → Except Fault Unit
  | removeDate => Row.ensureDateOperable
  | _ => Row.ensureEditable

def Given (w : Workspace) : ContentChange → Prop
  | edit content => '\n' ∉ content
  | appendTag tag => Tag.isName (w.tagName tag) = true
  | removeDate => True

def result (w : Workspace) (old : Text) : ContentChange → Except Fault Text
  | edit content => w.normalize content
  | appendTag tag => .ok (old ++ " #".toList ++ w.tagName tag)
  | removeDate => (DateMark.remove? old).elim (.ok old) fun content => w.normalize content

def again (w : Workspace) (place : Address) (old new : Text) : ContentChange → Action
  | edit _ => .edit .makingAgain place old new
  | appendTag tag => .changeTags (.append (w.tagName tag)) [place]
  | removeDate => .changeDates .remove [place]

def reverse (w : Workspace) (place : Address) (old new : Text) : ContentChange → Action
  | edit _ => .edit .takingBack place old new
  | appendTag tag => .restoreTags (.append (w.tagName tag)) [⟨place, old⟩]
  | removeDate => .restoreDates .remove [⟨place, old⟩]

variable {c : ContentChange} {w w' : Workspace} {place : Address} {e : Entry} {old new : Text}

/-! ## What is written -/

theorem result_removeDate (hnew : removeDate.result w old = .ok new) :
    (DateMark.remove? old = none ∧ new = old) ∨
      ∃ content, DateMark.remove? old = some content ∧ w.normalize content = .ok new := by
  rw [result] at hnew
  cases hremove : DateMark.remove? old with
  | none =>
      rw [hremove] at hnew
      cases hnew
      exact Or.inl ⟨rfl, rfl⟩
  | some content =>
      rw [hremove] at hnew
      exact Or.inr ⟨content, rfl, hnew⟩

section Result

variable (hnew : c.result w old = .ok new)
include hnew

theorem newline_not_mem_result (hfavorites : ∀ f ∈ w.settings.favorites, '\n' ∉ f.2)
    (hgiven : c.Given w) (hold : '\n' ∉ old) : '\n' ∉ new := by
  cases c with
  | edit content => exact Workspace.newline_not_mem_normalize hfavorites hgiven hnew
  | appendTag tag =>
      cases hnew
      simpa using ⟨hold, Tag.newline_not_mem_of_isName hgiven⟩
  | removeDate =>
      rcases result_removeDate hnew with ⟨-, rfl⟩ | ⟨content, hremove, hnormal⟩
      · exact hold
      · have htransform : DateChange.remove.transform w.today old = .ok (some content) :=
          congrArg Except.ok hremove
        exact Workspace.newline_not_mem_normalize hfavorites
          (DateChange.newline_not_mem_transform hold htransform) hnormal

theorem trimEnd_result (hgiven : c.Given w) (hold : trimEnd old = old) : trimEnd new = new := by
  cases c with
  | edit content => exact Workspace.trimEnd_of_normalize hnew
  | appendTag tag =>
      cases hnew
      exact Tag.trimEnd_append hgiven (old ++ " #".toList)
  | removeDate =>
      rcases result_removeDate hnew with ⟨-, rfl⟩ | ⟨content, -, hnormal⟩
      · exact hold
      · exact Workspace.trimEnd_of_normalize hnormal

end Result

/-! ## The actions -/

theorem exists_run_again (hdocument : UnindentedDocument w.journal.text)
    (hwrites : w.journal.writesLeft = none) (he : w.journal.entry? place = some e)
    (hnew : c.result w e.content = .ok new) :
    ∃ w', (c.again w place e.content new).perform.run w =
      (.ok (c.reverse w place e.content new), w') ∧ w.Puts place new w' := by
  obtain ⟨w', hpersist, hputs⟩ := Workspace.exists_persist hwrites place new
  have hwrite : (Change.persist place new).run w = (.ok (), w') := run_single hpersist
  cases c with
  | edit content => exact ⟨w', (run_bind_ok hwrite).trans rfl, hputs⟩
  | appendTag tag =>
      cases hnew
      have hcontents : (contents (fun _ content => .ok (TagChange.transform
          (.append (w.tagName tag)) content)) Change.persist [place]).run w =
          (.ok [⟨place, e.content⟩], w') := run_contents he rfl hwrite
      exact ⟨w', (run_bind_ok hcontents).trans rfl, hputs⟩
  | removeDate =>
      have hcontents : ∀ {t? v}, DateMark.remove? e.content = t? →
          (t?.elim (pure ()) (Change.saveContent place)).run w = (.ok (), v) →
          (contents (fun w => DateChange.remove.transform w.today) Change.saveContent
            [place]).run w = (.ok [⟨place, e.content⟩], v) :=
        fun hremove hrun => run_contents he (congrArg Except.ok hremove) hrun
      rcases result_removeDate hnew with ⟨hremove, rfl⟩ | ⟨content, hremove, hnormal⟩
      -- Without a date mark nothing is written, which is as good as writing the entry again.
      · exact ⟨w, (run_bind_ok (hcontents hremove rfl)).trans rfl, ⟨rfl, rfl⟩, hwrites,
          (hdocument.mapEntry_self he).symm⟩
      · have hsave := run_saveContent hnormal hpersist
        exact ⟨w', (run_bind_ok (hcontents hremove hsave)).trans rfl, hputs⟩

theorem exists_run_reverse (hwrites : w.journal.writesLeft = none) (c : ContentChange)
    (v : Workspace) (place : Address) (old new : Text) :
    ∃ w', (c.reverse v place old new).perform.run w = (.ok (c.again v place old new), w') ∧
      w.Puts place old w' := by
  obtain ⟨w', hpersist, hputs⟩ := Workspace.exists_persist hwrites place old
  have hwrite : (Change.persist place old).run w = (.ok (), w') := run_single hpersist
  have hrestore : (restoreContents [⟨place, old⟩]).run w = (.ok [place], w') := by
    rw [restoreContents, List.mapM_cons]
    exact (run_bind_ok ((run_bind_ok hwrite).trans rfl)).trans rfl
  refine ⟨w', ?_, hputs⟩
  cases c with
  | edit content => exact (run_bind_ok hwrite).trans rfl
  | appendTag tag => exact (run_bind_ok hrestore).trans rfl
  | removeDate => exact (run_bind_ok hrestore).trans rfl

/-! ## The session after a change -/

theorem result_of_in (hin : w'.In ⟨w.settings, w.today⟩) (old : Text) :
    c.result w' old = c.result w old := by
  have hnormal : ∀ content, w'.normalize content = w.normalize content := fun content =>
    (hin.normalize content).trans (Workspace.In.normalize ⟨rfl, rfl⟩ content).symm
  cases c with
  | edit content => exact hnormal content
  | appendTag tag => rw [result, result, hin.tagName]
  | removeDate => rw [result, result, funext hnormal]

theorem again_of_in (hin : w'.In ⟨w.settings, w.today⟩) (place : Address) (old new : Text) :
    c.again w' place old new = c.again w place old new := by
  cases c with
  | appendTag tag => rw [again, again, hin.tagName]
  | _ => rfl

end ContentChange

namespace Session

open ContentChange

variable {s : Session} {c : ContentChange} {location : Location} {place : Address} {e : Entry}
  {new : Text}

theorem exists_run_call (hdocument : UnindentedDocument s.workspace.journal.text)
    (hwrites : s.workspace.journal.writesLeft = none) (hdeep : 0 < s.history.depth)
    (hplace : s.workspace.checked c.check location = .ok place)
    (he : s.workspace.journal.entry? place = some e) (hgiven : c.Given s.workspace)
    (hnew : c.result s.workspace e.content = .ok new) :
    ∃ s', (c.call location).command.run s = (.ok (), s') ∧
      s.workspace.Puts place new s'.workspace ∧ ∃ step rest, s'.history.undo = step :: rest ∧
        step.action = c.reverse s.workspace place e.content new := by
  cases c with
  | edit content =>
      obtain ⟨w', hpersist, hputs⟩ := Workspace.exists_persist hwrites place new
      have hedit := run_edit hplace (run_save hnew hpersist)
      rw [he, Option.elim_some] at hedit
      -- The first run of what is recorded changes nothing: the edit has been made.
      obtain ⟨s', hexecute, rfl, rest, hundo⟩ := exists_run_execute
        (s := { s with workspace := w' }) (a := .edit .recorded place e.content new) hdeep rfl
      exact ⟨s', run_discard (hedit.trans hexecute), hputs, _, rest, hundo, rfl⟩
  | appendTag tag =>
      obtain ⟨w', hagain, hputs⟩ := exists_run_again hdocument hwrites he hnew
      obtain ⟨s', hexecute, rfl, rest, hundo⟩ := exists_run_execute hdeep hagain
      have hcall := (run_appendTag hgiven [location]).trans ((run_onAll hplace _).trans hexecute)
      exact ⟨s', run_discard hcall, hputs, _, rest, hundo, rfl⟩
  | removeDate =>
      obtain ⟨w', hagain, hputs⟩ := exists_run_again hdocument hwrites he hnew
      obtain ⟨s', hexecute, rfl, rest, hundo⟩ := exists_run_execute hdeep hagain
      have hcall := (run_onAll hplace _).trans hexecute
      exact ⟨s', run_discard hcall, hputs, _, rest, hundo, rfl⟩

/-- A change of one content puts the new content at its place and can be undone.  The undo gives the
document back just when the new content was kept, and then a redo gives the changed document
again. -/
theorem undo_contentChange (hdocument : UnindentedDocument s.workspace.journal.text)
    (hfavorites : ∀ f ∈ s.workspace.settings.favorites, '\n' ∉ f.2)
    (hwrites : s.workspace.journal.writesLeft = none) (hdeep : 0 < s.history.depth)
    (hplace : s.workspace.checked c.check location = .ok place)
    (he : s.workspace.journal.entry? place = some e) (hgiven : c.Given s.workspace)
    (hnew : c.result s.workspace e.content = .ok new) :
    let changed := s.after (c.call location)
    let undone := changed.after .undo
    let redone := undone.after .redo
    s.succeeds (c.call location) = true ∧
      changed.workspace.journal.text =
        mapEntry s.workspace.journal.text place (fun a => { a with content := new }) ∧
      changed.succeeds .undo = true ∧
      (undone.workspace.journal.text = s.workspace.journal.text ↔
        e.Keeps (EndsDay s.workspace.journal.text place) new) ∧
      (e.Keeps (EndsDay s.workspace.journal.text place) new → undone.succeeds .redo = true ∧
        redone.workspace.journal.text = changed.workspace.journal.text) := by
  obtain ⟨s₁, hcall, hputs₁, step, rest, hundo, hstep⟩ :=
    exists_run_call hdocument hwrites hdeep hplace he hgiven hnew
  obtain ⟨hsucceeds₁, hafter₁⟩ := succeeds_of_run hcall
  obtain ⟨w₂, hreverse, hputs₂⟩ :=
    exists_run_reverse hputs₁.writes c s.workspace place e.content new
  rw [← hstep] at hreverse
  obtain ⟨s₂, hundone, rfl, hhistory₂⟩ := exists_run_undo hundo hreverse
  obtain ⟨hsucceeds₂, hafter₂⟩ := succeeds_of_run hundone
  have hnl : '\n' ∉ e.content := Journal.content_of_entry he
  have hrestored := hdocument.putBack_eq_iff he
    (newline_not_mem_result hnew hfavorites hgiven hnl)
    fun hlast => trimEnd_result hnew hgiven (hdocument.content_of_endsDay he hlast).1
  rw [← hputs₁.text, ← hputs₂.text] at hrestored
  simp only [hafter₁, hafter₂]
  refine ⟨hsucceeds₁, hputs₁.text, hsucceeds₂, hrestored, fun hkeeps => ?_⟩
  have hback := hrestored.2 hkeeps
  -- From here the change is made again, by the action that its reverse gave.
  have hin := hputs₂.inside
  rw [hputs₁.inside.surroundings_eq] at hin
  have hagain : s₂.workspace.journal.entry? place = some e := by
    show entryIn s₂.workspace.journal.text place = some e
    rw [hback]
    exact he
  rw [← hback] at hdocument
  obtain ⟨w₃, hmade, hputs₃⟩ := exists_run_again hdocument hputs₂.writes hagain
    ((result_of_in hin e.content).trans hnew)
  rw [again_of_in hin] at hmade
  obtain ⟨s₃, hredone, rfl, -⟩ := exists_run_redo (by rw [hhistory₂]) hmade
  obtain ⟨hsucceeds₃, hafter₃⟩ := succeeds_of_run hredone
  rw [hafter₃, hputs₃.text, hback, hputs₁.text]
  exact ⟨hsucceeds₃, rfl⟩

/-- A task that is given another text, which is undone and redone. -/
theorem undo_contentChange_edited :
    let s := start ⟨"# 2026/01/05\n- [ ] a\n".toList, none⟩ {} ⟨2026, 1, 5, by decide⟩
    ((s.after (.edit (.daily 0) "b".toList)).after .undo).workspace.journal.text =
        s.workspace.journal.text ∧
      (((s.after (.edit (.daily 0) "b".toList)).after .undo).after .redo).workspace.journal.text =
        (s.after (.edit (.daily 0) "b".toList)).workspace.journal.text := by
  intro s
  have hkeeps : Entry.Keeps ⟨.task, "a".toList, false⟩
      (EndsDay s.workspace.journal.text ⟨⟨2026, 1, 5, by decide⟩, 0⟩) "b".toList :=
    ⟨fun _ => by decide, fun hnote => by cases hnote⟩
  have hplace : s.workspace.checked (ContentChange.edit "b".toList).check (.daily 0) =
      .ok ⟨⟨2026, 1, 5, by decide⟩, 0⟩ := eq_ok_of_toOption (by decide +kernel)
  have hentry : s.workspace.journal.entry? ⟨⟨2026, 1, 5, by decide⟩, 0⟩ =
      some ⟨.task, "a".toList, false⟩ := by decide +kernel
  have hnew : (ContentChange.edit "b".toList).result s.workspace "a".toList = .ok "b".toList :=
    eq_ok_of_toOption (by decide +kernel)
  have hline : (ContentChange.edit "b".toList).Given s.workspace := by simp [ContentChange.Given]
  have hundone := (undo_contentChange (s := s) plainDocument_task.unindented
    (fun f hf => absurd hf List.not_mem_nil) rfl (Nat.succ_pos 49) hplace hentry hline hnew).2.2.2
  dsimp only [ContentChange.call] at hundone
  exact ⟨hundone.1.2 hkeeps, (hundone.2 hkeeps).2⟩

/-- A task on the last line that loses its text is read as a note, and stays one when its text is
put back. -/
theorem undo_contentChange_emptied :
    UnindentedDocument "# 2026/01/05\n- [ ] a\n".toList ∧
      let s := start ⟨"# 2026/01/05\n- [ ] a\n".toList, none⟩ {} ⟨2026, 1, 5, by decide⟩
      s.succeeds (.edit (.daily 0) []) = true ∧
        (s.after (.edit (.daily 0) [])).succeeds .undo = true ∧
        ((s.after (.edit (.daily 0) [])).after .undo).workspace.journal.text ≠
          s.workspace.journal.text := by
  refine ⟨plainDocument_task.unindented, ?_⟩
  decide +kernel

end Session

end DayJournal

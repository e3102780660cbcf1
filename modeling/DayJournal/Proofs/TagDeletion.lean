import DayJournal.Proofs.Effects
import DayJournal.Proofs.EntryRegister
import DayJournal.Proofs.TagErasure

/-!
# Deleting a tag

A tag is deleted together with the spaces and tabs before it, on whole lines.  Where that leaves
the blank behind the marker of each entry alone, and makes no box there, the days and the entries
of the document stay what they are, and only the entries that are left empty go
(`deleteTag_register`).  The blank of a marker goes too when the tag stands right behind it and
something else right behind the tag.
-/

namespace DayJournal

open Text Document

/-! ## Entries -/

/-- The marker of an entry without the blank at its end. -/
def Kind.sign : Kind → Bool → Text
  | task, false => "- [ ]".toList
  | task, true => "- [x]".toList
  | event, _ => "*".toList
  | note, _ => "-".toList

theorem Kind.marker_eq (kind : Kind) (completed : Bool) :
    kind.marker completed = kind.sign completed ++ [' '] := by
  cases kind <;> cases completed <;> rfl

/-- What stands behind the marker of a note makes it the marker of a task. -/
def IsBox (c : Text) : Prop :=
  "[ ] ".toList <+: c ∨ "[x] ".toList <+: c ∨ trimEnd c = "[ ]".toList ∨ trimEnd c = "[x]".toList

instance (c : Text) : Decidable (IsBox c) :=
  inferInstanceAs (Decidable (_ ∨ _ ∨ _ ∨ _))

namespace Entry

def sign (e : Entry) : Text := e.kind.sign e.completed

/-- What stands behind the sign of an entry once a tag is deleted. -/
def leftover (tag : Text) (completedOnly : Bool) (e : Entry) : Text :=
  if completedOnly && !e.completed then ' ' :: e.content else Tag.erase tag (' ' :: e.content)

def withoutTag (tag : Text) (completedOnly : Bool) (e : Entry) : Option Entry :=
  if isBlankText (e.leftover tag completedOnly) then none
  else some { e with content := (e.leftover tag completedOnly).drop 1 }

/-- The entry is left empty, or its marker is left as it is: the blank stays, and what comes to
stand behind it makes no box. -/
def Spared (tag : Text) (completedOnly : Bool) (e : Entry) : Prop :=
  isBlankText (e.leftover tag completedOnly) = true ∨
    (e.leftover tag completedOnly).head? = some ' ' ∧
      (e.kind = .note → ¬IsBox ((e.leftover tag completedOnly).drop 1))

instance (tag : Text) (completedOnly : Bool) (e : Entry) :
    Decidable (e.Spared tag completedOnly) :=
  inferInstanceAs (Decidable (_ ∨ _ ∧ _))

variable {e : Entry} {l : Text}

/-- An entry is spared whose content begins with something else than a tag, a gap or a box. -/
theorem spared_of_cons {c : Char} {rest : Text} (hcontent : e.content = c :: rest)
    (hgap : Tag.isGap c = false) (hmark : c ≠ '#') (hbox : e.kind = .note → c ≠ '[')
    (tag : Text) (completedOnly : Bool) : e.Spared tag completedOnly := by
  have hnotBox {s : Text} (hc : c ≠ '[') : ¬IsBox (c :: s) := by
    have hopen (b : Text) : ¬('[' :: b <+: c :: s) := fun h =>
      hc (List.cons_prefix_cons.1 h).1.symm
    rintro (h | h | h | h)
    · exact hopen _ h
    · exact hopen _ h
    · exact hopen _ (h ▸ isPrefix_trimEnd _)
    · exact hopen _ (h ▸ isPrefix_trimEnd _)
  have hleft : ∃ s, e.leftover tag completedOnly = ' ' :: c :: s := by
    rw [leftover, hcontent]
    split
    · exact ⟨rest, rfl⟩
    · refine ⟨Tag.erase tag rest, Tag.erase_append (u := [' ', c]) ?_ ?_ rest⟩
      · simp [hmark.symm]
      · intro d hd
        cases hd
        exact hgap
  obtain ⟨s, hs⟩ := hleft
  rw [Spared, hs]
  exact Or.inr ⟨rfl, fun hkind => hnotBox (hbox hkind)⟩

theorem line_eq (e : Entry) : e.line = e.sign ++ ' ' :: e.content := by
  rw [line, marker, Kind.marker_eq, List.append_assoc]
  rfl

theorem sign_eq_cons (e : Entry) : ∃ c rest, e.sign = c :: rest ∧ isBlank c = false ∧ c ≠ '#' := by
  rw [sign]
  cases e.kind <;> cases e.completed <;> exact ⟨_, _, rfl, by decide, by decide⟩

theorem not_mark_sign (e : Entry) : '#' ∉ e.sign := by
  rw [sign]
  cases e.kind <;> cases e.completed <;> decide

theorem isGap_sign (e : Entry) : ∀ c, e.sign.getLast? = some c → Tag.isGap c = false := by
  obtain ⟨kind, content, completed⟩ := e
  cases kind <;> cases completed <;> intro c hc <;> cases hc <;> decide

theorem exists_indent (h : ofLine? l = some e) :
    ∃ indent, isBlankText indent = true ∧ l = indent ++ e.sign ++ ' ' :: e.content := by
  refine ⟨l.takeWhile isBlank, List.all_takeWhile, ?_⟩
  rw [List.append_assoc, ← line_eq, ← line_of_ofLine h]
  exact List.takeWhile_append_dropWhile.symm

theorem ofLine_append_of_blank {indent : Text} (h : isBlankText indent = true) (s : Text) :
    ofLine? (indent ++ s) = ofLine? s := by
  rw [ofLine?, ofLine?, trimStart_append_of_blank h]

theorem headedDay_of_ofLine (h : ofLine? l = some e) : headedDay? l = none := by
  cases hday : headedDay? l with
  | none => rfl
  | some day =>
      obtain ⟨rest, rfl⟩ := exists_cons_of_headedDay hday
      obtain ⟨c, more, hsign, -, hc⟩ := e.sign_eq_cons
      have hline := line_of_ofLine h
      rw [line_eq, hsign, trimStart_of_not_blank (by decide)] at hline
      exact absurd (List.cons.inj hline).1.symm hc

theorem isCompletedLine_iff :
    Tag.isCompletedLine l = true ↔ ∃ content, ofLine? l = some ⟨.task, content, true⟩ := by
  rw [Tag.isCompletedLine, List.isPrefixOf_iff_prefix]
  constructor
  · rintro ⟨content, hline⟩
    refine ⟨content, ?_⟩
    have hread : ofLine? (Entry.line ⟨.task, content, true⟩) = some ⟨.task, content, true⟩ :=
      ofLine_line_of (fun _ => rfl) fun hkind => by cases hkind
    rw [← hread, ofLine?, ofLine?, trimStart_line]
    rw [← hline]
    rfl
  · rintro ⟨content, h⟩
    rw [line_of_ofLine h]
    exact List.prefix_append _ _

theorem isCompletedLine_of_ofLine (h : ofLine? l = some e) :
    Tag.isCompletedLine l = e.completed := by
  rw [Bool.eq_iff_iff, isCompletedLine_iff, h]
  constructor
  · rintro ⟨content, heq⟩
    cases heq
    rfl
  · intro hcompleted
    obtain ⟨kind, content, completed⟩ := e
    obtain rfl : kind = .task := completed_of_ofLine h hcompleted
    obtain rfl : completed = true := hcompleted
    exact ⟨content, rfl⟩

end Entry

namespace Tag

variable {tag l : Text} {completedOnly : Bool} {e : Entry}

def erased (tag : Text) (completedOnly : Bool) (l : Text) : Text :=
  if concerns completedOnly l then erase tag l else l

theorem erased_of_ofLine (tag : Text) (completedOnly : Bool) (h : Entry.ofLine? l = some e) :
    ∃ indent, isBlankText indent = true ∧
      erased tag completedOnly l = indent ++ e.sign ++ e.leftover tag completedOnly := by
  obtain ⟨indent, hindent, hl⟩ := Entry.exists_indent h
  refine ⟨indent, hindent, ?_⟩
  have hmark : '#' ∉ indent ++ e.sign := by
    rw [List.mem_append, not_or]
    exact ⟨not_mem_of_blank hindent (by decide), e.not_mark_sign⟩
  have hlast : ∀ c, (indent ++ e.sign).getLast? = some c → isGap c = false := by
    obtain ⟨c, rest, hsign, -, -⟩ := e.sign_eq_cons
    intro d hd
    rw [List.getLast?_append_of_ne_nil _ (by rw [hsign]; simp)] at hd
    exact e.isGap_sign d hd
  have herase : erase tag l = indent ++ e.sign ++ erase tag (' ' :: e.content) := by
    rw [hl, erase_append hmark hlast]
  have hconcerns : concerns completedOnly l = !(completedOnly && !e.completed) := by
    rw [concerns, Entry.isCompletedLine_of_ofLine h, Bool.not_and, Bool.not_not]
  rw [erased, hconcerns, Entry.leftover]
  cases completedOnly && !e.completed with
  | true => exact hl
  | false => exact herase

theorem isBareMarker_of_blank {indent y : Text} (hindent : isBlankText indent = true)
    (hy : isBlankText y = true) : isBareMarker (indent ++ e.sign ++ y) = true := by
  have htrim : trim (indent ++ e.sign ++ y) = e.sign := by
    obtain ⟨c, rest, hsign, hc, -⟩ := e.sign_eq_cons
    rw [trim, List.append_assoc, trimStart_append_of_blank hindent, hsign,
      List.cons_append, trimStart_of_not_blank hc, ← List.cons_append, trimEnd_append_of_blank hy,
      ← hsign, Entry.sign]
    cases e.kind <;> cases e.completed <;> rfl
  rw [isBareMarker, htrim, Entry.sign]
  cases e.kind <;> cases e.completed <;> decide

theorem isBareMarker_of_not_blank {indent c : Text} (hindent : isBlankText indent = true)
    (hc : isBlankText c = false) (hbox : e.kind = .note → ¬IsBox c) :
    isBareMarker (indent ++ e.sign ++ ' ' :: c) = false := by
  have htrim : trim (indent ++ e.sign ++ ' ' :: c) = e.sign ++ ' ' :: trimEnd c := by
    obtain ⟨d, rest, hsign, hd, -⟩ := e.sign_eq_cons
    rw [trim, List.append_assoc, trimStart_append_of_blank hindent, hsign,
      List.cons_append, trimStart_of_not_blank hd,
      show d :: (rest ++ ' ' :: c) = (d :: rest ++ [' ']) ++ c by simp,
      trimEnd_append_of_not_blank hc]
    simp
  obtain ⟨x, xs, hx⟩ := List.exists_cons_of_ne_nil (l := trimEnd c)
    (by rw [Ne, trimEnd_eq_nil_iff, hc]; decide)
  rw [isBareMarker, htrim, Entry.sign, hx]
  cases hkind : e.kind with
  | task => cases e.completed <;> simp [Kind.sign]
  | event => simp [Kind.sign]
  | note =>
      have hopen : x :: xs ≠ "[ ]".toList :=
        fun h => hbox hkind (Or.inr (Or.inr (Or.inl (hx.trans h))))
      have hticked : x :: xs ≠ "[x]".toList :=
        fun h => hbox hkind (Or.inr (Or.inr (Or.inr (hx.trans h))))
      simpa [Kind.sign] using And.intro hopen hticked

/-! ## Lines -/

/-- The line stays what it is: the marker of an entry on it is spared, and a line without an entry
does not come to look like an entry or a header. -/
def Spares (tag : Text) (completedOnly : Bool) (l : Text) : Prop :=
  match Entry.ofLine? l with
  | some e => e.Spared tag completedOnly
  | none => headedDay? l = none →
      headedDay? (erased tag completedOnly l) = none ∧
        Entry.ofLine? (erased tag completedOnly l) = none

instance (tag : Text) (completedOnly : Bool) (l : Text) :
    Decidable (Spares tag completedOnly l) :=
  match h : Entry.ofLine? l with
  | some e => decidable_of_iff (e.Spared tag completedOnly) (by rw [Spares, h])
  | none => decidable_of_iff
      (headedDay? l = none → headedDay? (erased tag completedOnly l) = none ∧
        Entry.ofLine? (erased tag completedOnly l) = none) (by rw [Spares, h])

theorem isBareMarker_of_mark (h : '#' ∈ l) : isBareMarker l = false := by
  have hstart : '#' ∈ trimStart l := by
    have hl : l.takeWhile isBlank ++ trimStart l = l := List.takeWhile_append_dropWhile
    rw [← hl, List.mem_append] at h
    exact h.resolve_left (not_mem_of_blank List.all_takeWhile (by decide))
  have htrim : '#' ∈ trim l := by
    obtain ⟨cut, hcut, hs⟩ := exists_trimEnd_append (trimStart l)
    rw [hs, List.mem_append] at hstart
    exact hstart.resolve_right (not_mem_of_blank hcut (by decide))
  rw [Bool.eq_false_iff, isBareMarker, Ne, List.contains_iff_mem]
  intro hbare
  have hfree : ∀ marker ∈ ["- [ ]".toList, "- [x]".toList, "-".toList, "*".toList],
      '#' ∉ marker := by decide
  exact hfree _ hbare htrim

theorem isBareMarker_of_header {day : Date} (h : headedDay? l = some day) :
    isBareMarker l = false := by
  obtain ⟨rest, rfl⟩ := exists_cons_of_headedDay h
  exact isBareMarker_of_mark List.mem_cons_self

theorem headedDay?_erased (htag : isName tag = true) (completedOnly : Bool) {day : Date}
    (h : headedDay? l = some day) : headedDay? (erased tag completedOnly l) = some day := by
  unfold erased
  split
  · exact headedDay?_erase htag h
  · exact h

theorem ofLine?_erased (h : Entry.ofLine? l = some e) (hspared : e.Spared tag completedOnly) :
    if isBareMarker (erased tag completedOnly l) then e.withoutTag tag completedOnly = none
    else ∃ e', Entry.ofLine? (erased tag completedOnly l) = some e' ∧
      e.withoutTag tag completedOnly = some e' := by
  have hcompleted := Entry.completed_of_ofLine h
  obtain ⟨indent, hindent, hline⟩ := erased_of_ofLine tag completedOnly h
  rw [hline, Entry.withoutTag]
  cases hblank : isBlankText (e.leftover tag completedOnly) with
  | true => rw [if_pos (isBareMarker_of_blank hindent hblank), if_pos rfl]
  | false =>
      rcases hspared with hempty | ⟨hhead, hbox⟩
      · rw [hempty] at hblank
        cases hblank
      · obtain ⟨c, hleft⟩ := List.head?_eq_some_iff.1 hhead
        rw [hleft] at hblank hbox ⊢
        have hc : isBlankText c = false := by
          rwa [isBlankText_cons, show isBlank ' ' = true by decide, Bool.true_and] at hblank
        have hread : Entry.ofLine? (Entry.line { e with content := c }) =
            some { e with content := c } := by
          refine Entry.ofLine_line_of hcompleted fun hkind => ⟨?_, ?_⟩
          · exact fun hopen => hbox hkind (Or.inl hopen)
          · exact fun hticked => hbox hkind (Or.inr (Or.inl hticked))
        rw [isBareMarker_of_not_blank hindent hc hbox]
        rw [if_neg Bool.false_ne_true, if_neg Bool.false_ne_true]
        refine ⟨{ e with content := c }, ?_, rfl⟩
        rw [List.append_assoc, Entry.ofLine_append_of_blank hindent, ← hread, Entry.line_eq]
        rfl

end Tag

namespace Document

variable {tag : Text} {completedOnly : Bool}

def registerWithout (tag : Text) (completedOnly : Bool) (r : List (Date × List Entry)) :
    List (Date × List Entry) :=
  r.map fun s => (s.1, s.2.filterMap (Entry.withoutTag tag completedOnly))

theorem enter_erased (htag : Tag.isName tag = true) {l : Text}
    (h : Tag.Spares tag completedOnly l) (r : List Entry × List (Date × List Entry)) :
    (if Tag.isBareMarker (Tag.erased tag completedOnly l) then
      (r.1.filterMap (Entry.withoutTag tag completedOnly), registerWithout tag completedOnly r.2)
    else enter (Tag.erased tag completedOnly l)
      (r.1.filterMap (Entry.withoutTag tag completedOnly), registerWithout tag completedOnly r.2)) =
      ((enter l r).1.filterMap (Entry.withoutTag tag completedOnly),
        registerWithout tag completedOnly (enter l r).2) := by
  cases hday : headedDay? l with
  | some day =>
      have hday' := Tag.headedDay?_erased htag completedOnly hday
      rw [Tag.isBareMarker_of_header hday']
      simp only [Bool.false_eq_true, if_false, enter, hday', hday]
      rfl
  | none =>
      unfold Tag.Spares at h
      cases he : Entry.ofLine? l with
      | some e =>
          rw [he] at h
          have hline := Tag.ofLine?_erased he h
          split at hline
          · next hbare =>
            rw [if_pos hbare]
            simp only [enter, hday, he, Option.toList_some, List.singleton_append,
              List.filterMap_cons, hline]
          · next hbare =>
            rw [if_neg hbare]
            obtain ⟨e', hread, hwithout⟩ := hline
            have hday' := Entry.headedDay_of_ofLine hread
            simp only [enter, hday, hday', he, hread, Option.toList_some, List.singleton_append,
              List.filterMap_cons, hwithout]
      | none =>
          rw [he] at h
          obtain ⟨hday', hline⟩ := h hday
          simp only [enter, hday', hday, hline, he, Option.toList_none, List.nil_append, ite_self]

theorem foldr_enter_erased (htag : Tag.isName tag = true) {ls : List Text}
    (h : ∀ l ∈ ls, Tag.Spares tag completedOnly l) :
    ((ls.map (Tag.erased tag completedOnly)).filter fun l => !Tag.isBareMarker l).foldr enter
        ([], []) =
      ((ls.foldr enter ([], [])).1.filterMap (Entry.withoutTag tag completedOnly),
        registerWithout tag completedOnly (ls.foldr enter ([], [])).2) := by
  induction ls with
  | nil => rfl
  | cons l ls ih =>
      obtain ⟨hl, hls⟩ := List.forall_mem_cons.1 h
      rw [List.map_cons, List.foldr_cons, ← enter_erased htag hl, ← ih hls, List.filter_cons]
      cases Tag.isBareMarker (Tag.erased tag completedOnly l) <;> rfl

def deletion (completedOnly : Bool) : SweepChange :=
  if completedOnly then .deleteFromCompleted else .delete

theorem newline_not_mem_erased {l : Text} (h : '\n' ∉ l) :
    '\n' ∉ Tag.erased tag completedOnly l := by
  unfold Tag.erased
  split
  · exact Pattern.newline_not_mem_replaceAll h fun _ _ _ => List.not_mem_nil
  · exact h

theorem apply_deletion (tag : Text) (completedOnly : Bool) (count : Nat) (t : Text) :
    Sweep.apply ⟨deletion completedOnly, tag, count⟩ t =
      joinLines (((lines t).map (Tag.erased tag completedOnly)).filter
        fun l => !Tag.isBareMarker l) := by
  have hlines : lines (joinLines ((lines t).map (Tag.erased tag completedOnly))) =
      (lines t).map (Tag.erased tag completedOnly) := by
    refine lines_joinLines ?_ fun l hl => ?_
    · rw [Ne, List.map_eq_nil_iff]
      exact pieces_ne_nil '\n' t
    · obtain ⟨l', hl', rfl⟩ := List.mem_map.1 hl
      exact newline_not_mem_erased (newline_not_mem_of_mem_lines hl')
  rw [← hlines]
  cases completedOnly <;> rfl

theorem register_apply_deletion (htag : Tag.isName tag = true) {t : Text}
    (h : ∀ l ∈ lines t, Tag.Spares tag completedOnly l) (count : Nat) :
    register (Sweep.apply ⟨deletion completedOnly, tag, count⟩ t) =
      registerWithout tag completedOnly (register t) := by
  rw [apply_deletion, register_joinLines, foldr_enter_erased htag h, register_eq_foldr]
  intro l hl
  obtain ⟨l', hl', rfl⟩ := List.mem_map.1 (List.mem_filter.1 hl).1
  exact newline_not_mem_erased (newline_not_mem_of_mem_lines hl')

end Document

/-! ## The session -/

theorem Action.run_sweep {w : Workspace} (hwritable : w.journal.writesLeft ≠ some 0)
    (sweep : Sweep) :
    ∃ reverse w', (Action.sweep sweep).perform.run w = (.ok reverse, w') ∧
      w'.journal.text = sweep.apply w.journal.text := by
  obtain ⟨journal, hjournal⟩ := Journal.exists_save hwritable (sweep.apply w.journal.text)
  have hreplace : w.replaceAll (sweep.apply w.journal.text) =
      .ok ((), Workspace.refreshAll { w with journal }) := by
    rw [Workspace.replaceAll, hjournal]
    rfl
  have hread : (Change.read fun w => w.journal.text).run w = (.ok w.journal.text, w) := rfl
  refine ⟨.restoreDocument w.journal.text sweep, Workspace.refreshAll { w with journal }, ?_, ?_⟩
  · rw [Action.perform, run_bind_ok hread, run_bind_ok (Change.run_single hreplace)]
    rfl
  · rw [← Journal.text_of_save hjournal]
    exact congrArg Journal.text (Workspace.journal_refreshFilter _).1

namespace Session

variable {s : Session} {tag : Text}

theorem run_sweepTag {kind : SweepChange} (hname : Tag.bareName tag = tag)
    (hcount : 0 < Tag.count s.workspace.journal.text tag (kind == .deleteFromCompleted))
    (hwritable : s.workspace.journal.writesLeft ≠ some 0) :
    ∃ status s' count, (sweepTag kind tag).run s = (.ok status, s') ∧
      s'.workspace.journal.text = Sweep.apply ⟨kind, tag, count⟩ s.workspace.journal.text := by
  let count := Tag.count s.workspace.journal.text tag (kind == .deleteFromCompleted)
  let sweep : Sweep := ⟨kind, tag, count⟩
  obtain ⟨reverse, w', hperform, htext⟩ := Action.run_sweep hwritable sweep
  have hchange : (change (Action.sweep sweep).perform).run s =
      (.ok reverse, { s with workspace := w' }) := by
    show (((Action.sweep sweep).perform.run s.workspace).1,
      { s with workspace := ((Action.sweep sweep).perform.run s.workspace).2 }) = _
    rw [hperform]
  have hget : (get : Command Session).run s = (.ok s, s) := rfl
  obtain ⟨said, s', hrecord, hworkspace⟩ : ∃ said s',
      (record (.sweep sweep)).run s = (.ok said, s') ∧ s'.workspace = w' := by
    rw [record, run_bind_ok hchange]
    exact ⟨_, _, rfl, rfl⟩
  obtain ⟨s'', hannounce, hsame⟩ : ∃ s'', (announce .run said).run s' = (.ok said, s'') ∧
      s''.workspace = s'.workspace := ⟨_, rfl, rfl⟩
  refine ⟨said, s'', count, ?_, ?_⟩
  · rw [sweepTag, run_bind_ok hget]
    simp only [hname]
    rw [if_neg (by omega), execute, run_bind_ok hrecord, hannounce]
  · rw [hsame, hworkspace, htext]

/-- A tag is deleted, everywhere or on the lines of completed tasks, and the days and their entries
are what they were without the tag, if each line of the document is spared. -/
theorem deleteTag_register (completedOnly : Bool) (htag : Tag.isName tag = true)
    (hcount : 0 < Tag.count s.workspace.journal.text tag completedOnly)
    (hwritable : s.workspace.journal.writesLeft ≠ some 0)
    (hspares : ∀ l ∈ lines s.workspace.journal.text, Tag.Spares tag completedOnly l) :
    ∃ status s',
      (if completedOnly then deleteTagFromCompleted tag else deleteTag tag).run s =
        (.ok status, s') ∧
      register s'.workspace.journal.text =
        registerWithout tag completedOnly (register s.workspace.journal.text) := by
  have hchange : (deletion completedOnly == .deleteFromCompleted) = completedOnly := by
    cases completedOnly <;> rfl
  obtain ⟨status, s', count, hrun, htext⟩ :=
    run_sweepTag (Tag.bareName_of_isName htag) (hchange.symm ▸ hcount) hwritable
  refine ⟨status, s', ?_, ?_⟩
  · cases completedOnly <;> exact hrun
  · rw [htext, register_apply_deletion htag hspares]

theorem deleteTag_register_of_task :
    Tag.isName "x".toList = true ∧
      (∀ l ∈ lines "# 2026/01/05\n- [ ] a #x\n- #x\n".toList, Tag.Spares "x".toList false l) ∧
      ∃ status s',
        (deleteTag "x".toList).run
            (Session.start ⟨"# 2026/01/05\n- [ ] a #x\n- #x\n".toList, none⟩ {}
              ⟨2026, 1, 5, by decide⟩) = (.ok status, s') ∧
          register s'.workspace.journal.text =
            [(⟨2026, 1, 5, by decide⟩, [⟨.task, "a".toList, false⟩])] := by
  have htag : Tag.isName "x".toList = true := by decide
  have hspares : ∀ l ∈ lines "# 2026/01/05\n- [ ] a #x\n- #x\n".toList,
      Tag.Spares "x".toList false l := by decide +kernel
  obtain ⟨status, s', hrun, hregister⟩ :=
    deleteTag_register
      (s := Session.start ⟨"# 2026/01/05\n- [ ] a #x\n- #x\n".toList, none⟩ {}
        ⟨2026, 1, 5, by decide⟩) false htag (by decide +kernel) (by decide) hspares
  refine ⟨htag, hspares, status, s', hrun, hregister.trans ?_⟩
  decide +kernel

/-- The blank of a marker goes with the tag, and the task becomes a note. -/
theorem deleteTag_behind_marker :
    register "# 2026/01/05\n- [ ] #x: a\n".toList =
        [(⟨2026, 1, 5, by decide⟩, [⟨.task, "#x: a".toList, false⟩])] ∧
      ((deleteTag "x".toList).run
        (Session.start ⟨"# 2026/01/05\n- [ ] #x: a\n".toList, none⟩ {}
          ⟨2026, 1, 5, by decide⟩)).2.workspace.journal.text =
        "# 2026/01/05\n- [ ]: a\n".toList ∧
      register "# 2026/01/05\n- [ ]: a\n".toList =
        [(⟨2026, 1, 5, by decide⟩, [⟨.note, "[ ]: a".toList, false⟩])] := by
  decide +kernel

end Session

end DayJournal

import DayJournal.Proofs.DayLines
import DayJournal.Proofs.PlainContent

/-!
# Plain lines

A line is plain when it is read as it is written: plain text, or an entry with a plain content.
Lines that are read as what they are come back unchanged from a day that they are written into if
the last of them does not end in a blank; they are steady then, and kept if they are plain too.
-/

namespace DayJournal

open Text Document

/-! ## Entries that are read as they are written -/

theorem Text.after_append (start s : Text) : after? start (start ++ s) = some s :=
  List.isPrefixOf?_eq_some_iff_append_eq.2 rfl

theorem Text.after_eq_none {start s : Text} (h : ¬start <+: s) : after? start s = none := by
  cases hafter : after? start s with
  | none => rfl
  | some rest => exact absurd ⟨rest, List.isPrefixOf?_eq_some_iff_append_eq.1 hafter⟩ h

namespace Entry

/-- An entry that is read as it is written. -/
structure Plain (e : Entry) : Prop where
  content : PlainContent e.content
  completed : e.completed = true → e.kind = .task

theorem completed_of_ofLine {s : Text} {e : Entry} (h : ofLine? s = some e) :
    e.completed = true → e.kind = .task := by
  obtain ⟨⟨kind, completed⟩, hmem, hform⟩ := List.exists_of_findSome?_eq_some h
  obtain ⟨content, -, rfl⟩ := Option.map_eq_some_iff.1 hform
  simp only [forms, List.mem_cons, Prod.mk.injEq, List.not_mem_nil, or_false] at hmem
  rcases hmem with ⟨rfl, rfl⟩ | ⟨rfl, rfl⟩ | ⟨rfl, rfl⟩ | ⟨rfl, rfl⟩ <;> simp

theorem trimStart_line (e : Entry) : trimStart e.line = e.line := by
  obtain ⟨kind, content, completed⟩ := e
  cases kind <;> cases completed <;> rfl

/-- A line is read as the entry that it was written for, unless the content of a note makes its
marker that of a task. -/
theorem ofLine_line_of {e : Entry} (hcompleted : e.completed = true → e.kind = .task)
    (hbox : e.kind = .note → ¬"[ ] ".toList <+: e.content ∧ ¬"[x] ".toList <+: e.content) :
    ofLine? e.line = some e := by
  obtain ⟨kind, content, completed⟩ := e
  have hline : (⟨kind, content, completed⟩ : Entry).line = kind.marker completed ++ content := rfl
  have hfirst : ∀ {c d : Char} {s t : Text}, c ≠ d → after? (c :: s) (d :: t) = none := by
    intro c d s t hne
    exact after_eq_none fun h => hne (List.cons_prefix_cons.1 h).1
  rw [ofLine?, trimStart_line, hline]
  simp only [forms, List.findSome?_cons, List.findSome?_nil]
  cases kind with
  | task =>
      cases completed with
      | false => rw [after_append, Option.map_some]
      | true =>
          have hopen :
              after? (Kind.marker .task false) (Kind.marker .task true ++ content) = none := by
            apply after_eq_none
            intro h
            have hbox : ' ' :: "] ".toList <+: 'x' :: ("] ".toList ++ content) :=
              (List.prefix_append_right_inj "- [".toList).1 h
            exact absurd (List.cons_prefix_cons.1 hbox).1 (by decide)
          rw [hopen, after_append, Option.map_none, Option.map_some]
  | event =>
      have hfalse : completed = false := by
        by_contra hc
        exact absurd (hcompleted (by simpa using hc)) (by simp)
      subst hfalse
      have htask : ∀ b,
          after? (Kind.marker .task b) (Kind.marker .event false ++ content) = none := by
        intro b
        cases b <;> exact hfirst (by decide)
      rw [htask, htask, after_append]
      rfl
  | note =>
      have hfalse : completed = false := by
        by_contra hc
        exact absurd (hcompleted (by simpa using hc)) (by simp)
      subst hfalse
      -- What stands behind the marker of a note is not the rest of the marker of a task.
      have hnote : ∀ {rest : Text}, ¬rest <+: content →
          ¬Kind.marker .note false ++ rest <+: Kind.marker .note false ++ content := by
        intro rest hrest h
        exact hrest ((List.prefix_append_right_inj _).1 h)
      obtain ⟨hopen, hticked⟩ := hbox rfl
      have htask : ∀ b,
          after? (Kind.marker .task b) (Kind.marker .note false ++ content) = none := by
        intro b
        apply after_eq_none
        cases b with
        | false => exact hnote hopen
        | true => exact hnote hticked
      have hevent : after? (Kind.marker .event false) (Kind.marker .note false ++ content) = none :=
        hfirst (by decide)
      rw [htask, htask, hevent, after_append]
      rfl

theorem ofLine_line {e : Entry} (h : e.Plain) : ofLine? e.line = some e := by
  have hbox : ∀ {box : Text}, ¬box <+: e.content → ¬(box ++ [' ']) <+: e.content :=
    fun hnot hstart => hnot ((List.prefix_append _ _).trans hstart)
  exact ofLine_line_of h.completed fun _ =>
    ⟨hbox h.content.no_open_box, hbox h.content.no_ticked_box⟩

end Entry

namespace Line

/-- The line is a single line that is no header and that is read as it is written. -/
structure Plain (l : Line) : Prop where
  headless : l.Headless
  read : ofText l.text = l
  entry : ∀ e, l = .entry e → e.Plain

theorem plain_entry {e : Entry} (h : e.Plain) : (entry e).Plain := by
  refine ⟨headless_entry h.content.one_line, ?_, fun e' he' => ?_⟩
  · show ofText e.line = entry e
    rw [ofText, Entry.ofLine_line h]
  · cases he'
    exact h

theorem Plain.rereads {l : Line} (h : l.Plain) : l.Rereads := ⟨h.headless.1, h.read⟩

/-- A single line of a text as the text of a day may have it: an entry on it is plain and not
indented. -/
def PlainText (s : Text) : Prop :=
  ∀ e, Entry.ofLine? s = some e → s = e.line ∧ PlainContent e.content

theorem plain_ofText {s : Text} (hnl : '\n' ∉ s) (hday : headedDay? s = none) (hs : PlainText s) :
    (ofText s).Plain ∧ (ofText s).text = s := by
  have hheadless := headless_ofText hnl hday
  unfold ofText at hheadless ⊢
  cases he : Entry.ofLine? s with
  | none =>
      rw [he] at hheadless
      refine ⟨⟨hheadless, ?_, fun e h => by cases h⟩, rfl⟩
      show ofText s = plain s
      rw [ofText, he]
  | some e =>
      obtain ⟨hline, hcontent⟩ := hs e he
      exact ⟨plain_entry ⟨hcontent, Entry.completed_of_ofLine he⟩, hline.symm⟩

theorem plainText_text {l : Line} (h : l.Plain) : PlainText l.text := by
  intro e he
  have hl : l = entry e := by rw [← h.read, ofText, he]
  subst hl
  exact ⟨rfl, (h.entry e rfl).content⟩

theorem isPrefix_trimStart {s t : Text} (h : t <+: s) : trimStart t <+: trimStart s := by
  induction t generalizing s with
  | nil => exact List.nil_prefix
  | cons c t ih =>
      obtain ⟨rest, rfl⟩ := h
      simp only [trimStart, List.cons_append, List.dropWhile_cons] at ih ⊢
      split
      · exact ih ⟨rest, rfl⟩
      · exact ⟨rest, rfl⟩

theorem exists_ofLine_of_trimEnd {s : Text} {e : Entry}
    (h : Entry.ofLine? (trimEnd s) = some e) : ∃ e', Entry.ofLine? s = some e' := by
  obtain ⟨⟨kind, completed⟩, hmem, hform⟩ := List.exists_of_findSome?_eq_some h
  obtain ⟨content, hafter, -⟩ := Option.map_eq_some_iff.1 hform
  have hmarker : kind.marker completed <+: trimStart s :=
    List.IsPrefix.trans ⟨content, List.isPrefixOf?_eq_some_iff_append_eq.1 hafter⟩
      (isPrefix_trimStart (isPrefix_trimEnd s))
  obtain ⟨rest, hrest⟩ := hmarker
  rw [← Option.isSome_iff_exists, Entry.ofLine?, List.findSome?_isSome_iff]
  refine ⟨(kind, completed), hmem, ?_⟩
  simp [← hrest, after_append]

theorem trimEnd_line {e : Entry} (h : PlainContent e.content) : trimEnd e.line = e.line := by
  rw [Entry.line, trimEnd_append_of_not_blank h.opens.not_blank, h.no_blank_behind]

theorem PlainText.trimEnd {s : Text} (h : PlainText s) : PlainText (trimEnd s) := by
  intro e he
  obtain ⟨e', he'⟩ := exists_ofLine_of_trimEnd he
  obtain ⟨hline, hcontent⟩ := h e' he'
  have hsame : Text.trimEnd s = s := by rw [hline, trimEnd_line hcontent]
  rw [hsame] at he ⊢
  exact h e he

/-! ## Lines that a day keeps -/

/-- Each line is read as what it is, and nothing blank is at the end of the last. -/
structure Steady (ls : List Line) : Prop where
  rereads : ∀ l ∈ ls, l.Rereads
  last : ∀ l, ls.getLast? = some l → Text.trimEnd l.text = l.text ∧ l.text ≠ []

/-- The lines are plain, and nothing blank is at the end of the last. -/
structure Kept (ls : List Line) : Prop where
  plain : ∀ l ∈ ls, l.Plain
  last : ∀ l, ls.getLast? = some l → Text.trimEnd l.text = l.text ∧ l.text ≠ []

theorem exists_writeAll_concat (init : List Line) (l : Line) :
    ∃ before : Text, writeAll (init ++ [l]) = before ++ l.text := by
  obtain ⟨before, hjoin⟩ := exists_joinLines_concat (init.map text)
  refine ⟨before, ?_⟩
  rw [writeAll, List.map_append]
  exact hjoin l.text

theorem text_entry_ne_nil (e : Entry) : (entry e).text ≠ [] := by
  intro hnil
  obtain ⟨c, rest, hmarker, -, -⟩ := e.kind.exists_marker_eq_cons e.completed
  simp [text, Entry.line, Entry.marker, hmarker] at hnil

theorem getLast?_insert {ls : List Line} {i : Nat} {entries : List Entry} {l : Line}
    (h : (ls.take i ++ entries.map entry ++ ls.drop i).getLast? = some l) :
    ls.getLast? = some l ∨ ∃ e ∈ entries, l = entry e := by
  rw [List.getLast?_append] at h
  by_cases hdrop : ls.drop i = []
  · have htake : ls.take i = ls := by
      rw [List.drop_eq_nil_iff] at hdrop
      exact List.take_of_length_le hdrop
    rw [hdrop, htake, List.getLast?_nil, Option.none_or, List.getLast?_append] at h
    cases hentry : (entries.map entry).getLast? with
    | none =>
        rw [hentry, Option.none_or] at h
        exact Or.inl h
    | some l' =>
        rw [hentry, Option.some_or] at h
        cases h
        obtain ⟨e, he, rfl⟩ := List.mem_map.1 (List.mem_of_getLast? hentry)
        exact Or.inr ⟨e, he, rfl⟩
  · have hlast : (ls.drop i).getLast? = ls.getLast? := by
      rw [List.getLast?_drop, if_neg]
      rw [List.drop_eq_nil_iff] at hdrop
      exact hdrop
    rw [hlast] at h
    cases hls : ls.getLast? with
    | none => simp_all
    | some l' =>
        rw [hls, Option.some_or] at h
        exact Or.inl h

theorem mem_insert {ls : List Line} {i : Nat} {entries : List Entry} {l : Line}
    (h : l ∈ ls.take i ++ entries.map entry ++ ls.drop i) :
    l ∈ ls ∨ ∃ e ∈ entries, l = entry e := by
  simp only [List.mem_append, List.mem_map] at h
  rcases h with (h | ⟨e, he, rfl⟩) | h
  · exact Or.inl (List.mem_of_mem_take h)
  · exact Or.inr ⟨e, he, rfl⟩
  · exact Or.inl (List.mem_of_mem_drop h)

namespace Steady

variable {ls ls' : List Line}

theorem trimEnd_writeAll (h : Steady ls) : Text.trimEnd (writeAll ls) = writeAll ls := by
  rcases List.eq_nil_or_concat ls with rfl | ⟨init, l, rfl⟩
  · rfl
  · obtain ⟨htrim, hne⟩ := h.last l (by simp)
    have hblank : isBlankText l.text = false := by
      rw [Bool.eq_false_iff, Ne, ← trimEnd_eq_nil_iff, htrim]
      exact hne
    obtain ⟨before, hbefore⟩ := exists_writeAll_concat init l
    rw [List.concat_eq_append]
    rw [hbefore, trimEnd_append_of_not_blank hblank, htrim]

theorem readAll_writeAll (h : Steady ls) : readAll (writeAll ls) = ls := by
  apply Line.readAll_writeAll
  · rintro rfl
    exact (h.last (.plain []) rfl).2 rfl
  · exact h.rereads

theorem of_last (h : Steady ls) (hrereads : ∀ l ∈ ls', l.Rereads)
    (hlast : ∀ l, ls'.getLast? = some l →
      ls.getLast? = some l ∨ ∃ e : Entry, e.Plain ∧ l = entry e) :
    Steady ls' := by
  refine ⟨hrereads, fun l hl => ?_⟩
  rcases hlast l hl with hold | ⟨e, he, rfl⟩
  · exact h.last l hold
  · exact ⟨trimEnd_line he.content, text_entry_ne_nil e⟩

theorem set (h : Steady ls) (i : Nat) {e : Entry} (he : e.Plain) :
    Steady (ls.set i (entry e)) := by
  refine h.of_last (fun l hl => ?_) fun l hl => ?_
  · rcases List.mem_or_eq_of_mem_set hl with hl | rfl
    · exact h.rereads l hl
    · exact (plain_entry he).rereads
  · rw [List.getLast?_eq_getElem?, List.length_set, List.getElem?_set] at hl
    split at hl
    · split at hl
      · cases hl
        exact Or.inr ⟨e, he, rfl⟩
      · cases hl
    · rw [List.getLast?_eq_getElem?]
      exact Or.inl hl

theorem insert (h : Steady ls) (i : Nat) {entries : List Entry}
    (hentries : ∀ e ∈ entries, e.Plain) :
    Steady (ls.take i ++ entries.map entry ++ ls.drop i) := by
  refine h.of_last (fun l hl => ?_) fun l hl => ?_
  · rcases mem_insert hl with hl | ⟨e, he, rfl⟩
    · exact h.rereads l hl
    · exact (plain_entry (hentries e he)).rereads
  · exact (getLast?_insert hl).imp_right fun ⟨e, he, hl⟩ => ⟨e, hentries e he, hl⟩

end Steady

namespace Kept

variable {ls : List Line}

theorem steady (h : Kept ls) : Steady ls := ⟨fun l hl => (h.plain l hl).rereads, h.last⟩

theorem set (h : Kept ls) (i : Nat) {e : Entry} (he : e.Plain) : Kept (ls.set i (entry e)) := by
  refine ⟨fun l hl => ?_, (h.steady.set i he).last⟩
  rcases List.mem_or_eq_of_mem_set hl with hl | rfl
  · exact h.plain l hl
  · exact plain_entry he

theorem insert (h : Kept ls) (i : Nat) {entries : List Entry} (hentries : ∀ e ∈ entries, e.Plain) :
    Kept (ls.take i ++ entries.map entry ++ ls.drop i) := by
  refine ⟨fun l hl => ?_, (h.steady.insert i hentries).last⟩
  rcases mem_insert hl with hl | ⟨e, he, rfl⟩
  · exact h.plain l hl
  · exact plain_entry (hentries e he)

end Kept

end Line

end DayJournal

import DayJournal.Journal
import DayJournal.Proofs.DayUpdate
import DayJournal.Proofs.Outcome
import DayJournal.Proofs.SingleLine
import Mathlib.Data.List.InsertIdx

/-!
# The lines of a day

No line of a day is the header of a day, and no line of an entry is one.  So every change of the
journal writes a text without a header, and what it writes into one day leaves the lines of all
other days as they were.
-/

namespace DayJournal

open Text Document

/-! ## Lines that are no headers -/

theorem Kind.exists_marker_eq_cons (kind : Kind) (completed : Bool) :
    ∃ c rest, kind.marker completed = c :: rest ∧ c ≠ '#' ∧ '\n' ∉ c :: rest := by
  cases kind <;> cases completed <;> exact ⟨_, _, rfl, by decide, by decide⟩

theorem Entry.line_of_ofLine {s : Text} {e : Entry} (h : ofLine? s = some e) :
    trimStart s = e.line := by
  obtain ⟨⟨kind, completed⟩, -, hform⟩ := List.exists_of_findSome?_eq_some h
  obtain ⟨content, hafter, rfl⟩ := Option.map_eq_some_iff.1 hform
  exact (List.isPrefixOf?_eq_some_iff_append_eq.1 hafter).symm

theorem Entry.newline_not_mem_ofLine {s : Text} {e : Entry} (hs : '\n' ∉ s)
    (h : ofLine? s = some e) : '\n' ∉ e.content := by
  intro hmem
  apply hs
  apply trimStart_subset s
  rw [line_of_ofLine h]
  exact List.mem_append_right _ hmem

theorem Entry.newline_not_mem_ofAnyLine {s : Text} (hs : '\n' ∉ s) :
    '\n' ∉ (ofAnyLine s).content := by
  unfold ofAnyLine
  cases h : ofLine? s with
  | none => exact fun hmem => hs (trim_subset s hmem)
  | some e => exact newline_not_mem_ofLine hs h

namespace Line

/-- The line is a single line, and not the header of a day. -/
def Headless (l : Line) : Prop := '\n' ∉ l.text ∧ headedDay? l.text = none

theorem entry_ofText (s : Text) : Line.entry? (ofText s) = Entry.ofLine? s := by
  unfold ofText
  split
  · next h => rw [h]; rfl
  · next h => rw [h]; rfl

theorem headless_entry {e : Entry} (h : '\n' ∉ e.content) : (entry e).Headless := by
  obtain ⟨c, rest, hmarker, hc, hnl⟩ := e.kind.exists_marker_eq_cons e.completed
  have htext : (entry e).text = c :: (rest ++ e.content) := by
    rw [text, Entry.line, Entry.marker, hmarker]
    rfl
  rw [Headless, htext]
  refine ⟨?_, headedDay?_of_ne hc _⟩
  rw [← List.cons_append, List.mem_append, not_or]
  exact ⟨hnl, h⟩

theorem content_of_headless {e : Entry} (h : (entry e).Headless) : '\n' ∉ e.content :=
  fun hmem => h.1 (List.mem_append_right _ hmem)

theorem headless_ofText {s : Text} (hnl : '\n' ∉ s) (hs : headedDay? s = none) :
    (ofText s).Headless := by
  unfold ofText
  split
  · next e he =>
    exact headless_entry (Entry.newline_not_mem_ofLine hnl he)
  · exact ⟨hnl, hs⟩

theorem headless_of_mem_readAll {s : Text} (hs : Document.Headless s) :
    ∀ l ∈ readAll s, l.Headless := by
  intro l hl
  unfold readAll at hl
  split at hl
  · simp at hl
  · obtain ⟨t, ht, rfl⟩ := List.mem_map.1 hl
    exact headless_ofText (newline_not_mem_of_mem_lines ht) (hs t ht)

theorem map_text_readAll {s : Text} (hne : s ≠ []) (h : ∀ l ∈ lines s, (ofText l).text = l) :
    (readAll s).map text = lines s := by
  rw [readAll, if_neg (by simpa using hne), List.map_map]
  conv_rhs => rw [← List.map_id (lines s)]
  exact List.map_congr_left h

theorem lines_writeAll {ls : List Line} (hne : ls ≠ []) (h : ∀ l ∈ ls, '\n' ∉ l.text) :
    lines (writeAll ls) = ls.map text :=
  lines_joinLines (by simpa using hne) (by simpa using h)

theorem headless_writeAll {ls : List Line} (h : ∀ l ∈ ls, l.Headless) :
    Document.Headless (writeAll ls) := by
  by_cases hls : ls = []
  · subst hls
    show Document.Headless []
    decide
  · intro t ht
    rw [lines_writeAll hls fun l hl => (h l hl).1] at ht
    obtain ⟨l, hl, rfl⟩ := List.mem_map.1 ht
    exact (h l hl).2

/-- The line is one line and is read as what it is. -/
def Rereads (l : Line) : Prop := '\n' ∉ l.text ∧ ofText l.text = l

/-- Lines that are read as what they are come back from their text.  An empty line alone does not,
since an empty text has no lines. -/
theorem readAll_writeAll {ls : List Line} (hls : ls ≠ [plain []]) (h : ∀ l ∈ ls, l.Rereads) :
    readAll (writeAll ls) = ls := by
  by_cases hnil : ls = []
  · subst hnil
    rfl
  · have hlines := lines_writeAll hnil fun l hl => (h l hl).1
    have hfilled : writeAll ls ≠ [] := by
      intro hempty
      rw [hempty] at hlines
      obtain ⟨l, rfl⟩ : ∃ l, ls = [l] := List.length_eq_one_iff.1 (by
        simpa [lines, pieces] using (congrArg List.length hlines).symm)
      have hread := (h l (by simp)).2
      rw [show l.text = [] from hempty] at hread
      exact hls (by rw [← hread]; rfl)
    rw [readAll, if_neg (by simpa using hfilled), hlines, List.map_map]
    conv_rhs => rw [← List.map_id ls]
    exact List.map_congr_left fun l hl => (h l hl).2

/-! ## Changes of lines -/

theorem mem_of_mem_insertAt {ls : List Line} {position : Int} {l x : Line}
    (h : x ∈ insertAt ls position l) : x = l ∨ x ∈ ls := List.eq_or_mem_of_mem_insertIdx h

theorem mem_of_mem_insertEntries {ls : List Line} {index : Int} {entries : List Entry} {x : Line}
    (h : x ∈ (insertEntries ls index entries).1) : (∃ e ∈ entries, x = entry e) ∨ x ∈ ls := by
  induction entries generalizing ls index with
  | nil => exact Or.inr h
  | cons e more ih =>
      rcases ih h with ⟨e', he', rfl⟩ | hx
      · exact Or.inl ⟨e', List.mem_cons_of_mem e he', rfl⟩
      · rcases mem_of_mem_insertAt hx with rfl | hx
        · exact Or.inl ⟨e, by simp, rfl⟩
        · exact Or.inr hx

theorem mem_of_mem_remove {ls : List Line} {index : Int} {x : Line} (h : x ∈ remove ls index) :
    x ∈ ls := by
  unfold remove at h
  split at h
  · exact (List.eraseIdx_sublist ls _).subset h
  · exact h

theorem entry_mem_of_entryAt {ls : List Line} {index : Int} {e : Entry}
    (h : entryAt? ls index = some e) : entry e ∈ ls := by
  unfold entryAt? at h
  split at h
  · obtain ⟨l, hl, he⟩ := Option.bind_eq_some_iff.1 h
    cases l with
    | entry e' =>
        cases he
        exact List.mem_of_getElem? hl
    | plain s => cases he
  · cases h

end Line

/-! ## What a change of the journal leaves alone -/

namespace Document

theorem headless_dayText (document : Text) (day : Date) : Headless (dayText document day) := by
  unfold dayText
  split
  · next s hs =>
    have hmem : s ∈ (ofText document).sections := List.mem_of_find?_eq_some hs
    exact headless_trimEnd.2 ((wellFormed_ofText document).2 s hmem).headless
  · decide

theorem headless_of_mem_dayLines {document : Text} {day : Date} {l : Line}
    (h : l ∈ dayLines document day) : l.Headless :=
  Line.headless_of_mem_readAll (headless_dayText document day) l h

end Document

namespace Journal

variable {j j' : Journal} {day : Date} {place : Address}

def SameElsewhere (day : Date) (j j' : Journal) : Prop :=
  ∀ other, other ≠ day → j'.lines other = j.lines other

theorem text_of_save {text : Text} (h : j.save text = .ok j') : j'.text = text := by
  unfold save at h
  split at h <;> cases h <;> rfl

theorem exists_save (h : j.writesLeft ≠ some 0) (text : Text) :
    ∃ j', j.save text = .ok j' := by
  unfold save
  split
  · exact ⟨_, rfl⟩
  · next hnone => exact absurd hnone h
  · exact ⟨_, rfl⟩

theorem text_of_saveDay {content : Text} (h : j.saveDay day content = .ok j') :
    j'.text = updateDay j.text day content := text_of_save h

theorem content_of_entry {e : Entry} (h : j.entry? place = some e) : '\n' ∉ e.content :=
  Line.content_of_headless (headless_of_mem_dayLines (Line.entry_mem_of_entryAt h))

theorem SameElsewhere.refl (day : Date) (j : Journal) : SameElsewhere day j j := fun _ _ => rfl

theorem sameElsewhere_saveDay {content : Text} (late : 1000 ≤ day.year)
    (headless : Document.Headless content) (h : j.saveDay day content = .ok j') :
    SameElsewhere day j j' := by
  intro other hne
  rw [lines, lines, dayLines, dayLines, text_of_saveDay h,
    dayText_updateDay_of_ne late headless hne]

theorem sameElsewhere_saveLines {ls : List Line} (late : 1000 ≤ day.year)
    (hls : ∀ l ∈ ls, l.Headless) (h : j.saveLines day ls = .ok j') : SameElsewhere day j j' :=
  sameElsewhere_saveDay late (Line.headless_writeAll hls) h

theorem sameElsewhere_changeEntry {f : Entry → Entry} {e? : Option Entry}
    (late : 1000 ≤ place.day.year) (hf : ∀ e, '\n' ∉ e.content → '\n' ∉ (f e).content)
    (h : j.changeEntry place f = .ok (e?, j')) : SameElsewhere place.day j j' := by
  simp only [changeEntry] at h
  split at h
  · cases h
    exact SameElsewhere.refl _ _
  · next e he =>
    obtain ⟨j'', hsave, heq⟩ := map_eq_ok.1 h
    cases heq
    refine sameElsewhere_saveLines late (fun l hl => ?_) hsave
    rcases List.mem_or_eq_of_mem_set hl with hl | rfl
    · exact headless_of_mem_dayLines hl
    · exact Line.headless_entry (hf e (content_of_entry he))

theorem sameElsewhere_deleteLine (late : 1000 ≤ place.day.year)
    (h : j.deleteLine place = .ok j') : SameElsewhere place.day j j' :=
  sameElsewhere_saveLines late
    (fun _ hl => headless_of_mem_dayLines (Line.mem_of_mem_remove hl)) h

theorem sameElsewhere_insert {entries : List Entry} {positions : List Int}
    (late : 1000 ≤ place.day.year) (hentries : ∀ e ∈ entries, '\n' ∉ e.content)
    (h : j.insert place entries = .ok (positions, j')) : SameElsewhere place.day j j' := by
  obtain ⟨j'', hsave, heq⟩ := map_eq_ok.1 h
  cases heq
  refine sameElsewhere_saveLines late (fun l hl => ?_) hsave
  rcases Line.mem_of_mem_insertEntries hl with ⟨e, he, rfl⟩ | hl
  · exact Line.headless_entry (hentries e he)
  · exact headless_of_mem_dayLines hl

theorem sameElsewhere_append {entries : List Entry} {index : Nat} (late : 1000 ≤ day.year)
    (hentries : ∀ e ∈ entries, '\n' ∉ e.content)
    (h : j.append day entries = .ok (index, j')) : SameElsewhere day j j' := by
  obtain ⟨j'', hsave, heq⟩ := map_eq_ok.1 h
  cases heq
  refine sameElsewhere_saveLines late (fun l hl => ?_) hsave
  rcases List.mem_append.1 hl with hl | hl
  · exact headless_of_mem_dayLines hl
  · obtain ⟨e, he, rfl⟩ := List.mem_map.1 hl
    exact Line.headless_entry (hentries e he)

end Journal

end DayJournal

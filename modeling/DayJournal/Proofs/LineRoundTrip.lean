import DayJournal.Proofs.TrimmedLines

/-!
# Texts and lines

What a text loses when it is read as lines and written again is the indentation of its entries
(`writeAll_readAll`).  Lines come back from the text that they are written as just when each of
them is one line and is read as itself (`readAll_writeAll_iff`); the lines that were read from a
text are of that kind (`rereads_of_mem_readAll`).
-/

namespace DayJournal

open Text

def Entry.hasMarker (s : Text) : Bool :=
  forms.any fun (kind, completed) => (kind.marker completed).isPrefixOf (trimStart s)

def Text.isIndented (s : Text) : Bool := s.head?.any isBlank

def Entry.unindented (s : Text) : Text := if hasMarker s then trimStart s else s

variable {s : Text} {ls : List Line}

theorem Text.trimStart_eq_self_iff : trimStart s = s ↔ isIndented s = false := by
  rw [trimStart, List.dropWhile_eq_self_iff, isIndented]
  cases s <;> simp

namespace Entry

theorem hasMarker_eq (s : Text) : hasMarker s = (ofLine? s).isSome := by
  rw [Bool.eq_iff_iff, hasMarker, ofLine?, List.any_eq_true, List.findSome?_isSome_iff]
  simp [after?]

theorem unindented_of_none (h : ofLine? s = none) : unindented s = s := by
  rw [unindented, hasMarker_eq, h]
  rfl

theorem unindented_of_some {e : Entry} (h : ofLine? s = some e) : unindented s = e.line := by
  rw [unindented, hasMarker_eq, h, ← line_of_ofLine h]
  rfl

theorem unindented_subset (s : Text) : unindented s ⊆ s := by
  unfold unindented
  split
  · exact trimStart_subset s
  · exact List.Subset.refl s

theorem unindented_eq_self_iff :
    unindented s = s ↔ (hasMarker s = true → isIndented s = false) := by
  unfold unindented
  split
  · next h => simp [h, trimStart_eq_self_iff]
  · next h => simp [h]

/-- An entry comes back from its line unless it is completed and no task, or a note of which the
content makes a task. -/
theorem ofLine_line_iff {e : Entry} :
    ofLine? e.line = some e ↔ (e.completed = true → e.kind = .task) ∧
      (e.kind = .note → ¬"[ ] ".toList <+: e.content ∧ ¬"[x] ".toList <+: e.content) :=
  ⟨fun h => ⟨completed_of_ofLine h, not_box_of_ofLine h⟩, fun h => ofLine_line_of h.1 h.2⟩

end Entry

namespace Line

theorem text_ofText (s : Text) : (ofText s).text = Entry.unindented s := by
  unfold ofText
  split
  · next e he => exact (Entry.unindented_of_some he).symm
  · next hnone => exact (Entry.unindented_of_none hnone).symm

theorem ofText_unindented (s : Text) : ofText (Entry.unindented s) = ofText s := by
  cases he : Entry.ofLine? s with
  | none => rw [Entry.unindented_of_none he]
  | some e => rw [Entry.unindented_of_some he, ofText, ofText, he, Entry.ofLine_line_self he]

theorem rereads_ofText (hnl : '\n' ∉ s) : (ofText s).Rereads := by
  refine ⟨?_, ?_⟩
  · rw [text_ofText]
    exact fun hmem => hnl (Entry.unindented_subset s hmem)
  · rw [text_ofText, ofText_unindented]

theorem rereads_of_mem_readAll {l : Line} (h : l ∈ readAll s) : l.Rereads := by
  unfold readAll at h
  split at h
  · simp at h
  · obtain ⟨t, ht, rfl⟩ := List.mem_map.1 h
    exact rereads_ofText (newline_not_mem_of_mem_lines ht)

theorem rereads_entry_iff {e : Entry} :
    (entry e).Rereads ↔ '\n' ∉ (entry e).text ∧ (e.completed = true → e.kind = .task) ∧
      (e.kind = .note → ¬"[ ] ".toList <+: e.content ∧ ¬"[x] ".toList <+: e.content) := by
  have hread : ofText e.line = entry e ↔ Entry.ofLine? e.line = some e := by
    rw [ofText]
    cases Entry.ofLine? e.line <;> simp
  rw [Rereads, ← Entry.ofLine_line_iff, ← hread]
  rfl

theorem rereads_plain_iff :
    (plain s).Rereads ↔ '\n' ∉ (plain s).text ∧ Entry.hasMarker s = false := by
  rw [Entry.hasMarker_eq, Rereads, text, ofText]
  cases Entry.ofLine? s <;> simp

/-! ## From a text to its lines and back -/

theorem writeAll_readAll (s : Text) :
    writeAll (readAll s) = joinLines ((lines s).map Entry.unindented) := by
  cases s with
  | nil => rfl
  | cons c rest =>
      rw [readAll, if_neg (by simp), writeAll, List.map_map]
      exact congrArg joinLines (List.map_congr_left fun t _ => text_ofText t)

theorem writeAll_readAll_eq_self_iff :
    writeAll (readAll s) = s ↔
      ∀ l ∈ lines s, Entry.hasMarker l = true → isIndented l = false := by
  have hlines : lines (writeAll (readAll s)) = (lines s).map Entry.unindented := by
    rw [writeAll_readAll]
    refine lines_joinLines (by simpa [lines] using pieces_ne_nil '\n' s) fun t ht => ?_
    obtain ⟨l, hl, rfl⟩ := List.mem_map.1 ht
    exact fun hmem => newline_not_mem_of_mem_lines hl (Entry.unindented_subset l hmem)
  simp only [← Entry.unindented_eq_self_iff]
  constructor
  · intro h
    rw [h] at hlines
    exact List.map_inj_left.1 (hlines.symm.trans (List.map_id _).symm)
  · intro h
    rw [writeAll_readAll, List.map_congr_left h, List.map_id', joinLines_lines]

/-! ## From lines to their text and back -/

theorem readAll_writeAll_iff (hls : ls ≠ [plain []]) :
    readAll (writeAll ls) = ls ↔ ∀ l ∈ ls, l.Rereads := by
  refine ⟨fun h l hl => ?_, readAll_writeAll hls⟩
  rw [← h] at hl
  exact rereads_of_mem_readAll hl

theorem readAll_ne_empty_line (s : Text) : readAll s ≠ [plain []] := by
  intro h
  unfold readAll at h
  split at h
  · cases h
  · next hfilled =>
    obtain ⟨t, hlines, hread⟩ := List.map_eq_singleton_iff.1 h
    have hs : t = s := by rw [← joinLines_lines s, hlines]; rfl
    subst hs
    unfold ofText at hread
    split at hread
    · cases hread
    · cases hread
      exact hfilled rfl

/-- A text that is read and written again has lost the indentation of its entries and nothing else,
so it is the same just when no entry is indented, and in any case it is read as the same lines.
Lines that are written and read again are the same just when each of them is one line, only tasks
are completed, no content of a note begins with the box of a task, and no plain line looks like an
entry; only an empty line alone is lost. -/
theorem lines_round_trip :
    (∀ s, writeAll (readAll s) = joinLines ((lines s).map Entry.unindented) ∧
      (writeAll (readAll s) = s ↔
        ∀ l ∈ lines s, Entry.hasMarker l = true → isIndented l = false) ∧
      readAll (writeAll (readAll s)) = readAll s) ∧
    ∀ ls, ls ≠ [plain []] → (readAll (writeAll ls) = ls ↔
      (∀ l ∈ ls, '\n' ∉ l.text) ∧
      (∀ e, entry e ∈ ls → e.completed = true → e.kind = .task) ∧
      (∀ e, entry e ∈ ls → e.kind = .note →
        ¬"[ ] ".toList <+: e.content ∧ ¬"[x] ".toList <+: e.content) ∧
      ∀ s, plain s ∈ ls → Entry.hasMarker s = false) := by
  refine ⟨fun s => ⟨writeAll_readAll s, writeAll_readAll_eq_self_iff, ?_⟩, fun ls hls => ?_⟩
  · exact readAll_writeAll (readAll_ne_empty_line s) fun _ => rereads_of_mem_readAll
  · rw [readAll_writeAll_iff hls]
    constructor
    · intro h
      refine ⟨fun l hl => (h l hl).1, fun e he => ?_, fun e he => ?_, fun s hs => ?_⟩
      · exact (rereads_entry_iff.1 (h _ he)).2.1
      · exact (rereads_entry_iff.1 (h _ he)).2.2
      · exact (rereads_plain_iff.1 (h _ hs)).2
    · rintro ⟨hnl, hcompleted, hbox, hplain⟩ l hl
      cases l with
      | entry e => exact rereads_entry_iff.2 ⟨hnl _ hl, hcompleted e hl, hbox e hl⟩
      | plain s => exact rereads_plain_iff.2 ⟨hnl _ hl, hplain s hl⟩

/-- A note without a content, an empty line and a completed task with a box in its content come
back; a note with such a content does not. -/
theorem lines_round_trip_boxes :
    readAll (writeAll [entry ⟨.note, [], false⟩, plain [], entry ⟨.task, "[ ] a".toList, true⟩]) =
      [entry ⟨.note, [], false⟩, plain [], entry ⟨.task, "[ ] a".toList, true⟩] ∧
    readAll (writeAll [entry ⟨.note, "[ ] a".toList, false⟩]) ≠
      [entry ⟨.note, "[ ] a".toList, false⟩] := by
  constructor
  · refine (lines_round_trip.2 _ (by simp)).2 ⟨by decide, by simp, by simp, fun s hs => ?_⟩
    obtain rfl : s = [] := by simpa using hs
    rfl
  · intro h
    have hbox := ((lines_round_trip.2 _ (by simp)).1 h).2.2.1 ⟨.note, "[ ] a".toList, false⟩
    exact (hbox (by simp) rfl).1 (by decide)

end Line

end DayJournal

import DayJournal.Proofs.TrimmedLines

/-!
# Contents that are replaced

An entry that is given a new content is written as a line, and read again when the old content is
put back.  On the last line of a day the blanks at its end are lost, and a note whose content
begins with a box is read as a task.  In a document without indented entries these are the only
ways in which a content that is put back can miss: it restores the document just when the new one
was kept.
-/

namespace DayJournal

open Text Document

/-! ## Replacing a line of a text -/

namespace Text

variable {t s : Text} {i : Nat}

theorem lines_trimEnd_joinLines {init : List Text} {l : Text} (hinit : ∀ x ∈ init, '\n' ∉ x)
    (hl : '\n' ∉ l) (hblank : isBlankText l = false) :
    lines (trimEnd (joinLines (init ++ [l]))) = init ++ [trimEnd l] := by
  obtain ⟨before, hjoin⟩ := exists_joinLines_concat init
  rw [hjoin, trimEnd_append_of_not_blank hblank, ← hjoin]
  refine lines_joinLines (by simp) fun x hx => ?_
  rcases List.mem_append.1 hx with hx | hx
  · exact hinit x hx
  · rw [List.mem_singleton.1 hx]
    exact fun hmem => hl (trimEnd_subset l hmem)

theorem lines_trimEnd_set (htrim : trimEnd t = t) (hne : t ≠ []) (hi : i < (lines t).length)
    (hnl : '\n' ∉ s) (hs : isBlankText s = false) :
    lines (trimEnd (joinLines ((lines t).set i s))) =
      (lines t).set i (if i + 1 = (lines t).length then trimEnd s else s) := by
  obtain ⟨init, l, hlines, hltrim, hlblank⟩ := exists_lines_eq_concat htrim hne
  have hmem : ∀ x ∈ init ++ [l], '\n' ∉ x := by
    rw [← hlines]
    exact fun x hx => newline_not_mem_of_mem_lines hx
  have hinit : ∀ x ∈ init, '\n' ∉ x := fun x hx => hmem x (List.mem_append_left _ hx)
  rw [hlines, List.length_append, List.length_singleton] at hi ⊢
  by_cases hlast : i = init.length
  · subst hlast
    have hset : ∀ x : Text, (init ++ [l]).set init.length x = init ++ [x] := by simp
    rw [if_pos rfl, hset, hset, lines_trimEnd_joinLines hinit hnl hs]
  · have hset : ∀ x : Text, (init ++ [l]).set i x = init.set i x ++ [l] :=
      fun x => List.set_append_left i x (by omega)
    rw [if_neg (by omega), hset, lines_trimEnd_joinLines ?_ (hmem l (by simp)) hlblank, hltrim]
    intro x hx
    rcases List.mem_or_eq_of_mem_set hx with hx | rfl
    · exact hinit x hx
    · exact hnl

end Text

/-! ## Documents without indented entries -/

/-- The document is canonical and none of its entries is indented. -/
structure UnindentedDocument (t : Text) : Prop where
  canonical : Canonical t
  entries : ∀ day, ∀ s ∈ lines (dayText t day), ∀ e, Entry.ofLine? s = some e → s = e.line

theorem PlainDocument.unindented {t : Text} (h : PlainDocument t) : UnindentedDocument t :=
  ⟨h.canonical, fun day s hs e he => (h.entries day s hs e he).1⟩

namespace Document

def EndsDay (t : Text) (place : Address) : Prop := place.line + 1 = (dayLines t place.day).length

instance (t : Text) (place : Address) : Decidable (EndsDay t place) :=
  inferInstanceAs (Decidable (_ = _))

/-- The line that is found at a place where an entry has been written. -/
def lineWritten (t : Text) (place : Address) (e : Entry) : Text :=
  if EndsDay t place then trimEnd e.line else e.line

variable {t : Text} {place : Address} {e : Entry}

theorem trimStart_lineWritten : trimStart (lineWritten t place e) = lineWritten t place e := by
  -- A marker begins with no blank, and what is cut off at the end does not reach it.
  obtain ⟨c, rest, hmarker, hblank⟩ : ∃ c rest, e.marker = c :: rest ∧ isBlank c = false := by
    obtain ⟨kind, content, completed⟩ := e
    cases kind <;> cases completed <;> exact ⟨_, _, rfl, by decide⟩
  have hcut : trimEnd (c :: (rest ++ e.content)) = c :: trimEnd (rest ++ e.content) := by
    have hone : trimEnd [c] = [c] := by simp [trimEnd, trimEndOf, hblank]
    rw [← List.singleton_append, trimEnd, trimEndOf_append]
    split
    · next hnil => rw [trimEnd, hnil]; exact hone
    · rfl
  rw [lineWritten, Entry.line, hmarker, List.cons_append]
  split
  · rw [hcut, trimStart_of_not_blank hblank]
  · rw [trimStart_of_not_blank hblank]

theorem exists_line_of_entryIn (he : entryIn t place = some e) :
    0 ≤ place.line ∧ ∃ s, (lines (dayText t place.day))[place.line.toNat]? = some s ∧
      Entry.ofLine? s = some e := by
  rw [entryIn, dayLines, Line.entryAt_readAll] at he
  split at he
  · next hindex => exact ⟨hindex, Option.bind_eq_some_iff.1 he⟩
  · cases he

theorem length_dayLines {day : Date} (hday : dayText t day ≠ []) :
    (dayLines t day).length = (lines (dayText t day)).length := by
  rw [dayLines, Line.readAll, if_neg (by simpa using hday), List.length_map]

end Document

namespace UnindentedDocument

variable {t u : Text} {place : Address} {e e' e'' old : Entry}

theorem ext_lines (ht : UnindentedDocument t) (hu : UnindentedDocument u)
    (h : ∀ day, lines (dayText t day) = lines (dayText u day)) : t = u := by
  apply ht.canonical.ext hu.canonical
  intro day
  rw [← joinLines_lines (dayText t day), h day, joinLines_lines]

theorem line_of_entryIn (h : UnindentedDocument t) (he : entryIn t place = some e) :
    (lines (dayText t place.day))[place.line.toNat]? = some e.line := by
  obtain ⟨-, s, hs, hentry⟩ := exists_line_of_entryIn he
  rw [hs, h.entries _ s (List.mem_of_getElem? hs) e hentry]

theorem map_text_dayLines (h : UnindentedDocument t) {day : Date} (hday : dayText t day ≠ []) :
    (dayLines t day).map Line.text = lines (dayText t day) := by
  refine Line.map_text_readAll hday fun s hs => ?_
  unfold Line.ofText
  split
  · next e he => exact (h.entries day s hs e he).symm
  · rfl

section Put

variable (h : UnindentedDocument t) (hold : entryIn t place = some old) (hnl : '\n' ∉ e.content)
include h hold

theorem writeAll_set (e : Entry) :
    Line.writeAll ((dayLines t place.day).set place.line.toNat (.entry e)) =
      joinLines ((lines (dayText t place.day)).set place.line.toNat e.line) := by
  rw [Line.writeAll, List.map_set, h.map_text_dayLines (dayText_ne_nil_of_entryIn hold)]
  rfl

include hnl

omit h hold in
theorem headless_written : Headless
    (Line.writeAll ((dayLines t place.day).set place.line.toNat (.entry e))) := by
  apply Line.headless_writeAll
  intro l hl
  rcases List.mem_or_eq_of_mem_set hl with hl | rfl
  · exact headless_of_mem_dayLines hl
  · exact Line.headless_entry hnl

theorem lines_putEntry : lines (dayText (Document.putEntry t place e) place.day) =
    (lines (dayText t place.day)).set place.line.toNat (lineWritten t place e) := by
  have hday := dayText_ne_nil_of_entryIn hold
  obtain ⟨hindex, s, hs, -⟩ := exists_line_of_entryIn hold
  obtain ⟨hlt, -⟩ := List.getElem?_eq_some_iff.1 hs
  have hlate := h.canonical.late_of_dayText hday
  have hline : '\n' ∉ e.line := (Line.headless_entry hnl).1
  rw [Document.putEntry, setLines,
    h.canonical.dayText_updateDay hlate (headless_written hnl), h.writeAll_set hold,
    lines_trimEnd_set (trimEnd_dayText t place.day) hday hlt hline e.not_blank_line, lineWritten]
  have hends : place.line.toNat + 1 = (lines (dayText t place.day)).length ↔ EndsDay t place := by
    rw [EndsDay, length_dayLines hday]
    omega
  rw [if_congr hends rfl rfl]

theorem dayText_putEntry_of_ne {other : Date} (hne : other ≠ place.day) :
    dayText (Document.putEntry t place e) other = dayText t other :=
  dayText_updateDay_of_ne (h.canonical.late_of_dayText (dayText_ne_nil_of_entryIn hold))
    (headless_written hnl) hne

theorem putEntry : UnindentedDocument (Document.putEntry t place e) := by
  have hlate := h.canonical.late_of_dayText (dayText_ne_nil_of_entryIn hold)
  refine ⟨h.canonical.updateDay hlate (headless_written hnl), fun day s hs f hf => ?_⟩
  by_cases hday : day = place.day
  · subst hday
    rw [h.lines_putEntry hold hnl] at hs
    rcases List.mem_or_eq_of_mem_set hs with hs | rfl
    · exact h.entries _ s hs f hf
    · rw [← Entry.line_of_ofLine hf, trimStart_lineWritten]
  · rw [h.dayText_putEntry_of_ne hold hnl hday] at hs
    exact h.entries day s hs f hf

theorem entryIn_putEntry :
    entryIn (Document.putEntry t place e) place = Entry.ofLine? (lineWritten t place e) := by
  obtain ⟨hindex, s, hs, -⟩ := exists_line_of_entryIn hold
  obtain ⟨hlt, -⟩ := List.getElem?_eq_some_iff.1 hs
  rw [entryIn, dayLines, Line.entryAt_readAll, if_pos hindex, h.lines_putEntry hold hnl,
    List.getElem?_set_self hlt, Option.bind_some]

theorem putEntry_eq_iff : Document.putEntry t place e = t ↔ lineWritten t place e = old.line := by
  have hline := h.line_of_entryIn hold
  obtain ⟨hlt, hget⟩ := List.getElem?_eq_some_iff.1 hline
  have hlines := h.lines_putEntry hold hnl
  constructor
  · intro heq
    rw [heq] at hlines
    have hwritten := congrArg (·[place.line.toNat]?) hlines
    simp only [hline, List.getElem?_set_self hlt] at hwritten
    exact (Option.some.inj hwritten).symm
  · intro heq
    apply (h.putEntry hold hnl).ext_lines h
    intro day
    by_cases hday : day = place.day
    · subst hday
      rw [hlines, heq, ← hget, List.set_getElem_self]
    · rw [h.dayText_putEntry_of_ne hold hnl hday]

theorem putEntry_putEntry (hnl' : '\n' ∉ e'.content)
    (hread : entryIn (Document.putEntry t place e) place = some e'') :
    Document.putEntry (Document.putEntry t place e) place e' = Document.putEntry t place e' := by
  have hu := h.putEntry hold hnl
  have hlines := h.lines_putEntry hold hnl
  have hends : EndsDay (Document.putEntry t place e) place ↔ EndsDay t place := by
    rw [EndsDay, EndsDay, length_dayLines (dayText_ne_nil_of_entryIn hread),
      length_dayLines (dayText_ne_nil_of_entryIn hold), hlines, List.length_set]
  apply (hu.putEntry hread hnl').ext_lines (h.putEntry hold hnl')
  intro day
  by_cases hday : day = place.day
  · subst hday
    rw [hu.lines_putEntry hread hnl', h.lines_putEntry hold hnl', hlines, List.set_set, lineWritten,
      lineWritten]
    congr 1
    exact if_congr hends rfl rfl
  · rw [hu.dayText_putEntry_of_ne hread hnl' hday, h.dayText_putEntry_of_ne hold hnl hday,
      h.dayText_putEntry_of_ne hold hnl' hday]

end Put

end UnindentedDocument

/-! ## Contents that are kept -/

theorem Kind.length_trimEnd_marker (kind : Kind) (completed : Bool) :
    (trimEnd (kind.marker completed)).length < (kind.marker completed).length := by
  cases kind <;> cases completed <;> decide

theorem Kind.eq_note_of_marker {kind : Kind} {completed completed' : Bool}
    (h : kind.marker completed = Kind.marker .note completed') : kind = .note := by
  cases kind
  · cases completed <;> cases h
  · rfl
  · cases h

namespace Entry

/-- A new content is read again in the kind of line that it is written in: on the last line of a
day it is not blank, and as a note it does not begin with the box of a task. -/
def Keeps (e : Entry) (last : Prop) (new : Text) : Prop :=
  (last → isBlankText new = false) ∧
    (e.kind = .note → ¬"[ ] ".toList <+: new ∧ ¬"[x] ".toList <+: new)

variable {t new : Text} {place : Address} {e f : Entry}

theorem lineWritten_eq_line (htrim : EndsDay t place → trimEnd e.content = e.content)
    (hfilled : EndsDay t place → isBlankText e.content = false) :
    lineWritten t place e = e.line := by
  unfold lineWritten
  split
  · next hlast => exact trimEnd_line_of_content (htrim hlast) (hfilled hlast)
  · rfl

theorem trimEnd_line_ne_of_blank (h : isBlankText e.content = true) (s : Text) :
    trimEnd e.line ≠ e.marker ++ s := by
  intro heq
  rw [line, trimEnd_append_of_blank h] at heq
  have hlength := congrArg List.length heq
  have hshorter := e.kind.length_trimEnd_marker e.completed
  rw [marker, List.length_append] at hlength
  omega

theorem content_of_trimmed_line (h : trimEnd e.line = e.line) :
    trimEnd e.content = e.content ∧ isBlankText e.content = false := by
  cases hblank : isBlankText e.content with
  | false =>
      rw [line, trimEnd_append_of_not_blank hblank] at h
      exact ⟨List.append_cancel_left h, rfl⟩
  | true => exact absurd h (trimEnd_line_ne_of_blank hblank e.content)

theorem ofLine_lineWritten (hcompleted : e.completed = true → e.kind = .task)
    (hkeeps : e.Keeps (EndsDay t place) new) (htrim : EndsDay t place → trimEnd new = new) :
    ofLine? (lineWritten t place { e with content := new }) = some { e with content := new } := by
  have hbox := hkeeps.2
  rw [lineWritten_eq_line htrim hkeeps.1]
  exact ofLine_line_of hcompleted hbox

/-- A line that is read with the marker that it was written with has kept its content. -/
theorem keeps_of_marker (hread : ofLine? (lineWritten t place { e with content := new }) = some f)
    (hmarker : f.marker = e.marker) (htrim : EndsDay t place → trimEnd new = new) :
    e.Keeps (EndsDay t place) new := by
  have hline : lineWritten t place { e with content := new } = e.marker ++ f.content := by
    rw [← hmarker, ← trimStart_lineWritten, line_of_ofLine hread, line]
  have hfilled : EndsDay t place → isBlankText new = false := by
    intro hlast
    rw [Bool.eq_false_iff]
    intro hblank
    rw [lineWritten, if_pos hlast] at hline
    exact trimEnd_line_ne_of_blank hblank f.content hline
  refine ⟨hfilled, fun hnote => ?_⟩
  have hcontent : f.content = new := by
    rw [lineWritten_eq_line htrim hfilled] at hline
    exact List.append_cancel_left hline.symm
  have hkind : f.kind = .note := by
    rw [marker, marker, hnote] at hmarker
    exact Kind.eq_note_of_marker hmarker
  rw [← hcontent]
  exact not_box_of_ofLine hread hkind

end Entry

namespace UnindentedDocument

variable {t new : Text} {place : Address} {e f : Entry}

theorem content_of_endsDay (h : UnindentedDocument t) (he : entryIn t place = some e)
    (hlast : EndsDay t place) : trimEnd e.content = e.content ∧ isBlankText e.content = false := by
  have hday := dayText_ne_nil_of_entryIn he
  obtain ⟨init, l, hlines, htrim, -⟩ := exists_lines_eq_concat (trimEnd_dayText t place.day) hday
  have hindex : place.line.toNat = init.length := by
    rw [EndsDay, length_dayLines hday, hlines, List.length_append, List.length_singleton] at hlast
    omega
  have hline := h.line_of_entryIn he
  rw [hlines, hindex, List.getElem?_concat_length, Option.some.injEq] at hline
  rw [hline] at htrim
  exact Entry.content_of_trimmed_line htrim

theorem mapEntry_self (h : UnindentedDocument t) (he : entryIn t place = some e) :
    mapEntry t place (fun a => { a with content := e.content }) = t := by
  have hnl : '\n' ∉ e.content := Journal.content_of_entry (j := ⟨t, none⟩) he
  rw [mapEntry_of_some he]
  exact (h.putEntry_eq_iff he hnl).2 (Entry.lineWritten_eq_line
    (fun hlast => (h.content_of_endsDay he hlast).1) fun hlast => (h.content_of_endsDay he hlast).2)

/-- A content that is put back restores the document just when the new one was kept. -/
theorem putBack_eq_iff (h : UnindentedDocument t) (he : entryIn t place = some e) (hnl : '\n' ∉ new)
    (htrim : EndsDay t place → trimEnd new = new) :
    mapEntry (mapEntry t place fun a => { a with content := new }) place
        (fun a => { a with content := e.content }) = t ↔ e.Keeps (EndsDay t place) new := by
  obtain ⟨-, s, -, hs⟩ := exists_line_of_entryIn he
  have hcompleted := Entry.completed_of_ofLine hs
  have hnl' : '\n' ∉ e.content := Journal.content_of_entry (j := ⟨t, none⟩) he
  have hread := h.entryIn_putEntry (e := { e with content := new }) he hnl
  rw [mapEntry_of_some he]
  cases hfound : Entry.ofLine? (lineWritten t place { e with content := new }) with
  | none =>
      -- There is no entry any more, so nothing is put back.
      rw [hfound] at hread
      rw [mapEntry_of_none hread]
      constructor
      · intro heq
        rw [heq, he] at hread
        cases hread
      · intro hkeeps
        rw [Entry.ofLine_lineWritten hcompleted hkeeps htrim] at hfound
        cases hfound
  | some f =>
      rw [hfound] at hread
      have hline : lineWritten t place { f with content := e.content } = f.marker ++ e.content :=
        Entry.lineWritten_eq_line (fun hlast => (h.content_of_endsDay he hlast).1)
          fun hlast => (h.content_of_endsDay he hlast).2
      have hback : '\n' ∉ ({ f with content := e.content } : Entry).content := hnl'
      rw [mapEntry_of_some hread, h.putEntry_putEntry he hnl hback hread,
        h.putEntry_eq_iff he hback, hline, Entry.line, List.append_left_inj]
      constructor
      · exact fun hmarker => Entry.keeps_of_marker hfound hmarker htrim
      · intro hkeeps
        rw [Entry.ofLine_lineWritten hcompleted hkeeps htrim] at hfound
        cases hfound
        rfl

end UnindentedDocument

end DayJournal

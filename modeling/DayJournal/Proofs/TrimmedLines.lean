import DayJournal.Proofs.RereadEntries
import Mathlib.Data.List.DropRight

/-!
# Entries of a trimmed text

Trimming a text at its end leaves its entries where they are, as long as their contents are not
blank: of an entry on the last line the blanks at the end of its content go, and nothing else.  So
the lines of a section and those of the text of its day have alike entries at the same places.
-/

namespace DayJournal

open Text

namespace Entry

/-- The entries are the same up to blanks at the ends of their contents. -/
structure Alike (e e' : Entry) : Prop where
  kind : e.kind = e'.kind
  completed : e.completed = e'.completed
  content : trimEnd e.content = trimEnd e'.content

theorem Alike.refl (e : Entry) : e.Alike e := ⟨rfl, rfl, rfl⟩

theorem alike_trimmed (e : Entry) : ({ e with content := trimEnd e.content } : Entry).Alike e :=
  ⟨rfl, rfl, trimEnd_trimEnd e.content⟩

theorem ofLine_trimStart (s : Text) : ofLine? (trimStart s) = ofLine? s := by
  rw [ofLine?, trimStart, trimStart, List.dropWhile_idempotent]
  rfl

theorem ofLine_of_blank {s : Text} (h : isBlankText s = true) : ofLine? s = none := by
  cases he : ofLine? s with
  | none => rfl
  | some e =>
      have hstart : trimStart (s ++ []) = [] := trimStart_append_of_blank h []
      have hfilled := e.not_blank_line
      rw [← line_of_ofLine he, ← s.append_nil, hstart] at hfilled
      cases hfilled

theorem ofLine_line_self {s : Text} {e : Entry} (h : ofLine? s = some e) :
    ofLine? e.line = some e := by
  rw [← line_of_ofLine h, ofLine_trimStart, h]

theorem not_box_of_ofLine {s : Text} {e : Entry} (h : ofLine? s = some e) (hnote : e.kind = .note) :
    ¬"[ ] ".toList <+: e.content ∧ ¬"[x] ".toList <+: e.content := by
  have hself := ofLine_line_self h
  have hfalse : e.completed = false := by
    rw [Bool.eq_false_iff]
    intro hcompleted
    rw [completed_of_ofLine h hcompleted] at hnote
    cases hnote
  -- With a box in its content its line is the line of a task.
  have htask : ∀ b rest, e.line ≠ (⟨.task, rest, b⟩ : Entry).line := by
    intro b rest heq
    rw [heq, ofLine_line_of (fun _ => rfl) (fun hkind => by cases hkind)] at hself
    cases hself
    cases hnote
  have hline : e.line = "- ".toList ++ e.content := by
    rw [line, marker, hnote, hfalse]
    rfl
  constructor
  · rintro ⟨rest, hrest⟩
    exact htask false rest (by rw [hline, ← hrest]; rfl)
  · rintro ⟨rest, hrest⟩
    exact htask true rest (by rw [hline, ← hrest]; rfl)

theorem ofLine_trimEnd {s : Text} {e : Entry} (h : ofLine? s = some e)
    (hblank : isBlankText e.content = false) :
    ofLine? (trimEnd s) = some { e with content := trimEnd e.content } := by
  have hs : s = s.takeWhile isBlank ++ e.line := by
    rw [← line_of_ofLine h, trimStart, List.takeWhile_append_dropWhile]
  have hindent : isBlankText (s.takeWhile isBlank) = true :=
    List.all_eq_true.2 fun c hc => List.mem_takeWhile_imp hc
  have hline : trimEnd e.line = ({ e with content := trimEnd e.content } : Entry).line := by
    rw [line, trimEnd_append_of_not_blank hblank]
    rfl
  have htrim : trimStart (trimEnd s) = ({ e with content := trimEnd e.content } : Entry).line := by
    conv_lhs => rw [hs]
    rw [trimEnd_append_of_not_blank e.not_blank_line, trimStart_append_of_blank hindent, hline,
      trimStart_line]
  have hprefix : trimEnd e.content <+: e.content := by
    obtain ⟨cut, -, hcut⟩ := exists_trimEnd_append e.content
    exact ⟨cut, hcut.symm⟩
  have hcompleted := completed_of_ofLine h
  rw [← ofLine_trimStart, htrim]
  refine ofLine_line_of hcompleted fun hnote => ?_
  obtain ⟨hopen, hticked⟩ := not_box_of_ofLine h hnote
  exact ⟨fun hbox => hopen (hbox.trans hprefix), fun hbox => hticked (hbox.trans hprefix)⟩

end Entry

namespace Line

theorem entryAt_readAll (s : Text) (index : Int) :
    entryAt? (readAll s) index =
      if 0 ≤ index then (lines s)[index.toNat]?.bind Entry.ofLine? else none := by
  rw [entryAt?]
  congr 1
  cases s with
  | nil => cases index.toNat <;> rfl
  | cons c s =>
      rw [readAll, if_neg (by simp), List.getElem?_map, Option.bind_map]
      exact congrArg _ (funext entry_ofText)

variable {s : Text} {index : Int} {e : Entry}

theorem exists_entryAt_trimEnd (h : entryAt? (readAll s) index = some e)
    (hblank : isBlankText e.content = false) :
    ∃ e', entryAt? (readAll (trimEnd s)) index = some e' ∧ e'.Alike e := by
  rw [entryAt_readAll] at h ⊢
  split at h
  · next hindex =>
    obtain ⟨l, hl, he⟩ := Option.bind_eq_some_iff.1 h
    have hline : isBlankText l = false := by
      rw [Bool.eq_false_iff]
      intro hl
      rw [Entry.ofLine_of_blank hl] at he
      cases he
    rw [if_pos hindex]
    rcases getElem?_lines_trimEnd hl hline with hl' | hl'
    · exact ⟨e, by rw [hl', Option.bind_some, he], .refl e⟩
    · exact ⟨_, by rw [hl', Option.bind_some, Entry.ofLine_trimEnd he hblank], e.alike_trimmed⟩
  · cases h

theorem exists_entryAt_of_trimEnd (h : entryAt? (readAll (trimEnd s)) index = some e)
    (hblank : ∀ e', entryAt? (readAll s) index = some e' → isBlankText e'.content = false) :
    ∃ e', entryAt? (readAll s) index = some e' ∧ e.Alike e' := by
  simp only [entryAt_readAll] at h hblank ⊢
  split at h
  · next hindex =>
    simp only [if_pos hindex] at hblank ⊢
    obtain ⟨l, hl, he⟩ := Option.bind_eq_some_iff.1 h
    obtain ⟨l', hl', rfl | rfl⟩ := exists_getElem?_of_trimEnd hl
    · exact ⟨e, by rw [hl', Option.bind_some, he], .refl e⟩
    · obtain ⟨e', he'⟩ := exists_ofLine_of_trimEnd he
      have hat : (lines s)[index.toNat]?.bind Entry.ofLine? = some e' := by
        rw [hl', Option.bind_some, he']
      rw [Entry.ofLine_trimEnd he' (hblank e' hat)] at he
      cases he
      exact ⟨e', hat, e'.alike_trimmed⟩
  · cases h

end Line

end DayJournal

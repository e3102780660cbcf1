import DayJournal.Proofs.LineRoundTrip
import DayJournal.Proofs.Pruning

/-!
# Tidied lines

What becomes of lines when the text that is written of them is trimmed at its end: the blank lines
at the end go, and so do the blanks at the end of the last line that is left.  As long as no entry
has a blank content the lines that are read from the trimmed text are the tidied ones
(`readAll_trimEnd_writeAll`), and the lines of a day are tidied already.  Entries stay at their
indices, and lines that are tidied and cut are the same in the end as lines that are only cut.
-/

namespace DayJournal

open Text Document

def Entry.trimmed (e : Entry) : Entry := { e with content := trimEnd e.content }

@[simp] theorem Entry.trimmed_trimmed (e : Entry) : e.trimmed.trimmed = e.trimmed := by
  rw [trimmed, trimmed, trimEnd_trimEnd]

theorem Entry.line_trimmed {e : Entry} (h : isBlankText e.content = false) :
    e.trimmed.line = trimEnd e.line := by
  rw [line, line, trimEnd_append_of_not_blank h]
  rfl

namespace Line

def trimmed : Line → Line
  | entry e => entry e.trimmed
  | plain s => plain (trimEnd s)

/-- The lines without the blank ones at their end, and without the blanks at the end of the last one
that is left. -/
def tidied : List Line → List Line
  | [] => []
  | l :: ls =>
    if tidied ls = [] then if isBlankText l.text then [] else [l.trimmed] else l :: tidied ls

/-- The line is read as what it is, and it is not an entry with a blank content. -/
structure Firm (l : Line) : Prop where
  rereads : l.Rereads
  filled : ∀ e, l = entry e → isBlankText e.content = false

variable {l : Line} {ls ls' : List Line}

@[simp] theorem entry_trimmed (l : Line) : l.trimmed.entry? = l.entry?.map Entry.trimmed := by
  cases l <;> rfl

@[simp] theorem isBlankText_trimmed (l : Line) :
    isBlankText l.trimmed.text = isBlankText l.text := by
  cases l with
  | entry e =>
      calc isBlankText e.trimmed.line
          = false := e.trimmed.not_blank_line
        _ = isBlankText e.line := e.not_blank_line.symm
  | plain s => exact isBlankText_trimEnd s

theorem entry_of_blank (h : isBlankText l.text = true) : l.entry? = none := by
  cases l with
  | entry e =>
      have hfilled : isBlankText (entry e).text = false := e.not_blank_line
      rw [h] at hfilled
      cases hfilled
  | plain s => rfl

theorem Firm.text_trimmed (h : l.Firm) : l.trimmed.text = trimEnd l.text := by
  cases l with
  | entry e => exact Entry.line_trimmed (h.filled e rfl)
  | plain s => rfl

theorem Firm.trimmed (h : l.Firm) : l.trimmed.Firm := by
  have hnl : '\n' ∉ l.trimmed.text := by
    rw [h.text_trimmed]
    exact fun hmem => h.rereads.1 (trimEnd_subset _ hmem)
  cases l with
  | entry e =>
      have hread : Entry.ofLine? e.line = some e := by
        rw [← entry_ofText, show ofText e.line = entry e from h.rereads.2]
        rfl
      refine ⟨⟨hnl, ?_⟩, fun e' he' => ?_⟩
      · have htrim := Entry.ofLine_trimEnd hread (h.filled e rfl)
        rw [h.text_trimmed, ofText,
          show Entry.ofLine? (trimEnd (entry e).text) = some e.trimmed from htrim]
        rfl
      · cases he'
        rw [Entry.trimmed, isBlankText_trimEnd]
        exact h.filled e rfl
  | plain s =>
      refine ⟨⟨hnl, ?_⟩, fun e he => by cases he⟩
      have hnone : Entry.ofLine? (trimEnd s) = none := by
        rw [← Option.not_isSome_iff_eq_none]
        intro hsome
        obtain ⟨e, he⟩ := Option.isSome_iff_exists.1 hsome
        obtain ⟨e', he'⟩ := exists_ofLine_of_trimEnd he
        have hread : Line.entry? (ofText s) = Line.entry? (plain s) := congrArg _ h.rereads.2
        rw [entry_ofText, he'] at hread
        cases hread
      show ofText (trimEnd s) = plain (trimEnd s)
      rw [ofText, hnone]

theorem tidied_concat (ls : List Line) (h : isBlankText l.text = false) :
    tidied (ls ++ [l]) = ls ++ [l.trimmed] := by
  induction ls with
  | nil => rw [List.nil_append, tidied, tidied, if_pos rfl, h]; rfl
  | cons l' ls ih => rw [List.cons_append, tidied, ih, if_neg (by simp), List.cons_append]

/-! ## Written and read -/

theorem writeAll_cons (l : Line) (h : ls ≠ []) :
    writeAll (l :: ls) = l.text ++ '\n' :: writeAll ls := by
  rw [writeAll, List.map_cons, joinLines_cons (by simpa using h)]
  rfl

theorem isBlankText_writeAll_cons (l : Line) (ls : List Line) :
    isBlankText (writeAll (l :: ls)) = (isBlankText l.text && isBlankText (writeAll ls)) := by
  by_cases hls : ls = []
  · subst hls
    exact (Bool.and_true _).symm
  · rw [writeAll_cons l hls]
    simp

theorem isBlankText_writeAll_of_entry {e : Entry} (h : entry e ∈ ls) :
    isBlankText (writeAll ls) = false := by
  induction ls with
  | nil => cases h
  | cons l ls ih =>
      rw [isBlankText_writeAll_cons, Bool.and_eq_false_iff]
      rcases List.mem_cons.1 h with rfl | h
      · exact Or.inl e.not_blank_line
      · exact Or.inr (ih h)

theorem tidied_eq_nil_iff : tidied ls = [] ↔ isBlankText (writeAll ls) = true := by
  induction ls with
  | nil => exact iff_of_true rfl rfl
  | cons l ls ih =>
      rw [tidied, isBlankText_writeAll_cons, Bool.and_eq_true, ← ih]
      split
      · next htail => simp [htail]
      · next htail => simp [htail]

theorem writeAll_tidied (h : ∀ l ∈ ls, l.Firm) : writeAll (tidied ls) = trimEnd (writeAll ls) := by
  induction ls with
  | nil => rfl
  | cons l ls ih =>
      obtain ⟨hl, hls⟩ := List.forall_mem_cons.1 h
      rw [tidied]
      by_cases htail : tidied ls = []
      · have hrest : trimEnd (writeAll (l :: ls)) = trimEnd l.text := by
          by_cases hnil : ls = []
          · subst hnil
            rfl
          · rw [writeAll_cons l hnil]
            exact trimEnd_append_of_blank (by simpa using tidied_eq_nil_iff.1 htail) _
        rw [if_pos htail, hrest]
        split
        · next hblank => exact (trimEnd_eq_nil_iff.2 hblank).symm
        · exact hl.text_trimmed
      · have hnil : ls ≠ [] := fun hnil => htail (by rw [hnil]; rfl)
        have hfilled : isBlankText (writeAll ls) = false := by
          rw [Bool.eq_false_iff]
          exact fun hblank => htail (tidied_eq_nil_iff.2 hblank)
        rw [if_neg htail]
        calc writeAll (l :: tidied ls)
            = l.text ++ '\n' :: trimEnd (writeAll ls) := by rw [writeAll_cons l htail, ih hls]
          _ = (l.text ++ ['\n']) ++ trimEnd (writeAll ls) := by simp
          _ = trimEnd ((l.text ++ ['\n']) ++ writeAll ls) :=
              (trimEnd_append_of_not_blank hfilled _).symm
          _ = trimEnd (writeAll (l :: ls)) := by
              rw [writeAll_cons l hnil, List.append_assoc, List.singleton_append]

theorem firm_tidied (h : ∀ l ∈ ls, l.Firm) : ∀ l ∈ tidied ls, l.Firm := by
  induction ls with
  | nil => simp [tidied]
  | cons l ls ih =>
      obtain ⟨hl, hls⟩ := List.forall_mem_cons.1 h
      rw [tidied]
      split
      · split
        · simp
        · simpa using hl.trimmed
      · exact List.forall_mem_cons.2 ⟨hl, ih hls⟩

theorem exists_of_getLast?_tidied (h : (tidied ls).getLast? = some l) :
    ∃ l' ∈ ls, isBlankText l'.text = false ∧ l = l'.trimmed := by
  induction ls with
  | nil => cases h
  | cons l' ls ih =>
      rw [tidied] at h
      split at h
      · split at h
        · cases h
        · next hblank =>
          obtain rfl : l'.trimmed = l := by simpa using h
          exact ⟨l', List.mem_cons_self, by simpa using hblank, rfl⟩
      · next htail =>
        rw [List.getLast?_cons_of_ne_nil htail] at h
        obtain ⟨l'', hl'', hblank, hl⟩ := ih h
        exact ⟨l'', List.mem_cons_of_mem _ hl'', hblank, hl⟩

theorem steady_tidied (h : ∀ l ∈ ls, l.Firm) : Steady (tidied ls) := by
  refine ⟨fun l hl => (firm_tidied h l hl).rereads, fun l hl => ?_⟩
  obtain ⟨l', hl', hblank, rfl⟩ := exists_of_getLast?_tidied hl
  rw [(h l' hl').text_trimmed, trimEnd_trimEnd, Ne, trimEnd_eq_nil_iff, hblank]
  simp

theorem readAll_trimEnd_writeAll (h : ∀ l ∈ ls, l.Firm) :
    readAll (trimEnd (writeAll ls)) = tidied ls := by
  rw [← writeAll_tidied h, (steady_tidied h).readAll_writeAll]

theorem tidied_of_steady (h : ∀ l ∈ ls, l.Firm) (hsteady : Steady ls) : tidied ls = ls :=
  calc tidied ls
      = readAll (trimEnd (writeAll ls)) := (readAll_trimEnd_writeAll h).symm
    _ = readAll (writeAll ls) := by rw [hsteady.trimEnd_writeAll]
    _ = ls := hsteady.readAll_writeAll

theorem tidied_tidied (h : ∀ l ∈ ls, l.Firm) : tidied (tidied ls) = tidied ls :=
  tidied_of_steady (firm_tidied h) (steady_tidied h)

theorem steady_readAll {s : Text} (htrim : trimEnd s = s) : Steady (readAll s) := by
  refine ⟨fun l => rereads_of_mem_readAll, fun l hl => ?_⟩
  by_cases hnil : s = []
  · subst hnil
    cases hl
  · obtain ⟨init, last, hlines, hlast, hblank⟩ := exists_lines_eq_concat htrim hnil
    have hl : ofText last = l := by
      rw [readAll, if_neg (by simpa using hnil), hlines] at hl
      simpa using hl
    rw [← hl, text_ofText]
    cases he : Entry.ofLine? last with
    | none =>
        rw [Entry.unindented_of_none he]
        exact ⟨hlast, fun hnil => by simp [hnil] at hblank⟩
    | some e =>
        rw [Entry.unindented_of_some he]
        refine ⟨?_, text_entry_ne_nil e⟩
        have hindent : last = last.takeWhile isBlank ++ e.line := by
          rw [← Entry.line_of_ofLine he, trimStart, List.takeWhile_append_dropWhile]
        rw [hindent, trimEnd_append_of_not_blank e.not_blank_line] at hlast
        exact List.append_cancel_left hlast

/-! ## Entries -/

def SameEntries (ls ls' : List Line) : Prop :=
  ∀ i : Nat, ls[i]?.bind entry? = ls'[i]?.bind entry?

theorem SameEntries.filterMap_eq (h : SameEntries ls ls') :
    ls.filterMap entry? = ls'.filterMap entry? := by
  induction ls generalizing ls' with
  | nil =>
      refine (List.filterMap_eq_nil_iff.2 fun l hl => ?_).symm
      obtain ⟨i, hi⟩ := List.getElem?_of_mem hl
      have hnone := h i
      rw [hi] at hnone
      exact hnone.symm
  | cons l ls ih =>
      cases ls' with
      | nil =>
          refine List.filterMap_eq_nil_iff.2 fun l' hl' => ?_
          obtain ⟨i, hi⟩ := List.getElem?_of_mem hl'
          have hnone := h i
          rw [hi] at hnone
          exact hnone
      | cons l' ls' =>
          have hhead : entry? l = entry? l' := h 0
          have htail : SameEntries ls ls' := fun i => h (i + 1)
          rw [List.filterMap_cons, List.filterMap_cons, hhead, ih htail]

theorem sameEntries_tidied (ls : List Line) :
    SameEntries ((tidied ls).map trimmed) (ls.map trimmed) := by
  induction ls with
  | nil => exact fun _ => rfl
  | cons l ls ih =>
      intro i
      rw [tidied]
      split
      · next htail =>
        rw [htail] at ih
        split
        · next hblank =>
          cases i with
          | zero => simp [entry_of_blank hblank]
          | succ i => exact ih i
        · cases i with
          | zero => cases l <;> simp [trimmed]
          | succ i => exact ih i
      · cases i with
        | zero => rfl
        | succ i => exact ih i

theorem isSome_entry_tidied (ls : List Line) (i : Nat) :
    ((tidied ls)[i]?.bind entry?).isSome = (ls[i]?.bind entry?).isSome := by
  have hmap : ∀ ls : List Line, ((ls.map trimmed)[i]?.bind entry?).isSome =
      (ls[i]?.bind entry?).isSome := by
    intro ls
    rw [List.getElem?_map]
    cases ls[i]? with
    | none => rfl
    | some l => simp
  rw [← hmap, ← hmap ls, sameEntries_tidied ls i]

theorem map_trimmed_entries_tidied (ls : List Line) :
    ((tidied ls).filterMap entry?).map Entry.trimmed = (ls.filterMap entry?).map Entry.trimmed := by
  have hmap : ∀ ls : List Line, (ls.filterMap entry?).map Entry.trimmed =
      (ls.map trimmed).filterMap entry? := by
    intro ls
    rw [List.map_filterMap, List.filterMap_map]
    exact congrArg (ls.filterMap ·) (funext fun l => (entry_trimmed l).symm)
  rw [hmap, hmap, (sameEntries_tidied ls).filterMap_eq]

/-! ## Lines that are cut -/

theorem mem_cut {i : Nat} (h : l ∈ cut ls i) : l ∈ ls := by
  rw [cut_eq] at h
  split at h
  · exact (List.eraseIdx_sublist ls i).subset h
  · exact h

theorem tidied_cons_congr (l : Line) (h : tidied ls = tidied ls') :
    tidied (l :: ls) = tidied (l :: ls') := by
  rw [tidied, tidied, h]

theorem cut_cons_zero (l : Line) (ls : List Line) :
    cut (l :: ls) 0 = if l.entry?.isSome then ls else l :: ls := by
  cases l <;> rfl

/-- It makes no difference in the end whether lines are tidied before an entry is cut out. -/
theorem tidied_cut (h : ∀ l ∈ ls, l.Firm) (i : Nat) :
    tidied (cut (tidied ls) i) = tidied (cut ls i) := by
  induction ls generalizing i with
  | nil => rfl
  | cons l ls ih =>
      obtain ⟨hl, hls⟩ := List.forall_mem_cons.1 h
      have htwice := tidied_tidied h
      cases i with
      | zero =>
          -- Tidied lines begin with an entry just when the lines do.
          have hhead := isSome_entry_tidied (l :: ls) 0
          rw [cut_eq, hhead, cut_cons_zero]
          simp only [List.getElem?_cons_zero, Option.bind_some]
          split
          · next hentry =>
            have hfilled : isBlankText l.text = false := by
              rw [Bool.eq_false_iff]
              intro hblank
              rw [entry_of_blank hblank] at hentry
              cases hentry
            have hrest : (tidied (l :: ls)).eraseIdx 0 = tidied ls := by
              rw [tidied, hfilled]
              split
              · next htail => rw [htail]; rfl
              · rfl
            rw [hrest, tidied_tidied hls]
          · exact htwice
      | succ i =>
          rw [cut_cons_succ]
          by_cases htail : tidied ls = []
          · have hcut : tidied (cut ls i) = tidied ls := by
              rw [← ih hls, htail]
              rfl
            have hlines : cut (tidied (l :: ls)) (i + 1) = tidied (l :: ls) := by
              rw [tidied, if_pos htail]
              split <;> rfl
            rw [hlines, htwice, tidied_cons_congr l hcut]
          · have hlines : tidied (l :: ls) = l :: tidied ls := by rw [tidied, if_neg htail]
            rw [hlines, cut_cons_succ]
            exact tidied_cons_congr l (ih hls i)

end Line

/-! ## Documents without blank entries -/

namespace Document

variable {t : Text} {day : Date} {place : Address} {e : Entry}

def entries (t : Text) : List Entry := (days t).flatMap (entriesOn t)

def Filled (t : Text) : Prop := ∀ e ∈ entries t, isBlankText e.content = false

theorem entriesOn_of_not_mem (h : day ∉ days t) : entriesOn t day = [] := by
  rw [entriesOn, dayLines, dayText_of_not_mem_days h]
  rfl

theorem Filled.firm (h : Filled t) (day : Date) : ∀ l ∈ dayLines t day, l.Firm := by
  intro l hl
  refine ⟨Line.rereads_of_mem_readAll hl, fun e he => h e ?_⟩
  subst he
  have hentry : e ∈ entriesOn t day := List.mem_filterMap.2 ⟨_, hl, rfl⟩
  have hday : day ∈ days t := by
    by_contra hnot
    rw [entriesOn_of_not_mem hnot] at hentry
    cases hentry
  exact List.mem_flatMap.2 ⟨day, hday, hentry⟩

theorem Filled.firm_prune (h : Filled t) (times : Nat → Nat) (day : Date) :
    ∀ l ∈ Line.prune times (dayLines t day), l.Firm :=
  fun l hl => h.firm day l ((Line.prune_sublist times _).subset hl)

section RemoveLine

variable (h : Dated t) (hfirm : ∀ l ∈ dayLines t place.day, l.Firm) (he : entryIn t place = some e)
include h hfirm he

theorem Dated.dayText_removeLine_self :
    dayText (Document.removeLine t place) place.day =
      Line.writeAll (Line.tidied (Line.cut (dayLines t place.day) place.line.toNat)) := by
  rw [h.dayText_removeLine he, if_pos rfl, Line.cut_eq_remove he,
    Line.writeAll_tidied fun l hl => hfirm l (Line.mem_of_mem_remove hl)]

theorem Dated.dayLines_removeLine_self :
    dayLines (Document.removeLine t place) place.day =
      Line.tidied (Line.cut (dayLines t place.day) place.line.toNat) := by
  have hcut : ∀ l ∈ Line.cut (dayLines t place.day) place.line.toNat, l.Firm :=
    fun l hl => hfirm l (Line.mem_cut hl)
  rw [dayLines, h.dayText_removeLine_self hfirm he, Line.writeAll_tidied hcut,
    Line.readAll_trimEnd_writeAll hcut]

end RemoveLine

end Document

end DayJournal

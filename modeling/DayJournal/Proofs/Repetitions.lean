import DayJournal.Proofs.EntryRegister
import DayJournal.Proofs.PatternBounds
import DayJournal.Proofs.TrimmedLines
import DayJournal.Survey

/-!
# The repetitions of a journal

A survey looks for repetitions line by line, with the last header in mind and without the carriage
returns at the ends of the lines.  What it finds are the rules of the entries of each section, under
the day of the section (`recurrences_eq`): a carriage return is a blank, so no header and no mark of
a repetition reaches over it, and no marker of an entry ends in one.
-/

namespace DayJournal

open Text Document

namespace Repetition

/-! ## The mark of a repetition stops at blanks -/

theorem sameLetter_blank {a b : Char} (ha : a ∈ "@every-".toList) (hb : isBlank b = true) :
    sameLetter a b = false := by
  -- `all` and not `∀ a ∈ _`, so that deciding does not go through all characters there are.
  have htable : ∀ r ∈ blankRanges, ∀ n ∈ List.range' r.1 (r.2 + 1 - r.1),
      ("@every-".toList.all fun a => !sameLetter a (Char.ofNat n)) = true := by decide +kernel
  rw [isBlank, inRanges, List.any_eq_true] at hb
  obtain ⟨r, hr, hcode⟩ := hb
  simp only [Bool.and_eq_true, decide_eq_true_eq] at hcode
  have h := List.all_eq_true.1 (htable r hr b.toNat (by rw [List.mem_range'_1]; omega)) a ha
  rwa [Char.ofNat_toNat, Bool.not_eq_true'] at h

theorem afterIgnoringCase?_append {start : Text} {b : Char}
    (hstart : ∀ a ∈ start, sameLetter a b = false) (s rest : Text) :
    afterIgnoringCase? start (s ++ b :: rest) =
      (afterIgnoringCase? start s).map (· ++ b :: rest) := by
  induction start generalizing s with
  | nil => rfl
  | cons a start ih =>
      cases s with
      | nil => simp [afterIgnoringCase?, hstart a (by simp)]
      | cons c s =>
          rw [List.cons_append, afterIgnoringCase?, afterIgnoringCase?,
            ih (fun a ha => hstart a (List.mem_cons_of_mem _ ha))]
          split <;> rfl

theorem length_of_afterIgnoringCase? {start s rest : Text}
    (h : afterIgnoringCase? start s = some rest) : s.length = start.length + rest.length := by
  induction start generalizing s with
  | nil =>
      cases h
      simp
  | cons a start ih =>
      cases s with
      | nil => cases h
      | cons c s =>
          rw [afterIgnoringCase?] at h
          split at h
          · rw [List.length_cons, List.length_cons, ih h]
            omega
          · cases h

theorem stopsAtBlank_pattern : pattern.StopsAtBlank where
  takes before s taken a h := by
    unfold pattern at h
    split at h
    · next rest hrest =>
      dsimp only at h
      split at h
      · cases h
        have hlength := length_of_afterIgnoringCase? hrest
        have hname := (List.takeWhile_sublist (l := rest) fun c => !isBlank c).length_le
        refine ⟨?_, by omega⟩
        have hpos : 0 < "@every-".toList.length := by decide
        omega
      · cases h
    · cases h
  stops before s b rest hb := by
    rw [pattern, pattern, afterIgnoringCase?_append fun a ha => sameLetter_blank ha hb]
    cases afterIgnoringCase? "@every-".toList s with
    | none => rfl
    | some behind =>
        have hname : (behind ++ b :: rest).takeWhile (fun c => !isBlank c) =
            behind.takeWhile fun c => !isBlank c :=
          takeWhile_append_blank (by simp [hb]) behind rest
        simp only [Option.map_some, hname]
  begins b s hb := rfl

theorem rule?_eq (content : Text) :
    rule? content = (Pattern.findAll pattern content).head?.bind Recurrence.ofName? := by
  rw [← Pattern.map_first?, Option.bind_map]
  rfl

theorem rule?_append_of_blank {cut : Text} (hcut : isBlankText cut = true) (content : Text) :
    rule? (content ++ cut) = rule? content := by
  rw [rule?_eq, rule?_eq, stopsAtBlank_pattern.findAll.append_of_blank hcut]

end Repetition

/-! ## Carriage returns -/

theorem Text.after?_append {start cut : Text} (h : ∀ c ∈ cut, c ∉ start) (s : Text) :
    after? start (s ++ cut) = (after? start s).map (· ++ cut) := by
  induction start generalizing s with
  | nil => cases s <;> rfl
  | cons a start ih =>
      cases s with
      | nil =>
          cases cut with
          | nil => rfl
          | cons c cut =>
              have hne : a ≠ c := fun heq => h c (by simp) (by simp [heq])
              simp [after?, List.isPrefixOf?, hne]
      | cons d s =>
          have hstart : ∀ c ∈ cut, c ∉ start :=
            fun c hc hmem => h c hc (List.mem_cons_of_mem a hmem)
          have hmore := ih hstart s
          rw [after?, after?] at hmore
          simp only [after?, List.cons_append, List.isPrefixOf?, hmore]
          split <;> rfl

theorem Entry.ofLine_append_returns {cut : Text} (hcut : ∀ c ∈ cut, c = '\r') (s : Text) :
    ofLine? (s ++ cut) = (ofLine? s).map fun e => { e with content := e.content ++ cut } := by
  cases hs : isBlankText s with
  | true =>
      have hblank : isBlankText (s ++ cut) = true := by
        rw [isBlankText_append, hs, Bool.true_and]
        exact List.all_eq_true.2 fun c hc => by rw [hcut c hc]; decide
      rw [ofLine_of_blank hblank, ofLine_of_blank hs]
      rfl
  | false =>
      have hstart : trimStart (s ++ cut) = trimStart s ++ cut := by
        rw [trimStart, List.dropWhile_append, if_neg]
        · rfl
        · rw [List.isEmpty_iff, List.dropWhile_eq_nil_iff]
          intro hall
          rw [isBlankText, List.all_eq_true.2 hall] at hs
          cases hs
      have hmarker : ∀ (kind : Kind) completed, ∀ c ∈ cut, c ∉ kind.marker completed := by
        intro kind completed c hc
        rw [hcut c hc]
        cases kind <;> cases completed <;> decide
      rw [ofLine?, ofLine?, hstart, List.map_findSome?]
      congr 1
      funext form
      obtain ⟨kind, completed⟩ := form
      simp only [after?_append (hmarker kind completed), Option.map_map, Function.comp_apply]
      rfl

theorem headedDay?_trimEnd_returns (l : Text) :
    headedDay? (trimEndOf (· = '\r') l) = headedDay? l := by
  obtain ⟨cut, hcut, hl⟩ := exists_trimEndOf_append (· = '\r') l
  have hblank : isBlankText cut = true := List.all_eq_true.2 fun c hc => by
    have hreturn : c = '\r' := by simpa using List.all_eq_true.1 hcut c hc
    rw [hreturn]
    decide
  conv_rhs => rw [hl, headedDay?_append_of_blank _ hblank]

theorem Entry.rule?_trimEnd_returns (l : Text) :
    ((ofLine? (trimEndOf (· = '\r') l)).bind fun e => Repetition.rule? e.content) =
      (ofLine? l).bind fun e => Repetition.rule? e.content := by
  obtain ⟨cut, hcut, hl⟩ := exists_trimEndOf_append (· = '\r') l
  have hreturn : ∀ c ∈ cut, c = '\r' := fun c hc => by simpa using List.all_eq_true.1 hcut c hc
  have hblank : isBlankText cut = true := List.all_eq_true.2 fun c hc => by
    rw [hreturn c hc]
    decide
  conv_rhs => rw [hl, ofLine_append_returns hreturn]
  cases ofLine? (trimEndOf (· = '\r') l) with
  | none => rfl
  | some e => exact (Repetition.rule?_append_of_blank hblank e.content).symm

/-! ## From lines to rows -/

def Entry.rules (home : Date) (entries : List Entry) : List (Date × Recurrence) :=
  entries.filterMap fun e => (Repetition.rule? e.content).map fun rule => (home, rule)

theorem recurrencesBelow_cons (home? : Option Date) (l : Text) (more : List Text) :
    recurrencesBelow home? (l :: more) =
      match headedDay? l with
      | some day => recurrencesBelow (some day) more
      | none =>
        home?.elim [] (fun home => Entry.rules home (Entry.ofLine? l).toList) ++
          recurrencesBelow home? more := by
  rw [← headedDay?_trimEnd_returns, recurrencesBelow.eq_def]
  dsimp only
  rw [Entry.rule?_trimEnd_returns]
  cases headedDay? (trimEndOf (· = '\r') l) with
  | some day => rfl
  | none =>
      cases home? with
      | none => rfl
      | some home =>
          cases Entry.ofLine? l with
          | none => rfl
          | some e =>
              simp only [Option.bind_some, Option.toList_some, Option.elim_some, Entry.rules,
                List.filterMap_cons, List.filterMap_nil]
              cases Repetition.rule? e.content <;> rfl

theorem recurrencesBelow_eq (home? : Option Date) (ls : List Text) :
    recurrencesBelow home? ls =
      home?.elim [] (fun home => Entry.rules home (ls.foldr enter ([], [])).1) ++
        (ls.foldr enter ([], [])).2.flatMap fun (day, entries) => Entry.rules day entries := by
  induction ls generalizing home? with
  | nil => cases home? <;> rfl
  | cons l more ih =>
      rw [recurrencesBelow_cons, List.foldr_cons, enter]
      cases headedDay? l with
      | some day =>
          simp only [ih, List.flatMap_cons]
          cases home? <;> rfl
      | none =>
          simp only [ih]
          cases home? with
          | none => rfl
          | some home =>
              simp only [Option.elim_some, Entry.rules, List.filterMap_append, List.append_assoc]

theorem rules_ofLinesFrom (day : Date) (start : Nat) (ls : List Line) :
    ((Row.ofLinesFrom day start ls).filterMap fun r =>
        (Repetition.rule? r.entry.content).map fun rule => (r.day, rule)) =
      Entry.rules day (ls.filterMap Line.entry?) := by
  induction ls generalizing start with
  | nil => rfl
  | cons l more ih =>
      cases l with
      | plain s => exact ih (start + 1)
      | entry e =>
          rw [Row.ofLinesFrom, List.filterMap_cons, ih]
          simp only [Entry.rules, Line.entry?, List.filterMap_cons]

theorem recurrences_eq (document : Text) :
    recurrences document = (Row.ofDocument document).filterMap fun r =>
      (Repetition.rule? r.entry.content).map fun rule => (r.day, rule) := by
  rw [recurrences, recurrencesBelow_eq, ← register_eq_foldr, Option.elim_none, List.nil_append,
    register, List.flatMap_map, Row.ofDocument, List.filterMap_flatMap]
  congr 1
  funext s
  exact (rules_ofLinesFrom s.day 0 s.lines).symm

end DayJournal

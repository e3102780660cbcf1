import DayJournal.Proofs.LineRoundTrip
import DayJournal.Proofs.TagAgreement
import DayJournal.Proofs.TagDeletion

/-!
# Renaming a tag

A tag that gets a new name keeps its mark, and nothing before the mark is touched.  So a line is a
header of a day, the line of an entry or a bare marker just when it was one before, and what is
renamed of an entry is its content: headers, markers and indentations have no mark in them but the
one that opens a header, and no tag has a blank behind its mark.  Main statement: a document keeps
its days and its entries, and loses only the lines that were bare markers already
(`register_rename`).
-/

namespace DayJournal

open Text Document

namespace Text

theorem eq_of_letterOf_eq_blank {c : Char} (h : letterOf c = ' ') : c = ' ' := by
  have hvariants : ∀ v ∈ letterVariants, Char.ofNat v.2 ≠ ' ' := by decide +kernel
  have hsmall : smallForm c = ' ' := by
    unfold letterOf at h
    dsimp only at h
    split at h
    · exact h
    · split at h
      · next letter hvariant =>
        exact absurd h (hvariants _ (List.mem_of_find?_eq_some hvariant))
      · exact h
  exact eq_of_smallForm_eq (by decide) (by decide) hsmall

end Text

namespace Tag

variable {tag name l s u v w : Text}

/-! ## Renaming on a line -/

def renamed (tag name l : Text) : Text :=
  (occurrence false tag).replaceAll (fun _ _ => written (some name)) l

theorem agreeUpTo_renamed (tag name l : Text) : AgreeUpTo '#' (renamed tag name l) l :=
  Pattern.agreeUpTo_replaceAll (takesFrom_occurrence tag) (fun _ _ _ => rfl) l

theorem renamed_append (hmark : '#' ∉ u) (v : Text) :
    renamed tag name (u ++ v) = u ++ renamed tag name v := by
  refine Pattern.replaceAll_append_of_none (occurrence_ignores false tag) fun c rest hsuffix => ?_
  cases hfound : occurrence false tag none (c :: rest ++ v) with
  | none => rfl
  | some found =>
      have hc : c = '#' := by simpa using (takesFrom_occurrence tag _ _ _ _ hfound).2
      exact absurd (hsuffix.subset (hc ▸ List.mem_cons_self)) hmark

theorem renamed_eq_self (hmark : '#' ∉ l) : renamed tag name l = l := by
  have happend : renamed tag name (l ++ []) = l ++ renamed tag name [] := renamed_append hmark []
  rwa [List.append_nil, show renamed tag name [] = [] from rfl, List.append_nil] at happend

theorem mark_mem_renamed (hmark : '#' ∈ l) : '#' ∈ renamed tag name l := by
  obtain ⟨u, v, rfl, hu⟩ := List.eq_append_cons_of_mem hmark
  obtain ⟨more, hmore⟩ := List.head?_eq_some_iff.1 (agreeUpTo_renamed tag name ('#' :: v)).1
  rw [renamed_append hu, hmore]
  exact List.mem_append_right u List.mem_cons_self

theorem prefix_renamed_iff (hw : '#' ∉ w) : w <+: renamed tag name l ↔ w <+: l := by
  have hagree := (agreeUpTo_renamed tag name l).2
  constructor
  · intro h
    exact (hagree ▸ prefix_takeWhile hw h).trans (List.takeWhile_prefix _)
  · intro h
    exact (hagree ▸ prefix_takeWhile hw h).trans (List.takeWhile_prefix _)

/-! ## Bare markers, entries and headers -/

theorem headedDay?_of_isBareMarker (h : isBareMarker l = true) : headedDay? l = none := by
  cases hday : headedDay? l with
  | none => rfl
  | some day =>
      rw [isBareMarker_of_header hday] at h
      cases h

theorem isBareMarker_renamed (tag name l : Text) :
    isBareMarker (renamed tag name l) = isBareMarker l := by
  by_cases hmark : '#' ∈ l
  · rw [isBareMarker_of_mark hmark, isBareMarker_of_mark (mark_mem_renamed hmark)]
  · rw [renamed_eq_self hmark]

theorem not_mark_marker {indent : Text} (hindent : isBlankText indent = true) (e : Entry) :
    '#' ∉ indent ++ e.marker := by
  rw [List.mem_append, not_or, Entry.marker]
  refine ⟨not_mem_of_blank hindent (by decide), ?_⟩
  cases e.kind <;> cases e.completed <;> decide

theorem ofLine?_renamed (tag name l : Text) :
    Entry.ofLine? (renamed tag name l) =
      (Entry.ofLine? l).map fun e => { e with content := renamed tag name e.content } := by
  cases he : Entry.ofLine? l with
  | some e =>
      obtain ⟨indent, hindent, hl⟩ := Entry.exists_indent he
      rw [List.append_assoc, ← Entry.line_eq] at hl
      have hread : Entry.ofLine? e.line = some e := by
        rw [← Entry.ofLine_append_of_blank hindent, ← hl, he]
      obtain ⟨hcompleted, hbox⟩ := Entry.ofLine_line_iff.1 hread
      have hline : renamed tag name l =
          indent ++ Entry.line { e with content := renamed tag name e.content } := by
        rw [hl, Entry.line, ← List.append_assoc, renamed_append (not_mark_marker hindent e),
          List.append_assoc]
        rfl
      rw [hline, Entry.ofLine_append_of_blank hindent, Option.map_some, Entry.ofLine_line_iff]
      refine ⟨hcompleted, fun hkind => ?_⟩
      rw [prefix_renamed_iff (by decide), prefix_renamed_iff (by decide)]
      exact hbox hkind
  | none =>
      -- A marker that comes to stand at the beginning would have stood there before.
      rw [Option.map_none, ← Option.not_isSome_iff_eq_none, Option.isSome_iff_exists]
      rintro ⟨e, he'⟩
      obtain ⟨indent, hindent, hl⟩ := Entry.exists_indent he'
      rw [List.append_assoc, ← Entry.line_eq, Entry.line, ← List.append_assoc] at hl
      obtain ⟨rest, rfl⟩ :=
        (prefix_renamed_iff (not_mark_marker hindent e)).1 (hl ▸ List.prefix_append _ _)
      obtain ⟨e', hread, -⟩ := Entry.exists_ofLine_line { e with content := rest }
      rw [List.append_assoc, Entry.ofLine_append_of_blank hindent] at he
      exact absurd (hread.symm.trans he) (by simp)

theorem headedDay?_eq_some_iff_begins {day : Date} :
    headedDay? l = some day ↔
      ∃ date, '#' ∉ date ∧ '#' :: ' ' :: date <+: l ∧
        headedDay? ('#' :: ' ' :: date) = some day := by
  constructor
  · intro h
    obtain ⟨y1, y2, y3, y4, m1, m2, d1, d2, rest, rfl, hparts⟩ := headedDay?_eq_some_iff.1 h
    exact ⟨[y1, y2, y3, y4, '/', m1, m2, '/', d1, d2], not_mark_of_ofParts hparts,
      List.prefix_append _ rest, hparts⟩
  · rintro ⟨date, -, ⟨rest, rfl⟩, h⟩
    exact headedDay?_append_of_some h rest

theorem renamed_mark_of_none (h : occurrence false tag none ('#' :: v) = none) :
    renamed tag name ('#' :: v) = '#' :: renamed tag name v := by
  refine Pattern.replaceAll_append_of_none (u := ['#']) (occurrence_ignores false tag) ?_
  intro c rest hsuffix
  rcases List.suffix_cons_iff.1 hsuffix with heq | hsuffix
  · cases heq
    exact h
  · exact absurd hsuffix.length_le (by simp)

theorem renamed_mark_of_some (name : Text) {found : Nat × Unit}
    (h : occurrence false tag none ('#' :: v) = some found) :
    ∃ rest, renamed tag name ('#' :: v) = '#' :: (name ++ rest) := by
  rw [renamed, Pattern.replaceAll, Pattern.segments, Pattern.segmentsFrom, h]
  exact ⟨_, rfl⟩

/-- The mark that opens a header stays, for it has a blank behind it, which no tag has. -/
theorem header_prefix_renamed_iff (hblank : ∀ rest, afterIgnoringCase? tag (' ' :: rest) = none)
    (hname : isName name = true) (hw : '#' ∉ w) :
    '#' :: ' ' :: w <+: renamed tag name l ↔ '#' :: ' ' :: w <+: l := by
  have hmark : '#' ∉ ' ' :: w := by simpa using hw
  cases l with
  | nil => rfl
  | cons c v =>
      by_cases hc : c = '#'
      · subst hc
        cases hfound : occurrence false tag none ('#' :: v) with
        | none =>
            rw [renamed_mark_of_none hfound, List.cons_prefix_cons, List.cons_prefix_cons,
              prefix_renamed_iff hmark]
        | some found =>
            obtain ⟨rest, hrest⟩ := renamed_mark_of_some name hfound
            rw [hrest, List.cons_prefix_cons, List.cons_prefix_cons]
            refine ⟨fun h => ?_, fun h => ?_⟩
            · obtain ⟨c, more, rfl, hc⟩ := exists_cons_of_isName hname
              rw [List.cons_append, List.cons_prefix_cons] at h
              rw [← h.2.1] at hc
              exact absurd hc (by decide +kernel)
            · obtain ⟨rest, rfl⟩ := h.2
              simp [occurrence, hblank] at hfound
      · obtain ⟨more, hmore⟩ := List.head?_eq_some_iff.1 (agreeUpTo_renamed tag name (c :: v)).1
        rw [hmore, List.cons_prefix_cons, List.cons_prefix_cons]
        exact ⟨fun h => absurd h.1.symm hc, fun h => absurd h.1.symm hc⟩

theorem headedDay?_renamed (hblank : ∀ rest, afterIgnoringCase? tag (' ' :: rest) = none)
    (hname : isName name = true) (l : Text) :
    headedDay? (renamed tag name l) = headedDay? l := by
  ext day
  rw [headedDay?_eq_some_iff_begins, headedDay?_eq_some_iff_begins]
  refine exists_congr fun date => and_congr_right fun hdate => and_congr_left fun _ => ?_
  exact header_prefix_renamed_iff hblank hname hdate

/-! ## Tags that are counted -/

theorem exists_name_of_count {completedOnly : Bool} (h : 0 < count s tag completedOnly) :
    ∃ name, isName name = true ∧ lower name = lower tag := by
  rw [count_eq_countP, List.countP_pos_iff] at h
  obtain ⟨name, hmem, hlower⟩ := h
  obtain ⟨l, -, hname⟩ := List.mem_flatMap.1 hmem
  exact ⟨name, isName_of_mem_names hname, beq_iff_eq.1 hlower⟩

theorem afterIgnoringCase?_blank_of_count {completedOnly : Bool}
    (h : 0 < count s tag completedOnly) (rest : Text) :
    afterIgnoringCase? tag (' ' :: rest) = none := by
  obtain ⟨name, hname, hlower⟩ := exists_name_of_count h
  obtain ⟨c, more, hcons, hc⟩ := exists_cons_of_isName hname
  rw [lower_of_isName hname, hcons, List.map_cons] at hlower
  cases tag with
  | nil => cases hlower
  | cons d tag =>
      rw [afterIgnoringCase?, if_neg]
      intro hsame
      -- The blank is written small as it is, and the name that was counted begins with a letter.
      obtain rfl : d = ' ' := eq_of_letterOf_eq_blank ((beq_iff_eq.1 hsame).trans (by decide))
      have hblank : letterOf c = ' ' := (List.cons.inj hlower).1
      rw [hblank] at hc
      exact absurd hc (by decide)

theorem lines_rename (hname : isName name = true) (t : Text) :
    lines (replace t tag (some name) false) = (lines t).map (renamed tag name) :=
  lines_replace (by simpa using hname)

theorem replace_eq_renamed (hnl : '\n' ∉ l) :
    replace l tag (some name) false = renamed tag name l := by
  rw [replace, lines_of_not_mem hnl]
  rfl

end Tag

namespace Document

variable {tag name t : Text}

theorem apply_rename (hname : Tag.isName name = true) (count : Nat) :
    Sweep.apply ⟨.rename (some name), tag, count⟩ t =
      joinLines (((lines t).map (Tag.renamed tag name)).filter fun l => !Tag.isBareMarker l) := by
  rw [← Tag.lines_rename hname]
  rfl

/-- The entry of a line that is more than a bare marker, with a tag renamed. -/
def rereading? (tag name l : Text) : Option Entry :=
  if Tag.isBareMarker l then none
  else (Entry.ofLine? l).map fun e => { e with content := Tag.renamed tag name e.content }

theorem enter_renamed (hblank : ∀ rest, afterIgnoringCase? tag (' ' :: rest) = none)
    (hname : Tag.isName name = true) (l : Text) (r : List Entry × List (Date × List Entry)) :
    (if !Tag.isBareMarker (Tag.renamed tag name l) then enter (Tag.renamed tag name l) r else r) =
      enterReading (rereading? tag name) l r := by
  rw [Tag.isBareMarker_renamed]
  cases hbare : Tag.isBareMarker l with
  | true =>
      have hday := Tag.headedDay?_of_isBareMarker hbare
      simp only [Bool.not_true, Bool.false_eq_true, if_false, enterReading, hday, rereading?, hbare,
        if_true, Option.toList_none, List.nil_append]
  | false =>
      simp only [Bool.not_false, Bool.false_eq_true, if_true, if_false, enter, enterReading,
        Tag.headedDay?_renamed hblank hname, Tag.ofLine?_renamed, rereading?, hbare]

theorem filterMap_rereading? {ls : List Text} (hnl : ∀ l ∈ ls, '\n' ∉ l) :
    ls.filterMap (rereading? tag name) =
      ((ls.filter fun l => !Tag.isBareMarker l).filterMap Entry.ofLine?).map fun e =>
        { e with content := Tag.replace e.content tag (some name) false } := by
  rw [List.filterMap_filter, List.map_filterMap]
  refine List.filterMap_congr fun l hl => ?_
  unfold rereading?
  cases Tag.isBareMarker l with
  | true => rfl
  | false =>
      cases he : Entry.ofLine? l with
      | none => rfl
      | some e =>
          have hcontent := Entry.newline_not_mem_ofLine (hnl l hl) he
          simp [Tag.replace_eq_renamed hcontent]

/-- A tag that gets a new name leaves the days of a document and their entries as they are, with
the tag renamed in the contents; only the lines go that were bare markers already. -/
theorem register_rename (hcount : 0 < Tag.count t tag false) (hname : Tag.isName name = true)
    (count : Nat) :
    register (Sweep.apply ⟨.rename (some name), tag, count⟩ t) =
      (ofText t).sections.map fun s =>
        (s.day, (((lines s.body).filter fun l => !Tag.isBareMarker l).filterMap Entry.ofLine?).map
          fun e => { e with content := Tag.replace e.content tag (some name) false }) := by
  have hblank := Tag.afterIgnoringCase?_blank_of_count hcount
  have hnl : ∀ l' ∈ ((lines t).map (Tag.renamed tag name)).filter fun l => !Tag.isBareMarker l,
      '\n' ∉ l' := by
    rw [← Tag.lines_rename hname]
    exact fun l' hl' => newline_not_mem_of_mem_lines (List.mem_filter.1 hl').1
  calc register (Sweep.apply ⟨.rename (some name), tag, count⟩ t)
      = ((((lines t).map (Tag.renamed tag name)).filter fun l => !Tag.isBareMarker l).foldr enter
          ([], [])).2 := by rw [apply_rename hname, register_joinLines hnl]
    _ = ((lines t).foldr (enterReading (rereading? tag name)) ([], [])).2 := by
        rw [List.foldr_filter, List.foldr_map]
        exact congrArg (fun step => ((lines t).foldr step ([], [])).2)
          (funext fun l => funext fun r => enter_renamed hblank hname l r)
    _ = readings (rereading? tag name) t := (readings_eq_foldr rfl t).symm
    _ = _ := List.map_congr_left fun s _ => congrArg (Prod.mk s.day)
        (filterMap_rereading? fun _ => newline_not_mem_of_mem_lines)

/-- The tag is found in capitals and behind a header too, and a note without a content goes. -/
theorem register_rename_of_capitals :
    0 < Tag.count "# 2026/01/05 #old\n  - [x] a #Old b\n- \n# 2026/01/04\n* #OLD\n".toList
        "old".toList false ∧
      register (Sweep.apply ⟨.rename (some "new".toList), "old".toList, 3⟩
        "# 2026/01/05 #old\n  - [x] a #Old b\n- \n# 2026/01/04\n* #OLD\n".toList) =
      [(⟨2026, 1, 5, by decide⟩, [⟨.task, "a #new b".toList, true⟩]),
        (⟨2026, 1, 4, by decide⟩, [⟨.event, "#new".toList, false⟩])] :=
  have hcount : 0 < Tag.count
      "# 2026/01/05 #old\n  - [x] a #Old b\n- \n# 2026/01/04\n* #OLD\n".toList
      "old".toList false := by decide +kernel
  ⟨hcount, (register_rename hcount (by decide) 3).trans (by decide +kernel)⟩

end Document

end DayJournal

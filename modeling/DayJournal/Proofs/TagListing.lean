import DayJournal.Proofs.Sorting
import DayJournal.Proofs.TagMarks
import DayJournal.Survey

/-!
# The listing of tags

The tags of a journal are counted line by line and listed in one go.  No tag reaches over the end
of a line, so both are about the same tags (`flatMap_names_lines`).  Main statement: the listing is
the only list with the counted tags in it, in strict alphabetical order and each as it is first
written (`listing_determined`).
-/

namespace DayJournal

open Text

namespace Tag

/-! ## Tags line by line -/

theorem name?_append_newline (v rest : Text) : name? (v ++ '\n' :: rest) = name? v := by
  have htake : (v ++ '\n' :: rest).takeWhile isNameChar = v.takeWhile isNameChar := by
    rw [List.takeWhile_append, List.takeWhile_cons_of_neg (by decide)]
    split
    · next hall =>
      rw [List.append_nil]
      exact ((List.takeWhile_prefix isNameChar).eq_of_length hall).symm
    · rfl
  rw [name?, htake, name?]

theorem behindMarks_append_newline (s rest : Text) :
    behindMarks (s ++ '\n' :: rest) =
      (behindMarks s).map (· ++ '\n' :: rest) ++ behindMarks rest := by
  induction s with
  | nil => rfl
  | cons c s ih =>
      rw [List.cons_append, behindMarks, behindMarks, ih]
      split <;> rfl

theorem names_append_newline (s rest : Text) :
    names (s ++ '\n' :: rest) = names s ++ names rest := by
  rw [names_eq, names_eq, names_eq, behindMarks_append_newline, List.filterMap_append,
    List.filterMap_map]
  congr 1
  exact List.filterMap_congr fun v _ => name?_append_newline v rest

theorem flatMap_names_lines (s : Text) : (lines s).flatMap names = names s := by
  induction s using lineInduction with
  | last s hnl => rw [lines_of_not_mem hnl, List.flatMap_singleton]
  | line s rest hnl ih =>
      rw [lines_append_newline, List.flatMap_append, lines_of_not_mem hnl, List.flatMap_singleton,
        ih, names_append_newline]

theorem count_eq_countP_names (s tag : Text) :
    count s tag false = (names s).countP fun name => lower name == lower tag := by
  have hall : (lines s).filter (concerns false) = lines s :=
    List.filter_eq_self.2 fun _ _ => rfl
  rw [count_eq_countP, hall, flatMap_names_lines]

theorem count_pos_iff {s tag : Text} :
    0 < count s tag false ↔ ∃ name ∈ names s, lower name = lower tag := by
  simp [count_eq_countP_names, List.countP_pos_iff]

/-! ## Tags without those that come up again -/

theorem mem_distinctFrom {seen tags : List Text} {name : Text} :
    name ∈ distinctFrom seen tags ↔
      lower name ∉ seen ∧ tags.find? (fun other => lower other == lower name) = some name := by
  induction tags generalizing seen with
  | nil => simp [distinctFrom]
  | cons first more ih =>
      rw [distinctFrom]
      by_cases hsame : lower first = lower name
      · rw [List.find?_cons_of_pos (by simpa using hsame), ← hsame]
        split
        · next hseen =>
          -- Neither this tag nor the same one behind it is kept.
          rw [List.contains_iff_mem] at hseen
          exact iff_of_false (fun h => (ih.1 h).1 (hsame ▸ hseen)) fun h => h.1 hseen
        · next hseen =>
          rw [List.contains_iff_mem] at hseen
          rw [List.mem_cons, Option.some_inj, and_iff_right hseen, eq_comm, or_iff_left_iff_imp]
          exact fun h => absurd (hsame ▸ List.mem_cons_self) (ih.1 h).1
      · rw [List.find?_cons_of_neg (by simpa using hsame)]
        split
        · exact ih
        · have hne : name ≠ first := fun h => hsame (congrArg lower h.symm)
          rw [List.mem_cons, or_iff_right hne, ih, List.mem_cons, not_or,
            and_iff_right (Ne.symm hsame)]

theorem pairwise_distinctFrom (seen tags : List Text) :
    (distinctFrom seen tags).Pairwise fun a b => lower a ≠ lower b := by
  induction tags generalizing seen with
  | nil => exact .nil
  | cons first more ih =>
      rw [distinctFrom]
      split
      · exact ih seen
      · refine List.pairwise_cons.2 ⟨fun name hname heq => ?_, ih (lower first :: seen)⟩
        exact (mem_distinctFrom.1 hname).1 (heq ▸ List.mem_cons_self)

/-! ## The listing -/

/-- The tags of a text in strict alphabetical order, case ignored: those that are counted, each as
it is first written. -/
structure Lists (s : Text) (tags : List Text) : Prop where
  increasing : tags.Pairwise fun a b => lower a < lower b
  counted_iff : ∀ tag, isName tag = true →
    ((∃ name ∈ tags, lower name = lower tag) ↔ 1 ≤ count s tag false)
  first_spelling : ∀ name ∈ tags,
    (names s).find? (fun other => lower other == lower name) = some name

theorem mem_listing {s name : Text} :
    name ∈ listing s ↔ (names s).find? (fun other => lower other == lower name) = some name := by
  rw [listing, mem_sortBy, mem_distinctFrom]
  simp

theorem exists_first {s name : Text} (h : name ∈ names s) :
    ∃ first, (names s).find? (fun other => lower other == lower first) = some first ∧
      lower first = lower name := by
  have hsome : ((names s).find? fun other => lower other == lower name).isSome :=
    List.find?_isSome.2 ⟨name, h, beq_self_eq_true _⟩
  obtain ⟨first, hfirst⟩ := Option.isSome_iff_exists.1 hsome
  have hlower : lower first = lower name := by simpa using List.find?_some hfirst
  exact ⟨first, by rw [hlower, hfirst], hlower⟩

theorem lists_listing (s : Text) : Lists s (listing s) where
  increasing := pairwise_lt_sortBy (fun a b => by simp) (pairwise_distinctFrom [] (names s))
  counted_iff tag _ := by
    refine Iff.trans ⟨?_, ?_⟩ count_pos_iff.symm
    · rintro ⟨name, hname, hlower⟩
      exact ⟨name, List.mem_of_find?_eq_some (mem_listing.1 hname), hlower⟩
    · rintro ⟨name, hname, hlower⟩
      obtain ⟨first, hfirst, hsame⟩ := exists_first hname
      exact ⟨first, mem_listing.2 hfirst, hsame.trans hlower⟩
  first_spelling _ hname := mem_listing.1 hname

theorem Lists.mem_iff {s : Text} {tags : List Text} (h : Lists s tags) {name : Text} :
    name ∈ tags ↔ name ∈ listing s := by
  rw [mem_listing]
  refine ⟨h.first_spelling name, fun hfirst => ?_⟩
  have hmem := List.mem_of_find?_eq_some hfirst
  obtain ⟨listed, hlisted, hsame⟩ :=
    (h.counted_iff name (isName_of_mem_names hmem)).2 (count_pos_iff.2 ⟨name, hmem, rfl⟩)
  have hspelling := h.first_spelling listed hlisted
  rw [hsame, hfirst] at hspelling
  exact Option.some_inj.1 hspelling ▸ hlisted

/-- The listing of a text lists its tags, and no other list does. -/
theorem listing_determined (s : Text) :
    Lists s (listing s) ∧ ∀ tags, Lists s tags → tags = listing s := by
  refine ⟨lists_listing s, fun tags h => ?_⟩
  have hnodup : ∀ {l : List Text}, (l.Pairwise fun a b => lower a < lower b) → l.Nodup :=
    List.Pairwise.imp fun hab heq => absurd (congrArg lower heq) hab.ne
  have hperm : tags.Perm (listing s) :=
    (List.perm_ext_iff_of_nodup (hnodup h.increasing) (hnodup (lists_listing s).increasing)).2
      fun _ => h.mem_iff
  exact hperm.eq_of_pairwise (fun _ _ _ _ hab hba => absurd hab hba.asymm) h.increasing
    (lists_listing s).increasing

/-- A tag is listed as it is first written, and without the parts that no name can have. -/
theorem listing_determined_of_capitals :
    let s := "- [ ] a #Work-2 ##b\n#éa #work-2, #B#A!".toList
    let tags := ["A".toList, "b".toList, "Work-2".toList]
    Lists s tags ∧ tags = listing s := by
  intro s tags
  have hlisting : listing s = tags := by decide +kernel
  have hlists : Lists s tags := hlisting ▸ (listing_determined s).1
  exact ⟨hlists, (listing_determined s).2 tags hlists⟩

end Tag

end DayJournal

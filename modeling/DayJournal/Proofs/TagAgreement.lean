import DayJournal.Proofs.TagMarks

/-!
# Counting tags and rewriting them

A tag is counted by its plain characters and rewritten by every spelling of its letters.  So the
two agree just where the characters that spell a letter of a tag in another form stay away from the
marks (`agrees_iff`).
-/

namespace DayJournal

open Text

namespace Tag

variable {s tag t u : Text} {completedOnly : Bool}

/-- The texts behind the marks of the lines that a change of tags is about. -/
def marked (s : Text) (completedOnly : Bool) : List Text :=
  ((lines s).filter (concerns completedOnly)).flatMap behindMarks

def rewrites (s tag : Text) (newName : Option Text) (completedOnly : Bool) : Nat :=
  (((lines s).filter (concerns completedOnly)).map fun l =>
    (Pattern.findAll (occurrence newName.isNone tag) l).length).sum

/-- Counting the tag `t` agrees with deleting it and with renaming it to `u`: nothing of it is left
afterwards, what was counted of it is counted of `u` as well, and as many places are rewritten. -/
structure Agrees (s : Text) (completedOnly : Bool) (t u : Text) : Prop where
  deleted : count (replace s t none completedOnly) t completedOnly = 0
  renamed : count (replace s t (some u) completedOnly) t completedOnly = 0
  gained : count (replace s t (some u) completedOnly) u completedOnly =
    count s t completedOnly + count s u completedOnly
  rewritten : ∀ newName, rewrites s t newName completedOnly = count s t completedOnly

/-- What stands behind a mark is no tag in any spelling, or one in plain characters. -/
def PlainlySpelled (s : Text) : Prop :=
  (s.head?.any fun c => (letterOf c).isAlpha) = true →
    s.takeWhile extendsName = s.takeWhile isNameChar

instance (s : Text) : Decidable (PlainlySpelled s) :=
  inferInstanceAs (Decidable (_ → _))

/-! ## Counts over the marks -/

theorem count_eq (htag : isName tag = true) :
    count s tag completedOnly =
      (marked s completedOnly).countP fun v => counted v == tag.map letterOf := by
  rw [count_eq_countP, marked, List.countP_flatMap, List.countP_flatMap]
  congr 1
  exact List.map_congr_left fun l _ => countP_names htag l

theorem rewrites_eq (htag : isName tag = true) (newName : Option Text) :
    rewrites s tag newName completedOnly =
      (marked s completedOnly).countP fun v => spelled v == tag.map letterOf := by
  rw [rewrites, marked, List.countP_flatMap]
  congr 1
  exact List.map_congr_left fun l _ => count_found htag _ l

def rewrittenLine (tag : Text) (newName : Option Text) (completedOnly : Bool) (l : Text) : Text :=
  if concerns completedOnly l then
    (occurrence newName.isNone tag).replaceAll (fun _ _ => written newName) l
  else l

theorem lines_replace {newName : Option Text} (hnew : ∀ name ∈ newName, isName name = true) :
    lines (replace s tag newName completedOnly) =
      (lines s).map (rewrittenLine tag newName completedOnly) := by
  have hwritten : '\n' ∉ written newName := by
    cases newName with
    | none => exact List.not_mem_nil
    | some name =>
        have hname := newline_not_mem_of_isName (hnew name rfl)
        simpa [written] using hname
  have hne : lines s ≠ [] := pieces_ne_nil '\n' s
  refine lines_joinLines (by simpa using hne) fun l' hl' => ?_
  obtain ⟨l, hl, rfl⟩ := List.mem_map.1 hl'
  have hnl := newline_not_mem_of_mem_lines hl
  split
  · exact Pattern.newline_not_mem_replaceAll hnl fun _ _ _ => hwritten
  · exact hnl

/-! ## Lines that stay completed -/

theorem isCompletedLine_iff_prefix {l : Text} :
    isCompletedLine l = true ↔
      ∃ indent, isBlankText indent = true ∧ indent ++ Kind.marker .task true <+: l := by
  rw [isCompletedLine, List.isPrefixOf_iff_prefix]
  constructor
  · rintro ⟨rest, hrest⟩
    refine ⟨l.takeWhile isBlank, List.all_takeWhile, rest, ?_⟩
    rw [List.append_assoc, hrest]
    exact List.takeWhile_append_dropWhile
  · rintro ⟨indent, hindent, rest, rfl⟩
    have hstart : trimStart (Kind.marker .task true ++ rest) = Kind.marker .task true ++ rest :=
      trimStart_of_not_blank (by decide) _
    rw [List.append_assoc, trimStart_append_of_blank hindent, hstart]
    exact List.prefix_append _ _

theorem isCompletedLine_of_takeWhile {l l' : Text}
    (h : l.takeWhile (· ≠ '#') = l'.takeWhile (· ≠ '#')) (hl : isCompletedLine l = true) :
    isCompletedLine l' = true := by
  obtain ⟨indent, hindent, hprefix⟩ := isCompletedLine_iff_prefix.1 hl
  have hmark : '#' ∉ indent ++ Kind.marker .task true := by
    intro hmem
    rcases List.mem_append.1 hmem with hmem | hmem
    · exact not_mem_of_blank hindent (by decide) hmem
    · exact absurd hmem (by decide)
  have hup := prefix_takeWhile hmark hprefix
  rw [h] at hup
  exact isCompletedLine_iff_prefix.2 ⟨indent, hindent, hup.trans (List.takeWhile_prefix _)⟩

theorem takesFrom_occurrence (tag : Text) : (occurrence false tag).TakesFrom '#' := by
  intro before s n a h
  simp only [occurrence, Bool.false_eq_true, if_false, List.length_nil, List.drop_zero] at h
  split at h
  · split at h
    · split at h
      · cases h
        exact ⟨by omega, rfl⟩
      · cases h
    · cases h
  · cases h

theorem concerns_renamedLine (l : Text) :
    concerns completedOnly (rewrittenLine tag (some u) completedOnly l) =
      concerns completedOnly l := by
  unfold rewrittenLine
  split
  · have hagree : AgreeUpTo '#' ((occurrence false tag).replaceAll (fun _ _ => written (some u)) l)
        l := Pattern.agreeUpTo_replaceAll (takesFrom_occurrence tag) (fun _ _ _ => rfl) l
    have hcompleted := Bool.eq_iff_iff.2
      ⟨isCompletedLine_of_takeWhile hagree.2, isCompletedLine_of_takeWhile hagree.2.symm⟩
    exact congrArg (!completedOnly || ·) hcompleted
  · rfl

/-! ## What is counted when a tag is rewritten -/

theorem counted_marked_rename (htag : isName tag = true) (hu : isName u = true) :
    (marked (replace s tag (some u) completedOnly) completedOnly).map counted =
      (marked s completedOnly).flatMap (rewritten tag (some u)) := by
  have hline : ∀ l ∈ (lines s).filter (concerns completedOnly),
      (behindMarks (rewrittenLine tag (some u) completedOnly l)).map counted =
        (behindMarks l).flatMap (rewritten tag (some u)) := by
    intro l hl
    rw [rewrittenLine, if_pos (List.mem_filter.1 hl).2]
    exact counted_replaceAll htag (by simpa using hu) false l
  have hconcerned : concerns completedOnly ∘ rewrittenLine tag (some u) completedOnly =
      concerns completedOnly := funext concerns_renamedLine
  rw [marked, marked, lines_replace (by simpa using hu), List.filter_map, hconcerned,
    List.flatMap_map, List.map_flatMap, List.flatMap_assoc]
  exact List.flatMap_congr hline

theorem count_rename (htag : isName tag = true) (hu : isName u = true) (ht : isName t = true) :
    count (replace s tag (some u) completedOnly) t completedOnly =
      (marked s completedOnly).countP fun v =>
        (if spelled v = tag.map letterOf then u.map letterOf else counted v) == t.map letterOf := by
  have hcounted : (marked (replace s tag (some u) completedOnly) completedOnly).map counted =
      (marked s completedOnly).map fun v =>
        if spelled v = tag.map letterOf then u.map letterOf else counted v := by
    rw [counted_marked_rename htag hu, List.map_eq_flatMap]
    refine List.flatMap_congr fun v _ => ?_
    unfold rewritten
    split <;> rfl
  rw [count_eq ht]
  have h := congrArg (List.countP (· == t.map letterOf)) hcounted
  rwa [List.countP_map, List.countP_map] at h

/-- A tag is counted after its deletion where it was counted and not found. -/
theorem exists_of_count_delete (htag : isName tag = true)
    (h : count (replace s tag none completedOnly) tag completedOnly ≠ 0) :
    ∃ v ∈ marked s completedOnly, spelled v ≠ tag.map letterOf ∧ counted v = tag.map letterOf := by
  rw [count_eq htag, ← Nat.pos_iff_ne_zero, List.countP_pos_iff] at h
  obtain ⟨v', hv', hcounted⟩ := h
  obtain ⟨l', hl', hmem⟩ := List.mem_flatMap.1 hv'
  obtain ⟨hl', hconcerned'⟩ := List.mem_filter.1 hl'
  rw [lines_replace (by simp)] at hl'
  obtain ⟨l, hl, rfl⟩ := List.mem_map.1 hl'
  by_cases hconcerned : concerns completedOnly l = true
  · rw [rewrittenLine, if_pos hconcerned] at hmem
    have hnone : ∀ name ∈ (none : Option Text), isName name = true := by simp
    have hmarks := counted_replaceAll htag hnone true l
    have hv := List.mem_map_of_mem (f := counted) hmem
    rw [Option.isNone_none, hmarks, List.mem_flatMap] at hv
    obtain ⟨v, hv, hrewritten⟩ := hv
    unfold rewritten at hrewritten
    split at hrewritten
    · cases hrewritten
    · next hne =>
      rw [List.mem_singleton] at hrewritten
      refine ⟨v, List.mem_flatMap.2 ⟨l, List.mem_filter.2 ⟨hl, hconcerned⟩, hv⟩, hne, ?_⟩
      rw [← hrewritten]
      simpa using hcounted
  · rw [rewrittenLine, if_neg hconcerned] at hconcerned'
    exact absurd hconcerned' hconcerned

/-! ## Where counting and rewriting agree -/

theorem opens_of_letters {p : Char → Bool} {v : Text} (htag : isName tag = true)
    (h : (v.takeWhile p).map letterOf = tag.map letterOf) :
    (v.head?.any fun c => (letterOf c).isAlpha) = true := by
  obtain ⟨d, more, rfl, hd⟩ := exists_cons_of_isName htag
  cases v with
  | nil => cases h
  | cons c rest =>
      rw [List.takeWhile_cons] at h
      split at h
      · have hletter : letterOf c = letterOf d := (List.cons.inj h).1
        rw [List.head?_cons, Option.any_some, hletter, hd]
      · cases h

theorem PlainlySpelled.spelled_eq_iff {v : Text} (hv : PlainlySpelled v)
    (htag : isName tag = true) :
    spelled v = tag.map letterOf ↔ counted v = tag.map letterOf := by
  by_cases hopens : (v.head?.any fun c => (letterOf c).isAlpha) = true
  · rw [spelled, counted, hv hopens]
  · exact iff_of_false (fun h => hopens (opens_of_letters htag h))
      fun h => hopens (opens_of_letters htag h)

/-- The letters that are not plainly spelled are those of a tag that is found and not counted. -/
theorem exists_of_not_plainlySpelled {v : Text} (hv : ¬PlainlySpelled v) :
    ∃ tag, isName tag = true ∧ spelled v = tag.map letterOf ∧ counted v ≠ tag.map letterOf := by
  obtain ⟨hopens, hne⟩ := Classical.not_imp.1 hv
  have hletters : (spelled v).map letterOf = spelled v := by
    rw [spelled, List.map_map]
    refine List.map_congr_left fun c hc => letterOf_letterOf (lt_of_isNameChar ?_)
    exact extendsName_iff.1 (List.mem_takeWhile_imp hc)
  refine ⟨spelled v, ?_, hletters.symm, fun h => hne ?_⟩
  · cases v with
    | nil => cases hopens
    | cons c rest =>
        have hc : (letterOf c).isAlpha = true := by simpa using hopens
        have hextends : extendsName c = true :=
          extendsName_iff.2 (by simp [isNameChar, Char.isAlphanum, hc])
        rw [spelled, List.takeWhile_cons_of_pos hextends, List.map_cons, isName, hc, Bool.true_and,
          List.all_map, List.all_eq_true]
        exact fun x hx => extendsName_iff.1 (List.mem_takeWhile_imp hx)
  · -- Both are beginnings of `v`, so they are the same if they are equally long.
    rw [hletters] at h
    have hlength : (v.takeWhile extendsName).length = (v.takeWhile isNameChar).length := by
      simpa [spelled, counted] using (congrArg List.length h).symm
    exact (List.prefix_of_prefix_length_le (List.takeWhile_prefix _) (List.takeWhile_prefix _)
      hlength.le).eq_of_length hlength

theorem countP_of_either {α : Type} {p q r : α → Bool} {l : List α}
    (h : ∀ a ∈ l, (r a).toNat = (p a).toNat + (q a).toNat) :
    l.countP r = l.countP p + l.countP q := by
  induction l with
  | nil => rfl
  | cons a l ih =>
      obtain ⟨ha, hl⟩ := List.forall_mem_cons.1 h
      rw [List.countP_cons, List.countP_cons, List.countP_cons, ih hl]
      cases hr : r a <;> cases hp : p a <;> cases hq : q a <;> simp_all <;> omega

theorem agrees_of_plainlySpelled (h : ∀ v ∈ marked s completedOnly, PlainlySpelled v)
    (ht : isName t = true) (hu : isName u = true) (hne : lower u ≠ lower t) :
    Agrees s completedOnly t u := by
  have hiff : ∀ v ∈ marked s completedOnly,
      (spelled v = t.map letterOf ↔ counted v = t.map letterOf) :=
    fun v hv => (h v hv).spelled_eq_iff ht
  rw [lower_of_isName ht, lower_of_isName hu] at hne
  refine ⟨?_, ?_, ?_, fun newName => ?_⟩
  · by_contra hcount
    obtain ⟨v, hv, hspelled, hcounted⟩ := exists_of_count_delete ht hcount
    exact hspelled ((hiff v hv).2 hcounted)
  · rw [count_rename ht hu ht, List.countP_eq_zero]
    intro v hv
    rw [beq_iff_eq]
    split
    · exact hne
    · next hspelled => exact fun hcounted => hspelled ((hiff v hv).2 hcounted)
  · rw [count_rename ht hu hu, count_eq ht, count_eq hu]
    refine countP_of_either fun v hv => ?_
    have hv := hiff v hv
    by_cases hcounted : counted v = t.map letterOf
    · rw [if_pos (hv.2 hcounted), hcounted]
      simp [Ne.symm hne]
    · rw [if_neg fun hspelled => hcounted (hv.1 hspelled)]
      simp [hcounted]
  · rw [rewrites_eq ht, count_eq ht]
    exact List.countP_congr fun v hv => by simpa using hiff v hv

/-- Counting a tag and rewriting it agree for all names just when what stands behind the marks of
the lines concerned is plainly spelled. -/
theorem agrees_iff (s : Text) (completedOnly : Bool) :
    (∀ t u, isName t = true → isName u = true → lower u ≠ lower t → Agrees s completedOnly t u) ↔
      ∀ v ∈ marked s completedOnly, PlainlySpelled v := by
  refine ⟨fun h v hv => ?_, fun h t u ht hu hne => agrees_of_plainlySpelled h ht hu hne⟩
  by_contra hnot
  obtain ⟨t, ht, hspelled, hcounted⟩ := exists_of_not_plainlySpelled hnot
  have hu : isName ('a' :: t) = true := by
    rw [isName, Bool.and_eq_true, List.all_eq_true]
    exact ⟨by decide, forall_isNameChar_of_isName ht⟩
  have hne : lower ('a' :: t) ≠ lower t := by
    rw [lower_of_isName ht, lower_of_isName hu]
    exact fun heq => absurd (congrArg List.length heq) (by simp)
  have hagrees := h t ('a' :: t) ht hu hne
  -- What was counted was found, or it would still be counted under the old name.
  have hfound : ∀ x ∈ marked s completedOnly,
      counted x = t.map letterOf → spelled x = t.map letterOf := by
    intro x hx hx'
    by_contra hmissed
    have hzero := hagrees.renamed
    rw [count_rename ht hu ht, List.countP_eq_zero] at hzero
    exact hzero x hx (by rw [if_neg hmissed, hx', beq_self_eq_true])
  have hsplit := countP_of_either (l := marked s completedOnly)
    (p := fun x => counted x == t.map letterOf)
    (q := fun x => spelled x == t.map letterOf && counted x != t.map letterOf)
    (r := fun x => spelled x == t.map letterOf) fun x hx => by
      by_cases hx' : counted x = t.map letterOf
      · simp [hx', hfound x hx hx']
      · have hb : (counted x == t.map letterOf) = false := by simpa using hx'
        simp only [hb, bne, Bool.not_false, Bool.and_true, Bool.toNat_false, Nat.zero_add]
  have hmore := hagrees.rewritten none
  rw [rewrites_eq ht, count_eq ht, hsplit, Nat.add_eq_left, List.countP_eq_zero] at hmore
  exact hmore v hv (by simp [hspelled, hcounted])

/-- Capitals, and names that only begin with the tag, do no harm. -/
theorem agrees_iff_of_capitals :
    let s := "- [ ] #Task a, #task-2 [#TASK]\n- [x] b#task \t#TaSk".toList
    Agrees s false "task".toList "Job".toList ∧ Agrees s true "task".toList "task-2".toList ∧
      count s "task".toList false = 4 ∧ count s "task".toList true = 2 := by
  intro s
  exact ⟨(agrees_iff s false).2 (by decide +kernel) _ _ (by decide) (by decide) (by decide +kernel),
    (agrees_iff s true).2 (by decide +kernel) _ _ (by decide) (by decide) (by decide +kernel),
    by decide +kernel, by decide +kernel⟩

/-- A long s is renamed as an s and not counted as one, and behind a tag it keeps it from being
deleted. -/
theorem long_s_found_and_not_counted :
    let renamed := replace "#task #taſk".toList "task".toList (some "job".toList) false
    isName "task".toList = true ∧ isName "job".toList = true ∧
      lower "job".toList ≠ lower "task".toList ∧
      count "#task #taſk".toList "task".toList false = 1 ∧
      count "#task #taſk".toList "job".toList false = 0 ∧
      renamed = "#job #job".toList ∧ count renamed "job".toList false = 2 ∧
      count (replace "#taskſ".toList "task".toList none false) "task".toList false = 1 := by
  decide +kernel

end Tag

end DayJournal

import DayJournal.Proofs.PlainContent
import Mathlib.Data.List.Induction
import Mathlib.Logic.Relation

/-!
# Tags at the end of a content

A content ends in tags from a place on if nothing but tags and blanks stands behind it.  What is cut
off is what stands behind the first such place, for one tag (`cutLast?_eq_some_iff`) or for any
number of them (`cutAll?_eq_some_iff`).  There is only one way to read the tags at the end, so the
longest run of them comes off one by one as well.  Main statement: repeated removal of the last tag
ends where the removal of all does, and a content that is nothing but tags is left with the first
one (`removal_one_by_one`).
-/

namespace DayJournal

open Text

theorem Text.cutAtLast?_append_cons {mark : Char} {behind : Text} (h : mark ∉ behind)
    (before : Text) : cutAtLast? mark (before ++ mark :: behind) = some (before, behind) := by
  have hnone : cutAtLast? mark behind = none := by
    cases hcut : cutAtLast? mark behind with
    | none => rfl
    | some cut =>
        obtain ⟨start, rest⟩ := cut
        rw [cutAtLast?_eq_some hcut] at h
        exact absurd (by simp) h
  induction before with
  | nil => simp [cutAtLast?, hnone]
  | cons c before ih => simp [cutAtLast?, ih]

namespace Tag

structure SpacedTag where
  gap : Text
  name : Text
  blank_gap : isBlankText gap = true
  isName_name : isName name = true

def SpacedTag.text (t : SpacedTag) : Text := t.gap ++ '#' :: t.name

def trail (tags : List SpacedTag) : Text := tags.flatMap SpacedTag.text

/-- A text is `before` with some tags behind it and blanks at the end. -/
def EndsIn (s before : Text) (tags : List SpacedTag) : Prop :=
  ∃ cut, isBlankText cut = true ∧ s = before ++ trail tags ++ cut

variable {s c b before : Text} {tags : List SpacedTag} {t : SpacedTag}

@[simp] theorem trail_nil : trail [] = [] := rfl

@[simp] theorem trail_append (tags more : List SpacedTag) :
    trail (tags ++ more) = trail tags ++ trail more := List.flatMap_append

@[simp] theorem trail_singleton (t : SpacedTag) : trail [t] = t.text := List.flatMap_singleton ..

theorem SpacedTag.not_mark_name (t : SpacedTag) : '#' ∉ t.name :=
  fun h => absurd (forall_isNameChar_of_isName t.isName_name _ h) (by decide)

theorem SpacedTag.trimEnd_append_text (before : Text) (t : SpacedTag) :
    trimEnd (before ++ t.text) = before ++ t.text := by
  have htext : before ++ t.text = (before ++ t.gap ++ ['#']) ++ t.name := by
    simp [SpacedTag.text]
  rw [htext, trimEnd_append t.isName_name]

theorem trimEnd_append_trail (hne : tags ≠ []) (before : Text) :
    trimEnd (before ++ trail tags) = before ++ trail tags := by
  obtain ⟨init, t, rfl⟩ := (List.eq_nil_or_concat' tags).resolve_left hne
  rw [trail_append, trail_singleton, ← List.append_assoc, t.trimEnd_append_text]

theorem length_le_trail (tags : List SpacedTag) : tags.length ≤ (trail tags).length := by
  induction tags with
  | nil => rfl
  | cons t tags ih =>
      simp only [trail, SpacedTag.text, List.flatMap_cons, List.length_append, List.length_cons]
        at ih ⊢
      omega

/-! ## What a text ends in -/

theorem EndsIn.trimEnd_eq (h : EndsIn s before tags) (hne : tags ≠ []) :
    trimEnd s = before ++ trail tags := by
  obtain ⟨cut, hcut, rfl⟩ := h
  rw [trimEnd_append_of_blank hcut, trimEnd_append_trail hne]

theorem endsIn_trail (before : Text) (tags : List SpacedTag) :
    EndsIn (before ++ trail tags) before tags := ⟨[], rfl, (List.append_nil _).symm⟩

theorem endsIn_append {more : List SpacedTag} :
    EndsIn s before (tags ++ more) ↔ EndsIn s (before ++ trail tags) more := by
  simp [EndsIn]

theorem EndsIn.concat (h : EndsIn s b [t]) (htrim : trimEnd b = b) (hb : EndsIn b before tags)
    (hne : tags ≠ []) : EndsIn s before (tags ++ [t]) := by
  rw [endsIn_append, ← hb.trimEnd_eq hne, htrim]
  exact h

theorem EndsIn.length_add_le (h : EndsIn s before tags) :
    before.length + tags.length ≤ s.length := by
  obtain ⟨cut, -, rfl⟩ := h
  have hle := length_le_trail tags
  simp only [List.length_append]
  omega

/-! ## One tag taken off -/

theorem cutLast?_of_endsIn (h : EndsIn s before [t]) : cutLast? s = some (trimEnd before) := by
  have htrim : trimEnd s = (before ++ t.gap) ++ '#' :: t.name := by
    rw [h.trimEnd_eq (by simp), trail_singleton, SpacedTag.text, List.append_assoc]
  rw [cutLast?, htrim, cutAtLast?_append_cons t.not_mark_name]
  simp only [t.isName_name, if_true]
  rw [trimEnd_append_of_blank t.blank_gap]

theorem exists_of_cutLast? (h : cutLast? s = some b) : ∃ t, EndsIn s b [t] := by
  unfold cutLast? at h
  split at h
  · next start name hcut =>
    split at h
    · next hname =>
      cases h
      obtain ⟨gap, hgap, hstart⟩ := exists_trimEnd_append start
      obtain ⟨cut, hblank, hs⟩ := exists_trimEnd_append s
      refine ⟨⟨gap, name, hgap, hname⟩, cut, hblank, ?_⟩
      rw [trail_singleton, SpacedTag.text, ← List.append_assoc, ← hstart, ← cutAtLast?_eq_some hcut,
        ← hs]
    · cases h
  · cases h

/-! ## All the tags taken off -/

theorem cutTags_of_none (h : cutLast? s = none) (limit : Nat) : cutTags limit s = s := by
  cases limit with
  | zero => rfl
  | succ limit => rw [cutTags, h]

theorem cutTags_of_endsIn (h : EndsIn s before tags) (hne : tags ≠ []) (limit : Nat) :
    cutTags (tags.length + limit) s = cutTags limit (trimEnd before) := by
  induction tags using List.reverseRecOn generalizing s with
  | nil => exact absurd rfl hne
  | append_singleton tags t ih =>
      rw [List.length_append, List.length_singleton, Nat.add_right_comm, cutTags,
        cutLast?_of_endsIn (endsIn_append.1 h)]
      by_cases hnil : tags = []
      · simp [hnil]
      · dsimp only
        rw [trimEnd_append_trail hnil]
        exact ih (endsIn_trail before tags) hnil

theorem exists_endsIn {s b : Text} (h : cutLast? s = some b) :
    ∃ base tags, tags ≠ [] ∧ EndsIn s base tags ∧ trimEnd base = base ∧ cutLast? base = none := by
  obtain ⟨t, ht⟩ := exists_of_cutLast? h
  have htrim := (prefix_of_cutLast h).2
  cases hb : cutLast? b with
  | none => exact ⟨b, [t], by simp, ht, htrim, hb⟩
  | some earlier =>
      obtain ⟨base, tags, hne, hends, hbase⟩ := exists_endsIn hb
      exact ⟨base, tags ++ [t], by simp, ht.concat htrim hends hne, hbase⟩
termination_by s.length
decreasing_by
  have hlength := ht.length_add_le
  rw [List.length_singleton] at hlength
  omega

/-- A text without the tags at its end, if there are any. -/
def cutAll? (s : Text) : Option Text := (cutLast? s).map (cutTags s.length)

theorem removeAll?_eq (c : Text) : removeAll? c = (cutAll? c).filter fun b => !isBlankText b := rfl

theorem cutAll?_of_endsIn {base : Text} (h : EndsIn s base tags) (hne : tags ≠ [])
    (htrim : trimEnd base = base) (hbase : cutLast? base = none) : cutAll? s = some base := by
  have hall : cutTags (s.length + 1) s = base := by
    have hlength := h.length_add_le
    obtain ⟨limit, hlimit⟩ := Nat.exists_eq_add_of_le (show tags.length ≤ s.length + 1 by omega)
    rw [hlimit, cutTags_of_endsIn h hne, htrim, cutTags_of_none hbase]
  obtain ⟨init, t, rfl⟩ := (List.eq_nil_or_concat' tags).resolve_left hne
  have hfirst := cutLast?_of_endsIn (endsIn_append.1 h)
  rw [cutTags, hfirst] at hall
  rw [cutAll?, hfirst]
  exact congrArg some hall

theorem trimEnd_of_cutAll? (h : cutAll? s = some b) : trimEnd b = b := by
  obtain ⟨rest, hrest, rfl⟩ := Option.map_eq_some_iff.1 h
  exact (prefix_of_cutTags s.length (prefix_of_cutLast hrest).2).2

/-! ## The longest run of tags -/

/-- What stands before the first place from which the text ends in as many tags as `p` says. -/
def Leftmost (p : Nat → Prop) (s before : Text) : Prop :=
  (∃ tags, p tags.length ∧ EndsIn s before tags) ∧
    ∀ other tags, p tags.length → EndsIn s other tags → before <+: other

theorem Leftmost.unique {p : Nat → Prop} {b' : Text} (h : Leftmost p s b) (h' : Leftmost p s b') :
    b = b' := by
  obtain ⟨⟨tags, hp, hends⟩, hfirst⟩ := h
  obtain ⟨⟨tags', hp', hends'⟩, hfirst'⟩ := h'
  have hle := hfirst b' tags' hp' hends'
  exact hle.eq_of_length_le (hfirst' b tags hp hends).length_le

theorem leftmost_of_cutLast? (h : cutLast? s = some b) : Leftmost (· = 1) s b := by
  obtain ⟨t, ht⟩ := exists_of_cutLast? h
  refine ⟨⟨[t], rfl, ht⟩, fun other tags hone hother => ?_⟩
  obtain ⟨t', rfl⟩ := List.length_eq_one_iff.1 hone
  rw [cutLast?_of_endsIn hother, Option.some_inj] at h
  exact h ▸ isPrefix_trimEnd other

theorem cutLast?_eq_some_iff : cutLast? s = some b ↔ Leftmost (· = 1) s b := by
  refine ⟨leftmost_of_cutLast?, fun h => ?_⟩
  obtain ⟨tags, hone, hends⟩ := h.1
  obtain ⟨t, rfl⟩ := List.length_eq_one_iff.1 hone
  have hcut := cutLast?_of_endsIn hends
  rw [hcut, (leftmost_of_cutLast? hcut).unique h]

theorem leftmost_of_cutAll? (h : cutAll? s = some b) : Leftmost (0 < ·) s b := by
  obtain ⟨rest, hrest, -⟩ := Option.map_eq_some_iff.1 h
  obtain ⟨base, tags, hne, hends, htrim, hbase⟩ := exists_endsIn hrest
  obtain rfl : base = b := by
    rw [cutAll?_of_endsIn hends hne htrim hbase, Option.some_inj] at h
    exact h
  refine ⟨⟨tags, List.length_pos_of_ne_nil hne, hends⟩, fun other more hpos hother => ?_⟩
  -- What is cut off of the whole text is cut off of what stands before the other tags.
  have hcut : cutTags tags.length (trimEnd other) = base := by
    rw [← cutTags_of_endsIn hother (List.ne_nil_of_length_pos hpos), Nat.add_comm,
      cutTags_of_endsIn hends hne, htrim, cutTags_of_none hbase]
  rw [← hcut]
  exact (prefix_of_cutTags _ (trimEnd_trimEnd other)).1.trans (isPrefix_trimEnd other)

theorem cutAll?_eq_some_iff : cutAll? s = some b ↔ Leftmost (0 < ·) s b := by
  refine ⟨leftmost_of_cutAll?, fun h => ?_⟩
  obtain ⟨tags, hpos, hends⟩ := h.1
  obtain ⟨init, t, rfl⟩ := (List.eq_nil_or_concat' tags).resolve_left
    (List.ne_nil_of_length_pos hpos)
  have hcut : cutAll? s = some _ := Option.map_eq_some_iff.2
    ⟨_, cutLast?_of_endsIn (endsIn_append.1 hends), rfl⟩
  rw [hcut, (leftmost_of_cutAll? hcut).unique h]

/-! ## Repeated removal -/

/-- Taking the last tag off again and again leads from one content to another, and no further. -/
def StripsTo (c b : Text) : Prop :=
  Relation.ReflTransGen (fun c d => removeLast? c = some d) c b ∧ removeLast? b = none

theorem removeLast?_of_endsIn (h : EndsIn c b [t]) (hfilled : isBlankText b = false) :
    removeLast? c = some (trimEnd b) := by
  rw [removeLast?, cutLast?_of_endsIn h, Option.filter_some, isBlankText_trimEnd, hfilled]
  rfl

theorem reaches_of_endsIn (h : EndsIn c b tags) (hne : tags ≠ []) (htrim : trimEnd b = b)
    (hfilled : isBlankText b = false) :
    Relation.ReflTransGen (fun c d => removeLast? c = some d) c b := by
  induction tags using List.reverseRecOn generalizing c with
  | nil => exact absurd rfl hne
  | append_singleton tags t ih =>
      have hstep := removeLast?_of_endsIn (endsIn_append.1 h) (by simp [hfilled])
      by_cases hnil : tags = []
      · subst hnil
        rw [trail_nil, List.append_nil, htrim] at hstep
        exact .single hstep
      · rw [trimEnd_append_trail hnil] at hstep
        exact .head hstep (ih (endsIn_trail b tags) hnil)

theorem removeLast?_eq_none_of_cutLast? (h : cutLast? c = none) : removeLast? c = none := by
  rw [removeLast?, h]
  rfl

theorem cutLast?_of_leftmost (h : Leftmost (0 < ·) c b) (htrim : trimEnd b = b) :
    cutLast? b = none := by
  obtain ⟨⟨tags, -, hends⟩, hfirst⟩ := h
  cases hb : cutLast? b with
  | none => rfl
  | some earlier =>
      obtain ⟨t, ht⟩ := exists_of_cutLast? hb
      rw [← htrim, ht.trimEnd_eq (by simp), ← endsIn_append] at hends
      have hle := (hfirst earlier _ (by simp) hends).length_le
      have hlt := ht.length_add_le
      rw [List.length_singleton] at hlt
      omega

theorem stripsTo_of_leftmost (h : Leftmost (0 < ·) c b) (htrim : trimEnd b = b)
    (hfilled : isBlankText b = false) : StripsTo c b := by
  have hlast := removeLast?_eq_none_of_cutLast? (cutLast?_of_leftmost h htrim)
  obtain ⟨⟨tags, hpos, hends⟩, -⟩ := h
  exact ⟨reaches_of_endsIn hends (List.ne_nil_of_length_pos hpos) htrim hfilled, hlast⟩

theorem removeLast?_of_single (h : EndsIn c [] [t]) : removeLast? c = none := by
  rw [removeLast?, cutLast?_of_endsIn h]
  rfl

theorem endsIn_nil_of_removeAll? (hcut : cutAll? c = some b) (h : removeAll? c = none) :
    ∃ first more, EndsIn c [] (first :: more) := by
  rw [removeAll?_eq, hcut, Option.filter_eq_none_iff] at h
  have hblank : isBlankText b = true := by simpa using h b rfl
  obtain rfl : b = [] := by
    rw [← trimEnd_of_cutAll? hcut, trimEnd_eq_nil_iff, hblank]
  obtain ⟨⟨tags, hpos, hends⟩, -⟩ := leftmost_of_cutAll? hcut
  obtain ⟨first, more, rfl⟩ := List.exists_cons_of_length_pos hpos
  exact ⟨first, more, hends⟩

theorem stripsTo_of_only_tags {first : SpacedTag} {more : List SpacedTag}
    (h : EndsIn c [] (first :: more)) (hne : more ≠ []) : StripsTo c first.text := by
  have htext : EndsIn c first.text more := by
    have happend : EndsIn c [] ([first] ++ more) := h
    simpa using endsIn_append.1 happend
  have htrim := first.trimEnd_append_text []
  have hfilled : isBlankText first.text = false := by
    simp [SpacedTag.text, show isBlank '#' = false by decide]
  refine ⟨reaches_of_endsIn htext hne htrim hfilled, removeLast?_of_single (t := first) ?_⟩
  simpa using endsIn_trail [] [first]

/-- The tags at the end of a content can be taken off one by one instead of all at once.  Of a
content that is nothing else its first tag is left in this way.  A tag that is added behind a blank
is the one that is taken off. -/
theorem removal_one_by_one (c : Text) :
    (∀ b, removeAll? c = some b → StripsTo c b) ∧
      (removeAll? c = none → removeLast? c = none ∨
        ∃ first more, EndsIn c [] (first :: more) ∧ StripsTo c first.text) ∧
      ∀ tag, isBlankText c = false → trimEnd c = c → isName tag = true →
        removeLast? (c ++ " #".toList ++ tag) = some c := by
  refine ⟨fun b h => ?_, fun h => ?_, fun tag hfilled htrim htag => ?_⟩
  · obtain ⟨hcut, hfilled⟩ := Option.filter_eq_some_iff.1 h
    exact stripsTo_of_leftmost (leftmost_of_cutAll? hcut) (trimEnd_of_cutAll? hcut)
      (by simpa using hfilled)
  · cases hcut : cutAll? c with
    | none => exact Or.inl (removeLast?_eq_none_of_cutLast? (Option.map_eq_none_iff.1 hcut))
    | some b =>
        obtain ⟨first, more, hends⟩ := endsIn_nil_of_removeAll? hcut h
        by_cases hmore : more = []
        · subst hmore
          exact Or.inl (removeLast?_of_single hends)
        · exact Or.inr ⟨first, more, hends, stripsTo_of_only_tags hends hmore⟩
  · have hends : EndsIn (c ++ " #".toList ++ tag) c [⟨[' '], tag, by decide, htag⟩] :=
      ⟨[], rfl, by simp [SpacedTag.text]⟩
    rw [removeLast?_of_endsIn hends hfilled, htrim]

/-- Tags without a blank between them come off one by one too, down to a mark without a name. -/
theorem removal_one_by_one_of_glued_tags :
    let c := "a#b # #c\t#d#e ".toList
    let only := " #a#b  #c ".toList
    (removeAll? c = some "a#b #".toList ∧ StripsTo c "a#b #".toList) ∧
      (removeAll? only = none ∧ removeLast? only ≠ none ∧
        ∃ first more, EndsIn only [] (first :: more) ∧ StripsTo only first.text) ∧
      removeLast? ("a #b, c".toList ++ " #".toList ++ "d-1".toList) = some "a #b, c".toList := by
  intro c only
  have hall : removeAll? c = some "a#b #".toList := by decide +kernel
  have hnone : removeAll? only = none ∧ removeLast? only ≠ none := by decide +kernel
  exact ⟨⟨hall, (removal_one_by_one c).1 _ hall⟩,
    ⟨hnone.1, hnone.2, ((removal_one_by_one only).2.1 hnone.1).resolve_left hnone.2⟩,
    (removal_one_by_one _).2.2 _ (by decide) (by decide) (by decide)⟩

end Tag

end DayJournal

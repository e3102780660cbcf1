import DayJournal.Proofs.SingleLine

/-!
# Plain contents

A content is plain when it comes back as it was written, whatever the kind of its entry: it has no
blanks at either end, and does not begin with the box of a task.  Contents stay plain when tags are
put at their end or taken off, and when their date marks are changed.
-/

namespace DayJournal

open Text

structure PlainContent (c : Text) : Prop where
  one_line : '\n' ∉ c
  filled : c ≠ []
  no_blank_before : trimStart c = c
  no_blank_behind : trimEnd c = c
  no_open_box : ¬"[ ]".toList <+: c
  no_ticked_box : ¬"[x]".toList <+: c

/-- The text begins like a plain content. -/
structure Opens (c : Text) : Prop where
  first : ∃ x rest, c = x :: rest ∧ isBlank x = false
  no_open_box : ¬"[ ]".toList <+: c
  no_ticked_box : ¬"[x]".toList <+: c

variable {c d : Text}

theorem PlainContent.opens (h : PlainContent c) : Opens c := by
  obtain ⟨x, rest, rfl⟩ := List.exists_cons_of_ne_nil h.filled
  refine ⟨⟨x, rest, rfl, ?_⟩, h.no_open_box, h.no_ticked_box⟩
  by_contra hx
  have hlength := congrArg List.length h.no_blank_before
  have hle : (trimStart rest).length ≤ rest.length := (List.dropWhile_sublist isBlank).length_le
  rw [Bool.not_eq_false] at hx
  simp only [trimStart, List.dropWhile_cons, hx, if_true, List.length_cons] at hlength hle
  omega

namespace Opens

theorem of_isPrefix (h : Opens c) (hd : d <+: c) (hne : d ≠ []) : Opens d := by
  obtain ⟨x, rest, rfl, hx⟩ := h.first
  obtain ⟨y, more, rfl⟩ := List.exists_cons_of_ne_nil hne
  have hxy : y = x := (List.cons_prefix_cons.1 hd).1
  exact ⟨⟨y, more, rfl, hxy ▸ hx⟩, fun hbox => h.no_open_box (hbox.trans hd),
    fun hbox => h.no_ticked_box (hbox.trans hd)⟩

theorem not_blank (h : Opens c) : isBlankText c = false := by
  obtain ⟨x, rest, rfl, hx⟩ := h.first
  simp [hx]

theorem append_blank (h : Opens c) {x : Char} (hx : x ≠ ']') (rest : Text) :
    Opens (c ++ ' ' :: x :: rest) := by
  obtain ⟨y, more, rfl, hy⟩ := h.first
  have hopen := h.no_open_box
  have hticked := h.no_ticked_box
  refine ⟨⟨y, more ++ ' ' :: x :: rest, rfl, hy⟩, fun hbox => ?_, fun hbox => ?_⟩
  · rcases more with _ | ⟨z, _ | ⟨z', more⟩⟩
    · simp at hbox
      exact hx hbox.2.symm
    · simp at hbox
    · simp at hopen hbox
      exact hopen hbox.1 hbox.2.1 hbox.2.2
  · rcases more with _ | ⟨z, _ | ⟨z', more⟩⟩
    · simp at hbox
    · simp at hbox
    · simp at hticked hbox
      exact hticked hbox.1 hbox.2.1 hbox.2.2

theorem plain_trimEnd (h : Opens c) (hnl : '\n' ∉ c) : PlainContent (trimEnd c) := by
  have hne : trimEnd c ≠ [] := by
    rw [Ne, trimEnd_eq_nil_iff, h.not_blank]
    simp
  have htrim := h.of_isPrefix (isPrefix_trimEnd c) hne
  obtain ⟨x, rest, hcons, hx⟩ := htrim.first
  refine ⟨fun hmem => hnl (trimEnd_subset c hmem), hne, ?_, trimEnd_trimEnd c, htrim.no_open_box,
    htrim.no_ticked_box⟩
  rw [hcons, trimStart_of_not_blank hx]

theorem plain (h : Opens c) (hnl : '\n' ∉ c) (htrim : trimEnd c = c) : PlainContent c :=
  htrim ▸ h.plain_trimEnd hnl

end Opens

/-! ## Texts that agree up to a mark -/

/-- The texts begin with the same character, and are the same up to the first mark in them. -/
def AgreeUpTo (mark : Char) (c d : Text) : Prop :=
  c.head? = d.head? ∧ c.takeWhile (· ≠ mark) = d.takeWhile (· ≠ mark)

theorem AgreeUpTo.refl (mark : Char) (c : Text) : AgreeUpTo mark c c := ⟨rfl, rfl⟩

theorem AgreeUpTo.cons {mark : Char} (x : Char) (h : AgreeUpTo mark c d) :
    AgreeUpTo mark (x :: c) (x :: d) := by
  refine ⟨rfl, ?_⟩
  rw [List.takeWhile_cons, List.takeWhile_cons, h.2]

theorem prefix_takeWhile {mark : Char} {w s : Text} (hw : mark ∉ w) (h : w <+: s) :
    w <+: s.takeWhile (· ≠ mark) := by
  obtain ⟨rest, rfl⟩ := h
  rw [List.takeWhile_append_of_pos]
  · exact List.prefix_append _ _
  · intro x hx
    simpa using fun hxm : x = mark => hw (hxm ▸ hx)

theorem AgreeUpTo.opens {mark : Char} (h : AgreeUpTo mark c d) (hopen : mark ∉ "[ ]".toList)
    (hticked : mark ∉ "[x]".toList) (hd : Opens d) : Opens c := by
  have hstart : ∀ {w : Text}, mark ∉ w → w <+: c → w <+: d := by
    intro w hw hwc
    have hw' := prefix_takeWhile hw hwc
    rw [h.2] at hw'
    exact hw'.trans ( List.takeWhile_prefix _)
  obtain ⟨x, rest, rfl, hx⟩ := hd.first
  refine ⟨?_, fun hbox => hd.no_open_box (hstart hopen hbox),
    fun hbox => hd.no_ticked_box (hstart hticked hbox)⟩
  cases c with
  | nil => simp [AgreeUpTo] at h
  | cons y more =>
      have hxy : y = x := by simpa using h.1
      exact ⟨y, more, rfl, hxy ▸ hx⟩

namespace Text.Pattern

variable {α : Type} {p : Pattern α} {mark : Char}

/-- What a pattern takes is not empty and begins with a mark. -/
def TakesFrom (mark : Char) (p : Pattern α) : Prop :=
  ∀ before s taken a, p before s = some (taken, a) → 0 < taken ∧ s.head? = some mark

/-- Where something that begins with the mark is put in the place of what a pattern takes, the text
stays the same up to the first mark. -/
theorem agreeUpTo_segmentsFrom {out : Segment α → Text} {before : Option Char} {s : Text}
    (hp : TakesFrom mark p) (hother : ∀ c, out (.other c) = [c])
    (hfound : ∀ t a, t.head? = some mark → .found t a ∈ segmentsFrom p 0 before s →
      (out (.found t a)).head? = some mark) :
    AgreeUpTo mark ((segmentsFrom p 0 before s).flatMap out) s := by
  induction s generalizing before with
  | nil => exact AgreeUpTo.refl mark []
  | cons c rest ih =>
      rw [segmentsFrom] at hfound ⊢
      split at hfound
      · next taken a htaken =>
        obtain ⟨hpos, hhead⟩ := hp _ _ _ _ htaken
        have htake : ((c :: rest).take taken).head? = some mark := by
          rw [List.head?_take, if_neg (by omega), hhead]
        obtain ⟨more, hmore⟩ := List.head?_eq_some_iff.1 (hfound _ a htake (by simp))
        have hc : c = mark := by simpa using hhead
        subst hc
        simp only [List.flatMap_cons, hmore, List.cons_append]
        exact ⟨rfl, by simp⟩
      · simp only [List.flatMap_cons, hother, List.singleton_append]
        exact (ih fun t a ht h => hfound t a ht (List.mem_cons_of_mem _ h)).cons c

theorem agreeUpTo_replaceAll {f : Text → α → Text} (hp : TakesFrom mark p)
    (hf : ∀ t a, t.head? = some mark → (f t a).head? = some mark) (s : Text) :
    AgreeUpTo mark (replaceAll p f s) s :=
  agreeUpTo_segmentsFrom hp (fun _ => rfl) fun t a ht _ => hf t a ht

end Text.Pattern

/-! ## Contents as they are saved -/

theorem Shorthand.takesFrom_favoritePattern : favoritePattern.TakesFrom '#' := by
  intro before s taken a h
  unfold favoritePattern at h
  split at h
  · split at h
    · cases h
      exact ⟨by decide, rfl⟩
    · cases h
  · cases h

theorem Shorthand.agreeUpTo_expandFavorites (favorites : List (Text × Text)) (c : Text) :
    AgreeUpTo '#' (expandFavorites favorites c) c := by
  refine Text.Pattern.agreeUpTo_replaceAll takesFrom_favoritePattern (fun t a ht => ?_) c
  split
  · split
    · exact ht
    · rfl
  · exact ht

theorem Shorthand.opens_expandFavorites {favorites : List (Text × Text)} (h : Opens c) :
    Opens (expandFavorites favorites c) :=
  (agreeUpTo_expandFavorites favorites c).opens (by decide) (by decide) h

namespace DateMark

theorem takesFrom_relativePattern : relativePattern.TakesFrom '@' := by
  intro before s taken a h
  unfold relativePattern at h
  split at h
  · dsimp only at h
    split at h
    · cases h
      exact ⟨by omega, rfl⟩
    · cases h
  · cases h

theorem head_absoluteFor {today : Date} {found token t : Text} (hfound : found.head? = some '@')
    (h : absoluteFor today found token = .ok t) : t.head? = some '@' := by
  unfold absoluteFor at h
  obtain ⟨day, -, h⟩ := bind_eq_ok.1 h
  cases day with
  | none =>
      cases h
      exact hfound
  | some d =>
      cases h
      split <;> rfl

/-- What is written for a segment of a content; nothing matters but the `@` where a mark cannot be
read. -/
def normalSegment (today : Date) (seg : Text.Segment Text) : Text :=
  seg.meaning?.elim seg.text fun token =>
    (absoluteFor today seg.text token).toOption.getD ['@']

theorem opens_normalize {today : Date} {t : Text} (h : Opens c) (ht : normalize c today = .ok t) :
    Opens t := by
  obtain ⟨parts, hparts, hflatten⟩ := bind_eq_ok.1 ht
  cases hflatten
  have hmap : parts = (Text.Pattern.segments relativePattern c).map (normalSegment today) := by
    refine eq_map_of_mapM (fun seg y hy => ?_) hparts
    cases seg with
    | other x =>
        cases hy
        rfl
    | found text token =>
        show (absoluteFor today text token).toOption.getD ['@'] = y
        rw [show absoluteFor today text token = .ok y from hy]
        rfl
  have hagree : AgreeUpTo '@' parts.flatten c := by
    rw [hmap, ← List.flatMap_def]
    refine Text.Pattern.agreeUpTo_segmentsFrom takesFrom_relativePattern (fun _ => rfl)
      fun text token htext _ => ?_
    show ((absoluteFor today text token).toOption.getD ['@']).head? = some '@'
    cases ht : absoluteFor today text token with
    | error fault => rfl
    | ok t => exact head_absoluteFor htext ht
  exact hagree.opens (by decide) (by decide) h

end DateMark

theorem Workspace.plain_normalize {w : Workspace} {t : Text}
    (hfavorites : ∀ f ∈ w.settings.favorites, '\n' ∉ f.2) (hnl : '\n' ∉ c) (h : Opens c)
    (ht : w.normalize c = .ok t) : PlainContent t := by
  have hnew := newline_not_mem_normalize hfavorites hnl ht
  obtain ⟨t', ht', rfl⟩ := map_eq_ok.1 ht
  have hopens := DateMark.opens_normalize (Shorthand.opens_expandFavorites h) ht'
  have htrim := hopens.of_isPrefix (isPrefix_trimEnd t') (by
    rw [Ne, trimEnd_eq_nil_iff, hopens.not_blank]
    simp)
  exact htrim.plain hnew (trimEnd_trimEnd t')

/-! ## Contents that are changed -/

namespace DateMark

theorem opens_append {mark : Text} (h : PlainContent c) (hmark : mark.head? = some '@') :
    Opens (append c mark) := by
  obtain ⟨rest, rfl⟩ := List.head?_eq_some_iff.1 hmark
  have hopens := h.opens.append_blank (x := '@') (by decide) rest
  rw [append, h.no_blank_behind]
  obtain ⟨x, more, hcons, hx⟩ := hopens.first
  rw [hcons, trimStart_of_not_blank hx, ← hcons]
  exact hopens

theorem opens_mark {x : Char} {rest : Text} (hblank : isBlank x = false) (hx : x ≠ '[') :
    Opens (x :: rest) :=
  ⟨⟨x, rest, rfl, hblank⟩, fun hbox => hx (List.cons_prefix_cons.1 hbox).1.symm,
    fun hbox => hx (List.cons_prefix_cons.1 hbox).1.symm⟩

theorem prefix_of_firstFrom {α : Type} {p : Text.Pattern α} {s before behind : Text} {a : α}
    {previous : Option Char}
    (h : Text.Pattern.firstFrom p previous s = some (before, a, behind)) : before <+: s := by
  induction s generalizing previous before with
  | nil => simp [Text.Pattern.firstFrom] at h
  | cons c rest ih =>
      rw [Text.Pattern.firstFrom] at h
      split at h
      · simp only [Option.some.injEq, Prod.mk.injEq] at h
        obtain ⟨rfl, -, -⟩ := h
        exact List.nil_prefix
      · obtain ⟨⟨skipped, b, behind'⟩, hfirst, heq⟩ := Option.map_eq_some_iff.1 h
        simp only [Prod.mk.injEq] at heq
        obtain ⟨rfl, rfl, rfl⟩ := heq
        exact List.cons_prefix_cons.2 ⟨rfl, ih hfirst⟩

theorem opens_splice {before mark behind : Text} (h : Opens c) (hbefore : before <+: c)
    (hmark : mark.head? = some '@') : Opens (splice before mark behind) := by
  obtain ⟨rest, rfl⟩ := List.head?_eq_some_iff.1 hmark
  have hmarked : ∀ more, ∃ rest', joinWith [' '] (('@' :: rest) :: more) = '@' :: rest' := by
    intro more
    cases more with
    | nil => exact ⟨rest, rfl⟩
    | cons x more => exact ⟨_, rfl⟩
  obtain ⟨rest', hrest'⟩ := hmarked ([trimStart behind].filter fun part => !part.isEmpty)
  -- A mark at the beginning is the beginning; otherwise it stands behind a blank.
  by_cases hnil : trimEnd before = []
  · have hsplice : splice before ('@' :: rest) behind = '@' :: rest' := by
      rw [splice, hnil, ← hrest']
      rfl
    rw [hsplice]
    exact opens_mark (by decide) (by decide)
  · have hsplice : splice before ('@' :: rest) behind =
        trimEnd before ++ ' ' :: '@' :: rest' := by
      have hfilter : [trimEnd before, '@' :: rest, trimStart behind].filter
          (fun part => !part.isEmpty) = trimEnd before :: ('@' :: rest) ::
            [trimStart behind].filter fun part => !part.isEmpty := by
        rw [List.filter_cons, if_pos (by simpa using hnil)]
        rfl
      rw [splice, hfilter, ← hrest', joinWith]
      · simp
      · simp
    rw [hsplice]
    exact (h.of_isPrefix ((isPrefix_trimEnd before).trans hbefore) hnil).append_blank
      (by decide) rest'

theorem head_write (target today : Date) : (write target today).head? = some '@' := by
  unfold write
  split <;> rfl

theorem opens_defer {today : Date} {t : Text} (h : PlainContent c) (ht : defer c today = .ok t) :
    Opens t := by
  unfold defer at ht
  split at ht
  · obtain ⟨tomorrow, -, rfl⟩ := map_eq_ok.1 ht
    exact opens_append h rfl
  · next before token behind hfirst =>
    obtain ⟨target, -, rfl⟩ := map_eq_ok.1 ht
    exact opens_splice h.opens (prefix_of_firstFrom hfirst) (head_write target today)

theorem opens_bringTo (today : Date) (h : PlainContent c) : Opens (bringTo today c) := by
  unfold bringTo
  split
  · exact opens_append h rfl
  · next before token behind hfirst => exact opens_splice h.opens (prefix_of_firstFrom hfirst) rfl

end DateMark

namespace Tag

theorem code_of_isNameChar {x : Char} (h : isNameChar x = true) :
    x.toNat = 45 ∨ x.toNat = 95 ∨ (48 ≤ x.toNat ∧ x.toNat ≤ 57) ∨
      (65 ≤ x.toNat ∧ x.toNat ≤ 90) ∨ (97 ≤ x.toNat ∧ x.toNat ≤ 122) := by
  change ((decide (65 ≤ x.val ∧ x.val ≤ 90) || decide (97 ≤ x.val) && decide (x.val ≤ 122) ||
    decide (48 ≤ x.val) && decide (x.val ≤ 57)) || decide (x = '_') || decide (x = '-')) = true at h
  simp only [Bool.or_eq_true, Bool.and_eq_true, decide_eq_true_eq, UInt32.le_iff_toNat_le] at h
  rcases h with (((⟨h1, h2⟩ | ⟨h1, h2⟩) | ⟨h1, h2⟩) | rfl) | rfl
  · exact Or.inr (Or.inr (Or.inr (Or.inl ⟨h1, h2⟩)))
  · exact Or.inr (Or.inr (Or.inr (Or.inr ⟨h1, h2⟩)))
  · exact Or.inr (Or.inr (Or.inl ⟨h1, h2⟩))
  · exact Or.inr (Or.inl rfl)
  · exact Or.inl rfl

theorem isBlank_of_isNameChar {x : Char} (h : isNameChar x = true) : isBlank x = false := by
  -- In codes, so that `omega` can compare with the table of blanks.
  have hcode := code_of_isNameChar h
  simp only [isBlank, inRanges, blankRanges, List.any_cons, List.any_nil, Bool.or_false,
    Bool.or_eq_false_iff, Bool.and_eq_false_iff, decide_eq_false_iff_not]
  omega

theorem forall_isNameChar_of_isName {tag : Text} (h : isName tag = true) :
    ∀ x ∈ tag, isNameChar x = true := by
  cases tag with
  | nil => simp
  | cons x rest =>
      rw [isName, Bool.and_eq_true, List.all_eq_true] at h
      intro y hy
      rcases List.mem_cons.1 hy with rfl | hy
      · simp [isNameChar, Char.isAlphanum, h.1]
      · exact h.2 y hy

theorem newline_not_mem_of_isName {tag : Text} (h : isName tag = true) : '\n' ∉ tag :=
  fun hmem => absurd (forall_isNameChar_of_isName h _ hmem) (by decide)

theorem trimEnd_append {tag : Text} (htag : isName tag = true) (c : Text) :
    trimEnd (c ++ tag) = c ++ tag := by
  have hne : tag ≠ [] := by
    rintro rfl
    cases htag
  have hlast : isBlank (tag.getLast hne) = false :=
    isBlank_of_isNameChar (forall_isNameChar_of_isName htag _ (List.getLast_mem hne))
  have hcut : c ++ tag = (c ++ tag.dropLast) ++ [tag.getLast hne] := by
    rw [List.append_assoc c, List.dropLast_append_getLast]
  rw [hcut, trimEnd_append_of_not_blank (by simp [hlast])]
  simp [trimEnd, trimEndOf, hlast]

theorem plain_append {tag : Text} (h : PlainContent c) (htag : isName tag = true) :
    PlainContent (c ++ " #".toList ++ tag) := by
  have htrim := trimEnd_append htag (c ++ " #".toList)
  have htext : c ++ " #".toList ++ tag = c ++ ' ' :: '#' :: tag := by simp
  rw [htext] at htrim ⊢
  refine (h.opens.append_blank (by decide) tag).plain ?_ htrim
  simp [h.one_line, newline_not_mem_of_isName htag]

theorem bareName_of_isName {tag : Text} (h : isName tag = true) : bareName tag = tag := by
  cases tag with
  | nil => rfl
  | cons x rest =>
      have hx : x ≠ '#' := by
        rintro rfl
        exact absurd (forall_isNameChar_of_isName h '#' (by simp)) (by decide)
      simp [bareName, hx]

end Tag

theorem TagChange.plain_transform {change : TagChange} {t : Text}
    (hchange : ∀ tag, change = .append tag → Tag.isName tag = true) (h : PlainContent c)
    (ht : change.transform c = some t) : PlainContent t := by
  have hstart : ∀ {rest : Text}, rest <+: c ∧ trimEnd rest = rest ∧ rest ≠ [] →
      PlainContent rest := fun ⟨hrest, htrim, hne⟩ =>
    (h.opens.of_isPrefix hrest hne).plain (fun hmem => h.one_line (hrest.subset hmem)) htrim
  cases change with
  | append tag =>
      cases ht
      exact Tag.plain_append h (hchange tag rfl)
  | removeLast => exact hstart (Tag.prefix_of_removeLast ht)
  | removeAll => exact hstart (Tag.prefix_of_removeAll ht)

theorem DateChange.plain_saved {change : DateChange} {w : Workspace} {today : Date} {t t' : Text}
    (hchange : change ≠ .remove) (hfavorites : ∀ f ∈ w.settings.favorites, '\n' ∉ f.2)
    (h : PlainContent c) (ht : change.transform today c = .ok (some t))
    (ht' : w.normalize t = .ok t') : PlainContent t' := by
  have hnl := DateChange.newline_not_mem_transform h.one_line ht
  refine Workspace.plain_normalize hfavorites hnl ?_ ht'
  cases change with
  | defer =>
      obtain ⟨t'', hdefer, heq⟩ := map_eq_ok.1 ht
      cases heq
      exact DateMark.opens_defer h hdefer
  | remove => exact absurd rfl hchange
  | bringToToday =>
      cases ht
      exact DateMark.opens_bringTo today h

end DayJournal

import DayJournal.Action.Basic
import DayJournal.Proofs.Header
import DayJournal.Proofs.Outcome
import DayJournal.Workspace

/-!
# Contents stay on one line

Whatever is done to the content of an entry, no newline gets into it: what is cut out of a content
has only characters of the content, and tags, date marks and favourites are put in without one.
-/

namespace DayJournal

open Text

/-! ## Parts of a text -/

namespace Text

theorem isPrefix_trimEnd (s : Text) : trimEnd s <+: s := by
  obtain ⟨cut, -, hs⟩ := exists_trimEnd_append s
  exact ⟨cut, hs.symm⟩

theorem trimEnd_subset (s : Text) : trimEnd s ⊆ s := (isPrefix_trimEnd s).subset

theorem trimStart_subset (s : Text) : trimStart s ⊆ s := (List.dropWhile_sublist isBlank).subset

theorem trim_subset (s : Text) : trim s ⊆ s := fun _ hc => trimStart_subset s (trimEnd_subset _ hc)

theorem newline_not_mem_joinWith {separator : Text} {ls : List Text} (hsep : '\n' ∉ separator)
    (h : ∀ l ∈ ls, '\n' ∉ l) : '\n' ∉ joinWith separator ls := by
  induction ls with
  | nil => simp [joinWith]
  | cons l more ih =>
      cases more with
      | nil => exact h l (by simp)
      | cons l' more =>
          have hl := h l (by simp)
          have hmore := ih fun x hx => h x (List.mem_cons_of_mem l hx)
          simp [joinWith, hsep, hl, hmore]

theorem newline_not_mem_foreignLines (s : Text) : ∀ l ∈ foreignLines s, '\n' ∉ l := by
  have hbreak : isLineBreak '\n' = true := by decide
  induction s using foreignLines.induct with
  | case1 => simp [foreignLines]
  | case2 behind ih => simpa [foreignLines] using ih
  | case3 c rest hcr hc ih => simpa [foreignLines, hc] using ih
  | case4 c rest hcr hc hnil ih =>
      have hne : '\n' ≠ c := fun h => hc (h ▸ hbreak)
      simpa [foreignLines, hc, hnil] using hne
  | case5 c rest hcr hc line more hlines ih =>
      have hne : '\n' ≠ c := fun h => hc (h ▸ hbreak)
      simp only [foreignLines, hc, hlines]
      rw [hlines] at ih
      simpa [hne] using ih

namespace Pattern

variable {α : Type} {p : Pattern α}

theorem text_subset_of_mem_segmentsFrom {s : Text} {seg : Segment α} {skip : Nat}
    {before : Option Char} (h : seg ∈ segmentsFrom p skip before s) : seg.text ⊆ s := by
  induction s generalizing skip before with
  | nil => simp [segmentsFrom] at h
  | cons c rest ih =>
      cases skip with
      | succ skip => exact List.Subset.trans (ih h) (List.subset_cons_self c rest)
      | zero =>
          rw [segmentsFrom] at h
          split at h
          · next taken a hp =>
            rcases List.mem_cons.1 h with rfl | h
            · exact List.take_subset taken (c :: rest)
            · exact List.Subset.trans (ih h) (List.subset_cons_self c rest)
          · rcases List.mem_cons.1 h with rfl | h
            · simp [Segment.text]
            · exact List.Subset.trans (ih h) (List.subset_cons_self c rest)

theorem text_subset_of_mem_segments {s : Text} {seg : Segment α} (h : seg ∈ segments p s) :
    seg.text ⊆ s := text_subset_of_mem_segmentsFrom h

theorem forall_mem_replaceAll {P : Char → Prop} {f : Text → α → Text} {s : Text}
    (hs : ∀ c ∈ s, P c) (hf : ∀ t a, (∀ c ∈ t, P c) → ∀ c ∈ f t a, P c) :
    ∀ c ∈ replaceAll p f s, P c := by
  intro c hc
  rw [replaceAll, List.mem_flatMap] at hc
  obtain ⟨seg, hseg, hmem⟩ := hc
  have hsub := text_subset_of_mem_segments hseg
  cases seg with
  | other d => exact hs c (hsub (by simpa [Segment.text] using hmem))
  | found t a => exact hf t a (fun d hd => hs d (hsub hd)) c hmem

theorem newline_not_mem_replaceAll {f : Text → α → Text} {s : Text} (hs : '\n' ∉ s)
    (hf : ∀ t a, '\n' ∉ t → '\n' ∉ f t a) : '\n' ∉ replaceAll p f s := by
  have hne : ∀ t : Text, '\n' ∉ t ↔ ∀ c ∈ t, c ≠ '\n' :=
    fun t => ⟨fun h c hc heq => h (heq ▸ hc), fun h hmem => h _ hmem rfl⟩
  rw [hne] at hs ⊢
  exact forall_mem_replaceAll hs fun t a ht => (hne _).1 (hf t a ((hne t).2 ht))

theorem subset_of_firstFrom {s before behind : Text} {a : α} {previous : Option Char}
    (h : firstFrom p previous s = some (before, a, behind)) : before ⊆ s ∧ behind ⊆ s := by
  induction s generalizing previous before with
  | nil => simp [firstFrom] at h
  | cons c rest ih =>
      rw [firstFrom] at h
      split at h
      · next taken b hp =>
        simp only [Option.some.injEq, Prod.mk.injEq] at h
        obtain ⟨rfl, -, rfl⟩ := h
        exact ⟨List.nil_subset _, List.drop_subset taken (c :: rest)⟩
      · obtain ⟨⟨skipped, b, behind'⟩, hfirst, heq⟩ := Option.map_eq_some_iff.1 h
        simp only [Prod.mk.injEq] at heq
        obtain ⟨rfl, rfl, rfl⟩ := heq
        obtain ⟨hskipped, hbehind⟩ := ih hfirst
        exact ⟨List.cons_subset_cons c hskipped,
          List.Subset.trans hbehind (List.subset_cons_self c rest)⟩

end Pattern

end Text

/-! ## Date marks -/

namespace DateMark

theorem newline_not_mem_short (target : Date) : '\n' ∉ short target := by
  have h := newline_not_mem_dayHeader target
  simp only [dayHeader, Date.slashed, List.mem_append, List.mem_cons, not_or] at h
  simp [short, h.2.2.2]

theorem newline_not_mem_long (target : Date) : '\n' ∉ long target := by
  have hdigits : '\n' ∉ twoDigits target.year :=
    fun h => absurd (isDigit_of_mem_twoDigits h) (by decide)
  simp [long, newline_not_mem_short, hdigits]

theorem newline_not_mem_write (target today : Date) : '\n' ∉ write target today := by
  unfold write
  split
  · exact newline_not_mem_short target
  · exact newline_not_mem_long target

theorem newline_not_mem_splice {before middle behind : Text} (hbefore : '\n' ∉ before)
    (hmiddle : '\n' ∉ middle) (hbehind : '\n' ∉ behind) :
    '\n' ∉ splice before middle behind := by
  refine newline_not_mem_joinWith (by decide) fun part hpart => ?_
  have hpart : part ∈ [trimEnd before, middle, trimStart behind] := (List.mem_filter.1 hpart).1
  simp only [List.mem_cons, List.not_mem_nil, or_false] at hpart
  rcases hpart with rfl | rfl | rfl
  · exact fun h => hbefore (trimEnd_subset before h)
  · exact hmiddle
  · exact fun h => hbehind (trimStart_subset behind h)

theorem newline_not_mem_append {content mark : Text} (hcontent : '\n' ∉ content)
    (hmark : '\n' ∉ mark) : '\n' ∉ append content mark := by
  intro h
  have h := trimStart_subset _ h
  simp only [List.mem_append, List.mem_cons] at h
  rcases h with h | h | h
  · exact hcontent (trimEnd_subset content h)
  · exact absurd h (by decide)
  · exact hmark h

theorem newline_not_mem_defer {content t : Text} {today : Date} (h : '\n' ∉ content)
    (ht : defer content today = .ok t) : '\n' ∉ t := by
  unfold defer at ht
  split at ht
  · obtain ⟨tomorrow, -, rfl⟩ := map_eq_ok.1 ht
    exact newline_not_mem_append h (newline_not_mem_short tomorrow)
  · next before token behind hfirst =>
    obtain ⟨hbefore, hbehind⟩ := Text.Pattern.subset_of_firstFrom hfirst
    obtain ⟨target, -, rfl⟩ := map_eq_ok.1 ht
    exact newline_not_mem_splice (fun hc => h (hbefore hc)) (newline_not_mem_write target today)
      fun hc => h (hbehind hc)

theorem newline_not_mem_remove {content t : Text} (h : '\n' ∉ content)
    (ht : remove? content = some t) : '\n' ∉ t := by
  obtain ⟨⟨before, token, behind⟩, hfirst, rfl⟩ := Option.map_eq_some_iff.1 ht
  obtain ⟨hbefore, hbehind⟩ := Text.Pattern.subset_of_firstFrom hfirst
  exact newline_not_mem_splice (fun hc => h (hbefore hc)) (by simp) fun hc => h (hbehind hc)

theorem newline_not_mem_bringTo {content : Text} (today : Date) (h : '\n' ∉ content) :
    '\n' ∉ bringTo today content := by
  unfold bringTo
  split
  · exact newline_not_mem_append h (newline_not_mem_short today)
  · next before token behind hfirst =>
    obtain ⟨hbefore, hbehind⟩ := Text.Pattern.subset_of_firstFrom hfirst
    exact newline_not_mem_splice (fun hc => h (hbefore hc)) (newline_not_mem_short today)
      fun hc => h (hbehind hc)

theorem newline_not_mem_absoluteFor {today : Date} {found token t : Text} (h : '\n' ∉ found)
    (ht : absoluteFor today found token = .ok t) : '\n' ∉ t := by
  unfold absoluteFor at ht
  obtain ⟨day, -, ht⟩ := bind_eq_ok.1 ht
  cases day with
  | none =>
      cases ht
      exact h
  | some d =>
      cases ht
      split
      · exact newline_not_mem_long d
      · exact newline_not_mem_short d

theorem newline_not_mem_normalize {content t : Text} {today : Date} (h : '\n' ∉ content)
    (ht : normalize content today = .ok t) : '\n' ∉ t := by
  unfold normalize at ht
  obtain ⟨parts, hparts, ht⟩ := bind_eq_ok.1 ht
  cases ht
  rw [List.mem_flatten]
  rintro ⟨part, hpart, hmem⟩
  obtain ⟨seg, hseg, hmade⟩ := exists_of_mem_mapM hparts hpart
  have hsub := Text.Pattern.text_subset_of_mem_segments hseg
  cases seg with
  | other c =>
      cases hmade
      exact h (hsub (by simpa [Text.Segment.text] using hmem))
  | found text token => exact newline_not_mem_absoluteFor (fun hc => h (hsub hc)) hmade hmem

end DateMark

/-! ## Tags and favourites -/

namespace Tag

theorem prefix_of_cutLast {s rest : Text} (h : cutLast? s = some rest) :
    rest <+: s ∧ trimEnd rest = rest := by
  unfold cutLast? at h
  split at h
  · next before name hcut =>
    split at h
    · have htrim := cutAtLast?_eq_some hcut
      cases h
      have hbefore : before <+: trimEnd s := ⟨_, htrim.symm⟩
      exact ⟨(isPrefix_trimEnd before).trans (hbefore.trans (isPrefix_trimEnd s)),
        trimEnd_trimEnd before⟩
    · cases h
  · cases h

theorem prefix_of_cutTags (limit : Nat) {s : Text} (hs : trimEnd s = s) :
    cutTags limit s <+: s ∧ trimEnd (cutTags limit s) = cutTags limit s := by
  induction limit generalizing s with
  | zero => exact ⟨List.prefix_refl s, hs⟩
  | succ limit ih =>
      rw [cutTags]
      split
      · next rest hcut =>
        obtain ⟨hstart, htrim⟩ := prefix_of_cutLast hcut
        exact ⟨(ih htrim).1.trans hstart, (ih htrim).2⟩
      · exact ⟨List.prefix_refl s, hs⟩

theorem prefix_of_removeLast {content rest : Text} (h : removeLast? content = some rest) :
    rest <+: content ∧ trimEnd rest = rest ∧ rest ≠ [] := by
  rw [removeLast?, Option.filter_eq_some_iff] at h
  obtain ⟨hcut, hfilled⟩ := h
  refine ⟨(prefix_of_cutLast hcut).1, (prefix_of_cutLast hcut).2, ?_⟩
  rintro rfl
  simp at hfilled

theorem prefix_of_removeAll {content rest : Text} (h : removeAll? content = some rest) :
    rest <+: content ∧ trimEnd rest = rest ∧ rest ≠ [] := by
  rw [removeAll?, Option.filter_eq_some_iff] at h
  obtain ⟨hcut, hfilled⟩ := h
  obtain ⟨first, hfirst, rfl⟩ := Option.map_eq_some_iff.1 hcut
  obtain ⟨hstart, htrim⟩ := prefix_of_cutLast hfirst
  obtain ⟨hstart', htrim'⟩ := prefix_of_cutTags content.length htrim
  refine ⟨hstart'.trans hstart, htrim', fun hnil => ?_⟩
  rw [hnil] at hfilled
  simp at hfilled

theorem bareName_subset (tag : Text) : bareName tag ⊆ tag :=
  (List.dropWhile_sublist _).subset

end Tag

theorem mem_of_lookup {α : Type} [BEq α] [LawfulBEq α] {β : Type} {l : List (α × β)} {a : α} {b : β}
    (h : l.lookup a = some b) : (a, b) ∈ l := by
  obtain ⟨before, behind, rfl, -⟩ := List.lookup_eq_some_iff.1 h
  simp

theorem Shorthand.newline_not_mem_expandFavorites {favorites : List (Text × Text)} {s : Text}
    (hfavorites : ∀ f ∈ favorites, '\n' ∉ f.2) (hs : '\n' ∉ s) :
    '\n' ∉ expandFavorites favorites s := by
  refine Text.Pattern.newline_not_mem_replaceAll hs fun found digit hfound => ?_
  split
  · next tag htag =>
    split
    · exact hfound
    · simpa using hfavorites _ (mem_of_lookup htag)
  · exact hfound

/-! ## What an action writes -/

theorem TagChange.newline_not_mem_transform {change : TagChange} {content t : Text}
    (hchange : ∀ tag, change = .append tag → '\n' ∉ tag) (h : '\n' ∉ content)
    (ht : change.transform content = some t) : '\n' ∉ t := by
  cases change with
  | append tag =>
      cases ht
      simp [h, hchange tag rfl]
  | removeLast => exact fun hc => h ((Tag.prefix_of_removeLast ht).1.subset hc)
  | removeAll => exact fun hc => h ((Tag.prefix_of_removeAll ht).1.subset hc)

theorem DateChange.newline_not_mem_transform {change : DateChange} {content t : Text} {today : Date}
    (h : '\n' ∉ content) (ht : change.transform today content = .ok (some t)) : '\n' ∉ t := by
  cases change with
  | defer =>
      obtain ⟨t', ht', heq⟩ := map_eq_ok.1 ht
      cases heq
      exact DateMark.newline_not_mem_defer h ht'
  | remove =>
      rw [DateChange.transform, Except.ok.injEq] at ht
      exact DateMark.newline_not_mem_remove h ht
  | bringToToday =>
      cases ht
      exact DateMark.newline_not_mem_bringTo today h

theorem Workspace.newline_not_mem_normalize {w : Workspace} {content t : Text}
    (hfavorites : ∀ f ∈ w.settings.favorites, '\n' ∉ f.2) (h : '\n' ∉ content)
    (ht : w.normalize content = .ok t) : '\n' ∉ t := by
  obtain ⟨t', ht', rfl⟩ := map_eq_ok.1 ht
  have hexpanded := Shorthand.newline_not_mem_expandFavorites hfavorites h
  exact fun hc => DateMark.newline_not_mem_normalize hexpanded ht' (trimEnd_subset t' hc)

end DayJournal

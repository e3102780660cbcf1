import DayJournal.Proofs.PlainContent
import DayJournal.Proofs.SavedMarks
import DayJournal.Proofs.Words

/-!
# Settled contents

A content is settled when nothing in it is written out any more: its favourites have no tag, its
relative marks name no day, and no blank ends it.  What is saved is settled
(`Workspace.settled_of_normalize`): a tag that is written for a favourite begins with a letter, and
a date mark that is written for a relative one begins with a digit, so neither makes room for
another; nothing else of the content changes.  A settled content is saved as it is.
-/

namespace DayJournal

open Text

/-! ## Favourites -/

namespace Shorthand

variable {favorites : List (Text × Text)} {s rest : Text} {c : Char}

def Untagged (favorites : List (Text × Text)) (s : Text) : Prop :=
  ∀ digit ∈ favoritePattern.findAll s, (favorites.lookup digit).getD [] = []

theorem expandFavorites_of_untagged (h : Untagged favorites s) : expandFavorites favorites s = s :=
  have hplain : Plain [] favorites s := ⟨fun _ _ => rfl, h⟩
  hplain.expandFavorites

theorem favoritePattern_ignores (before before' : Option Char) (s : Text) :
    favoritePattern before s = favoritePattern before' s := rfl

theorem findAll_favoritePattern_append {u : Text} (hu : '#' ∉ u) (v : Text) :
    favoritePattern.findAll (u ++ v) = favoritePattern.findAll v := by
  induction u with
  | nil => rfl
  | cons c u ih =>
      rw [List.mem_cons, not_or] at hu
      rw [List.cons_append, Pattern.findAll_of_none favoritePattern_ignores
        (favoritePattern_of_ne (Ne.symm hu.1) none (u ++ v))]
      exact ih hu.2

theorem findAll_favoritePattern_tag {tag : Text} (hname : Tag.isName tag = true) (v : Text) :
    favoritePattern.findAll ('#' :: (tag ++ v)) = favoritePattern.findAll v := by
  have hnone : favoritePattern none ('#' :: (tag ++ v)) = none := by
    cases tag with
    | nil => cases hname
    | cons letter tag =>
        rw [Tag.isName, Bool.and_eq_true] at hname
        simp [favoritePattern, not_isDigit_of_isAlpha hname.1]
  have hmarkless : '#' ∉ tag := fun hmem =>
    absurd (Tag.forall_isNameChar_of_isName hname _ hmem) (by decide)
  rw [Pattern.findAll_of_none favoritePattern_ignores hnone,
    findAll_favoritePattern_append hmarkless]

theorem expandFavorites_of_none (h : favoritePattern none (c :: rest) = none) :
    expandFavorites favorites (c :: rest) = c :: expandFavorites favorites rest := by
  rw [expandFavorites, Pattern.replaceAll, Pattern.segments_of_none favoritePattern_ignores h,
    List.flatMap_cons]
  rfl

theorem expandFavorites_of_found {digit : Char}
    (h : favoritePattern none ('#' :: digit :: rest) = some (2, [digit])) :
    expandFavorites favorites ('#' :: digit :: rest) =
      '#' :: (if (favorites.lookup [digit]).getD [] = [] then [digit]
        else (favorites.lookup [digit]).getD []) ++ expandFavorites favorites rest := by
  rw [expandFavorites, Pattern.replaceAll,
    Pattern.segments_of_found favoritePattern_ignores (by decide) h, List.flatMap_cons]
  dsimp only [List.take_succ_cons, List.drop_succ_cons]
  cases favorites.lookup [digit] with
  | none => rfl
  | some tag => cases tag <;> rfl

theorem head?_expandFavorites (favorites : List (Text × Text)) (s : Text) :
    (expandFavorites favorites s).head? = s.head? := (agreeUpTo_expandFavorites favorites s).1

theorem favoritePattern_expandFavorites (favorites : List (Text × Text)) (s : Text) :
    favoritePattern none ('#' :: expandFavorites favorites s) =
      favoritePattern none ('#' :: s) := by
  cases s with
  | nil => rfl
  | cons d more =>
      by_cases hd : d = '#'
      · subst hd
        obtain ⟨rest, hrest⟩ :=
          List.head?_eq_some_iff.1 (head?_expandFavorites favorites ('#' :: more))
        rw [hrest]
        rfl
      · rw [expandFavorites_of_none (favoritePattern_of_ne hd none more)]
        simp only [favoritePattern, head?_expandFavorites]

theorem favoritePattern_expandFavorites_of_none (h : favoritePattern none (c :: rest) = none) :
    favoritePattern none (c :: expandFavorites favorites rest) = none := by
  by_cases hc : c = '#'
  · subst hc
    rw [favoritePattern_expandFavorites, h]
  · exact favoritePattern_of_ne hc none _

theorem exists_of_favoritePattern {taken : Nat} {digit : Text}
    (h : favoritePattern none (c :: rest) = some (taken, digit)) :
    ∃ d more, c = '#' ∧ rest = d :: more ∧ taken = 2 ∧ digit = [d] := by
  unfold favoritePattern at h
  split at h
  · next d more heq =>
    obtain ⟨rfl, rfl⟩ := List.cons.inj heq
    split at h
    · cases h
      exact ⟨d, more, rfl, rfl, rfl, rfl⟩
    · cases h
  · cases h

theorem untagged_expandFavorites (hnames : ∀ favorite ∈ favorites, Tag.isName favorite.2 = true)
    (s : Text) : Untagged favorites (expandFavorites favorites s) := by
  -- The induction is on the length: a favourite takes two characters at once.
  induction hlength : s.length using Nat.strong_induction_on generalizing s with
  | _ length ih =>
  cases s with
  | nil => simp [Untagged, expandFavorites, Pattern.replaceAll, Pattern.segments,
      Pattern.segmentsFrom, Pattern.findAll]
  | cons c rest =>
      cases hfound : favoritePattern none (c :: rest) with
      | none =>
          rw [expandFavorites_of_none hfound, Untagged,
            Pattern.findAll_of_none favoritePattern_ignores
              (favoritePattern_expandFavorites_of_none hfound)]
          exact ih rest.length (by rw [← hlength]; simp) rest rfl
      | some found =>
          obtain ⟨d, more, rfl, rfl, htaken, hdigit⟩ := exists_of_favoritePattern hfound
          rw [show found = (2, [d]) from Prod.ext htaken hdigit] at hfound
          have hmore : Untagged favorites (expandFavorites favorites more) :=
            ih more.length (by rw [← hlength]; simp) more rfl
          rw [expandFavorites_of_found hfound]
          split
          -- The digit stays, and it is still a favourite without a tag.
          · next hnone =>
            have hsame : favoritePattern none ('#' :: d :: expandFavorites favorites more) =
                some (2, [d]) := by
              simpa only [favoritePattern, head?_expandFavorites] using hfound
            show Untagged favorites ('#' :: d :: expandFavorites favorites more)
            rw [Untagged, Pattern.findAll_of_found favoritePattern_ignores (by decide) hsame]
            exact List.forall_mem_cons.2 ⟨hnone, hmore⟩
          · next hsome =>
            obtain ⟨tag, htag⟩ : ∃ tag, favorites.lookup [d] = some tag := by
              rw [← Option.isSome_iff_exists, Option.isSome_iff_ne_none]
              exact fun hnone => hsome (by rw [hnone]; rfl)
            rw [htag, Option.getD_some, List.cons_append, Untagged,
              findAll_favoritePattern_tag (hnames _ (mem_of_lookup htag))]
            exact hmore

theorem blankFree_expandFavorites (hnames : ∀ favorite ∈ favorites, Tag.isName favorite.2 = true)
    (h : BlankFree s) : BlankFree (expandFavorites favorites s) := by
  refine Pattern.forall_mem_replaceAll h fun found digit hfound => ?_
  split
  · next tag htag =>
    split
    · exact hfound
    · intro c hc
      rcases List.mem_cons.1 hc with rfl | hc
      · decide
      · exact Tag.isBlank_of_isNameChar
          (Tag.forall_isNameChar_of_isName (hnames _ (mem_of_lookup htag)) c hc)
  · exact hfound

end Shorthand

/-! ## Relative marks -/

namespace DateMark

variable {s rest token : Text} {today : Date}

theorem segmentsFrom_relativePattern {c : Char} (hc : isBlank c = false) (hs : BlankFree s)
    (skip : Nat) : Pattern.segmentsFrom relativePattern skip (some c) s =
      (s.drop skip).map .other := by
  induction s generalizing c skip with
  | nil => cases skip <;> rfl
  | cons d s ih =>
      obtain ⟨hd, hs⟩ := List.forall_mem_cons.1 hs
      cases skip with
      | succ skip => exact ih hd hs skip
      | zero =>
          have hnone : relativePattern (some c) (d :: s) = none := by
            by_cases hat : d = '@'
            · subst hat
              simp [relativePattern, hc]
            · exact relativePattern_of_ne hat (some c) s
          rw [Pattern.segmentsFrom, hnone]
          exact congrArg (List.cons (.other d)) (ih hd hs 0)

theorem segments_of_not_relative (hs : BlankFree s) (h : relativePattern none s = none) :
    Pattern.segments relativePattern s = s.map .other := by
  cases s with
  | nil => rfl
  | cons c s =>
      obtain ⟨hc, hs⟩ := List.forall_mem_cons.1 hs
      rw [Pattern.segments, Pattern.segmentsFrom, h]
      exact congrArg (List.cons (.other c)) (segmentsFrom_relativePattern hc hs 0)

theorem findAll_of_not_relative (hs : BlankFree s) (h : relativePattern none s = none) :
    Pattern.findAll relativePattern s = [] := by
  rw [Pattern.findAll, segments_of_not_relative hs h, List.filterMap_map]
  exact List.filterMap_eq_nil_iff.2 fun _ _ => rfl

theorem normalText_of_not_relative (hs : BlankFree s) (h : relativePattern none s = none) :
    normalText today s = s := by
  rw [normalText, segments_of_not_relative hs h, List.flatMap_map]
  exact List.flatMap_singleton' _

theorem exists_of_relativePattern {taken : Nat} (h : relativePattern none s = some (taken, token)) :
    ∃ rest, s = '@' :: token ++ rest ∧ taken = token.length + 1 ∧
      ∀ c ∈ token, isWordChar c = true := by
  unfold relativePattern at h
  split at h
  · next rest =>
    dsimp only at h
    split at h
    · cases h
      exact ⟨rest.dropWhile isWordChar, by rw [List.cons_append, List.takeWhile_append_dropWhile],
        rfl, List.all_eq_true.1 List.all_takeWhile⟩
    · cases h
  · cases h

theorem segments_of_relative (hs : BlankFree ('@' :: token ++ rest))
    (h : relativePattern none ('@' :: token ++ rest) = some (token.length + 1, token)) :
    Pattern.segments relativePattern ('@' :: token ++ rest) =
      .found ('@' :: token) token :: rest.map .other := by
  rw [List.cons_append] at hs h ⊢
  obtain ⟨hat, hs⟩ := List.forall_mem_cons.1 hs
  rw [Pattern.segments, Pattern.segmentsFrom, h]
  simp only [Nat.add_sub_cancel, segmentsFrom_relativePattern hat hs, List.take_succ_cons,
    List.take_left, List.drop_left]

theorem findAll_of_relative (hs : BlankFree ('@' :: token ++ rest))
    (h : relativePattern none ('@' :: token ++ rest) = some (token.length + 1, token)) :
    Pattern.findAll relativePattern ('@' :: token ++ rest) = [token] := by
  rw [Pattern.findAll, segments_of_relative hs h, List.filterMap_cons, List.filterMap_map]
  exact congrArg (List.cons token) (List.filterMap_eq_nil_iff.2 fun _ _ => rfl)

theorem normalText_of_relative (hs : BlankFree ('@' :: token ++ rest))
    (h : relativePattern none ('@' :: token ++ rest) = some (token.length + 1, token))
    {written : Text} (hwritten : absoluteFor today ('@' :: token) token = .ok written) :
    normalText today ('@' :: token ++ rest) = written ++ rest := by
  rw [normalText, segments_of_relative hs h, List.flatMap_cons, List.flatMap_map]
  show (absoluteFor today ('@' :: token) token).toOption.getD ['@'] ++
    rest.flatMap (fun c => [c]) = _
  rw [hwritten, List.flatMap_singleton']
  rfl

theorem findAll_favoritePattern_mark (h : '#' ∉ token) (rest : Text) :
    Shorthand.favoritePattern.findAll ('@' :: token ++ rest) =
      Shorthand.favoritePattern.findAll rest :=
  Shorthand.findAll_favoritePattern_append
    (List.not_mem_cons_of_ne_of_not_mem (by decide) h) rest

theorem IsRun.relativePattern_append {run : Text} (h : IsRun run) (rest : Text) :
    relativePattern none ('@' :: run ++ rest) = none := by
  obtain ⟨d, more, rfl, hdigit⟩ := h.first
  have hnone : isRelativeToken ((d :: more ++ rest).takeWhile isWordChar) = false := by
    rw [List.cons_append, List.takeWhile_cons]
    split
    · simp only [isRelativeToken, RelativeDay.ofToken?_of_isDigit hdigit]
    · decide
  rw [List.cons_append, relativePattern]
  simp only [hnone, Bool.and_false, Bool.false_eq_true, if_false]

theorem absoluteFor_cases {written : Text}
    (h : absoluteFor today ('@' :: token) token = .ok written) :
    written = '@' :: token ∧ Date.ofToken .ahead today token = .ok none ∨
      ∃ run, written = '@' :: run ∧ IsRun run := by
  rw [absoluteFor, bind_eq_ok] at h
  obtain ⟨day, hday, hwritten⟩ := h
  cases day with
  | none =>
      cases hwritten
      exact Or.inl ⟨rfl, hday⟩
  | some d =>
      cases hwritten
      right
      split
      · exact ⟨_, rfl, isRun_monthDayYear d⟩
      · exact ⟨_, rfl, isRun_monthDay d⟩

def Dayless (today : Date) (content : Text) : Prop :=
  ∀ token ∈ Pattern.findAll relativePattern content, Date.ofToken .ahead today token = .ok none

theorem absoluteFor_of_dayless (h : Date.ofToken .ahead today token = .ok none) (found : Text) :
    absoluteFor today found token = .ok found := by
  rw [absoluteFor, h]
  rfl

theorem normalText_of_dayless (h : Dayless today s) : normalText today s = s := by
  have hsegments : ∀ seg ∈ Pattern.segments relativePattern s,
      normalSegment today seg = seg.text := by
    intro seg hseg
    cases seg with
    | other c => rfl
    | found t token =>
        show (absoluteFor today t token).toOption.getD ['@'] = t
        rw [absoluteFor_of_dayless (h token (Pattern.mem_findAll.2 ⟨t, hseg⟩))]
        rfl
  have htakes : Pattern.TakesSome relativePattern := fun before s taken a hfound =>
    (stopsAtBlank_relativePattern.takes before s taken a hfound).1
  rw [normalText, List.flatMap_def, List.map_congr_left hsegments, Pattern.flatten_segments htakes]

/-- A text without blanks whose relative mark is turned into a date mark has no relative mark that
names a day, and the favourites that it had. -/
theorem settled_of_blankFree (hs : BlankFree s) (hreadable : Readable today s) :
    Dayless today (normalText today s) ∧
      Shorthand.favoritePattern.findAll (normalText today s) =
        Shorthand.favoritePattern.findAll s := by
  cases hfound : relativePattern none s with
  | none =>
      rw [normalText_of_not_relative hs hfound]
      refine ⟨fun token htoken => ?_, rfl⟩
      rw [findAll_of_not_relative hs hfound] at htoken
      cases htoken
  | some found =>
      obtain ⟨taken, token⟩ := found
      obtain ⟨rest, rfl, rfl, hword⟩ := exists_of_relativePattern hfound
      have hall := findAll_of_relative hs hfound
      obtain ⟨written, hwritten⟩ := hreadable token (by rw [hall]; exact List.mem_singleton_self _)
      rw [normalText_of_relative hs hfound hwritten]
      rcases absoluteFor_cases hwritten with ⟨rfl, hnone⟩ | ⟨run, rfl, hrun⟩
      · refine ⟨fun token' htoken => ?_, rfl⟩
        rw [hall, List.mem_singleton] at htoken
        rw [htoken, hnone]
      · have hfree : BlankFree ('@' :: run ++ rest) :=
          List.forall_mem_append.2 ⟨hrun.not_blank, (List.forall_mem_append.1 hs).2⟩
        refine ⟨fun token' htoken => ?_, ?_⟩
        · rw [findAll_of_not_relative hfree (hrun.relativePattern_append rest)] at htoken
          cases htoken
        · rw [findAll_favoritePattern_mark fun hmem => (hrun.ne_of_mem hmem).2 rfl,
            findAll_favoritePattern_mark fun hmem => absurd (hword _ hmem) (by decide +kernel)]

end DateMark

/-! ## Contents as they are saved -/

namespace Workspace

open Shorthand DateMark

/-- Nothing in the content is written out any more when it is saved. -/
structure Settled (w : Workspace) (content : Text) : Prop where
  favorites : Untagged w.settings.favorites content
  marks : Dayless w.today content
  trimmed : trimEnd content = content

variable {w : Workspace} {content n : Text}

theorem Settled.normalize (h : w.Settled n) : w.normalize n = .ok n := by
  rw [normalize_eq_ok_iff, relativeTokens, expandFavorites_of_untagged h.favorites,
    normalText_of_dayless h.marks, h.trimmed]
  exact ⟨fun token htoken => ⟨_, absoluteFor_of_dayless (h.marks token htoken) _⟩, rfl⟩

theorem settled_of_normalize
    (hnames : ∀ favorite ∈ w.settings.favorites, Tag.isName favorite.2 = true)
    (h : w.normalize content = .ok n) : w.Settled n := by
  obtain ⟨hreadable, rfl⟩ := w.normalize_eq_ok_iff.1 h
  have hword : ∀ word ∈ words content,
      Dayless w.today (normalText w.today (expandFavorites w.settings.favorites word)) ∧
        Untagged w.settings.favorites
          (normalText w.today (expandFavorites w.settings.favorites word)) := by
    intro word hmem
    have hfree := blankFree_expandFavorites hnames (of_mem_words hmem).2
    have hread : Readable w.today (expandFavorites w.settings.favorites word) := by
      intro token htoken
      apply hreadable
      rw [w.partwise_relativeTokens.eq_flatMap_words]
      exact List.mem_flatMap.2 ⟨word, hmem, htoken⟩
    obtain ⟨hdayless, hsame⟩ := settled_of_blankFree hfree hread
    refine ⟨hdayless, ?_⟩
    rw [Untagged, hsame]
    exact untagged_expandFavorites hnames word
  refine ⟨fun digit hdigit => ?_, fun token htoken => ?_, trimEnd_trimEnd _⟩
  · rw [stopsAtBlank_favoritePattern.findAll.trimEnd,
      (w.partwise_saved stopsAtBlank_favoritePattern.findAll).eq_flatMap_words,
      List.mem_flatMap] at hdigit
    obtain ⟨word, hmem, hdigit⟩ := hdigit
    exact (hword word hmem).2 digit hdigit
  · rw [stopsAtBlank_relativePattern.findAll.trimEnd,
      (w.partwise_saved stopsAtBlank_relativePattern.findAll).eq_flatMap_words,
      List.mem_flatMap] at htoken
    obtain ⟨word, hmem, htoken⟩ := htoken
    exact (hword word hmem).1 token htoken

/-- What has been saved is settled, and it is written as it is whenever it is saved again: on the
same day and with the same favourites nothing of it is rewritten a second time. -/
theorem saved_once (hnames : ∀ favorite ∈ w.settings.favorites, Tag.isName favorite.2 = true)
    (h : w.normalize content = .ok n) :
    w.Settled n ∧ w.normalize n = .ok n ∧
      ∀ w' : Workspace, w'.today = w.today → w'.settings.favorites = w.settings.favorites →
        ∀ place, w'.saveContent place n = (w'.persist place n).map fun saved => (n, saved.2) := by
  have hsettled := settled_of_normalize hnames h
  refine ⟨hsettled, hsettled.normalize, fun w' htoday hfavorites place => ?_⟩
  have hsettled' : w'.Settled n :=
    ⟨by rw [hfavorites]; exact hsettled.favorites, by rw [htoday]; exact hsettled.marks,
      hsettled.trimmed⟩
  rw [saveContent, hsettled'.normalize]
  show (w'.persist place n >>= fun saved => Except.ok (n, saved.2)) = _
  cases w'.persist place n <;> rfl

theorem saved_once_of_favorite_and_mark :
    ∃ w : Workspace, w.today = ⟨2026, 1, 5, by decide⟩ ∧
      w.settings.favorites = [("1".toList, "home".toList)] ∧
      (∀ favorite ∈ w.settings.favorites, Tag.isName favorite.2 = true) ∧
      w.normalize "#1#1 @yesterday@today #2 @fri ".toList =
        .ok "#home#home @01/04@today #2 @01/09".toList ∧
      w.Settled "#home#home @01/04@today #2 @01/09".toList ∧
      w.normalize "#home#home @01/04@today #2 @01/09".toList =
        .ok "#home#home @01/04@today #2 @01/09".toList := by
  let w := Workspace.start ⟨[], none⟩ { favorites := [("1".toList, "home".toList)] }
    ⟨2026, 1, 5, by decide⟩
  have hnames : ∀ favorite ∈ w.settings.favorites, Tag.isName favorite.2 = true := by decide +kernel
  have hsaved : w.normalize "#1#1 @yesterday@today #2 @fri ".toList =
      .ok "#home#home @01/04@today #2 @01/09".toList := eq_ok_of_toOption (by decide +kernel)
  have h := saved_once hnames hsaved
  exact ⟨w, rfl, rfl, hnames, hsaved, h.1, h.2.1⟩

end Workspace

end DayJournal

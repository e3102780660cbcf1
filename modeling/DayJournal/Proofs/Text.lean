import DayJournal.Text.Blank
import Mathlib.Data.List.Basic

/-!
# Lines and trimming

Equations for texts that are put together from parts.  A text with a newline in it reads as the
line before the newline and the lines behind it, whichever way its lines are kept; everything
about lines follows from that and from `lineInduction`.  Trimming a text at its end concerns the
last part that is not blank, and no part before it.
-/

namespace DayJournal.Text

/-! ## Lines -/

/-- A text is a single line, or a line with a newline and a text behind it. -/
theorem lineInduction {motive : Text → Prop} (last : ∀ s, '\n' ∉ s → motive s)
    (line : ∀ s rest, '\n' ∉ s → motive rest → motive (s ++ '\n' :: rest)) (s : Text) :
    motive s := by
  -- The induction is on the characters; `pre` is what of the first line has been read.
  suffices h : ∀ pre : Text, '\n' ∉ pre → motive (pre ++ s) by simpa using h [] (by simp)
  induction s with
  | nil =>
      intro pre hpre
      simpa using last pre hpre
  | cons c rest ih =>
      intro pre hpre
      by_cases hc : c = '\n'
      · subst hc
        exact line pre rest hpre (by simpa using ih [] (by simp))
      · have h := ih (pre ++ [c]) (by simp [hpre, Ne.symm hc])
        simpa using h

theorem pieces_of_not_mem {separator : Char} {s : Text} (h : separator ∉ s) :
    pieces separator s = [s] := by
  induction s with
  | nil => rfl
  | cons c rest ih =>
      simp only [List.mem_cons, not_or] at h
      simp [pieces, Ne.symm h.1, ih h.2]

theorem pieces_append_cons (separator : Char) (s rest : Text) :
    pieces separator (s ++ separator :: rest) =
      pieces separator s ++ pieces separator rest := by
  induction s with
  | nil => simp [pieces]
  | cons c s ih =>
      simp only [List.cons_append, pieces, ih]
      split
      · rfl
      · cases hp : pieces separator s with
        | nil => exact absurd hp (pieces_ne_nil separator s)
        | cons piece more => rfl

theorem not_mem_of_mem_pieces {separator : Char} {s piece : Text}
    (h : piece ∈ pieces separator s) : separator ∉ piece := by
  induction s generalizing piece with
  | nil => simp_all [pieces]
  | cons c rest ih =>
      simp only [pieces] at h
      split at h
      · rcases List.mem_cons.1 h with rfl | h
        · simp
        · exact ih h
      · next hc =>
        cases hp : pieces separator rest with
        | nil => exact absurd hp (pieces_ne_nil separator rest)
        | cons first more =>
            rw [hp] at h ih
            rcases List.mem_cons.1 h with rfl | h
            · have hfirst : separator ∉ first := ih (by simp)
              simp [Ne.symm hc, hfirst]
            · exact ih (by simp [h])

theorem lines_of_not_mem {s : Text} (h : '\n' ∉ s) : lines s = [s] := pieces_of_not_mem h

theorem lines_append_newline (s rest : Text) :
    lines (s ++ '\n' :: rest) = lines s ++ lines rest := pieces_append_cons '\n' s rest

theorem newline_not_mem_of_mem_lines {s l : Text} (h : l ∈ lines s) : '\n' ∉ l :=
  not_mem_of_mem_pieces h

theorem joinLines_cons {l : Text} {more : List Text} (h : more ≠ []) :
    joinLines (l :: more) = l ++ '\n' :: joinLines more := by
  obtain ⟨next, more, rfl⟩ := List.exists_cons_of_ne_nil h
  simp [joinLines, joinWith]

theorem lines_joinLines {ls : List Text} (hne : ls ≠ []) (h : ∀ l ∈ ls, '\n' ∉ l) :
    lines (joinLines ls) = ls := by
  induction ls with
  | nil => exact absurd rfl hne
  | cons l more ih =>
      have hl : '\n' ∉ l := h l (by simp)
      by_cases hmore : more = []
      · subst hmore
        exact lines_of_not_mem hl
      · rw [joinLines_cons hmore, lines_append_newline, lines_of_not_mem hl,
          ih hmore fun l' hl' => h l' (by simp [hl'])]
        rfl

theorem joinLines_append {ls more : List Text} (h : ls ≠ []) (hmore : more ≠ []) :
    joinLines (ls ++ more) = joinLines ls ++ '\n' :: joinLines more := by
  induction ls with
  | nil => exact absurd rfl h
  | cons l rest ih =>
      by_cases hrest : rest = []
      · subst hrest
        exact joinLines_cons hmore
      · rw [List.cons_append, joinLines_cons (by simp [hrest]), joinLines_cons hrest, ih hrest]
        simp

theorem exists_joinLines_concat (init : List Text) :
    ∃ before : Text, ∀ l, joinLines (init ++ [l]) = before ++ l := by
  by_cases hinit : init = []
  · subst hinit
    exact ⟨[], fun _ => rfl⟩
  · refine ⟨joinLines init ++ ['\n'], fun l => ?_⟩
    rw [joinLines_append hinit (by simp)]
    simp [joinLines, joinWith]

theorem brokenLines_of_not_mem {s : Text} (hne : s ≠ []) (h : '\n' ∉ s) :
    brokenLines s = [s] := by
  induction s with
  | nil => exact absurd rfl hne
  | cons c rest ih =>
      simp only [List.mem_cons, not_or] at h
      by_cases hrest : rest = []
      · simp [hrest, brokenLines, Ne.symm h.1]
      · simp [brokenLines, Ne.symm h.1, ih hrest h.2]

theorem brokenLines_append_newline {s : Text} (h : '\n' ∉ s) (rest : Text) :
    brokenLines (s ++ '\n' :: rest) = (s ++ ['\n']) :: brokenLines rest := by
  induction s with
  | nil => simp [brokenLines]
  | cons c s ih =>
      simp only [List.mem_cons, not_or] at h
      simp [brokenLines, Ne.symm h.1, ih h.2]

/-! ## Trimming -/

theorem trimEndOf_append (p : Char → Bool) (s t : Text) :
    trimEndOf p (s ++ t) =
      if trimEndOf p t = [] then trimEndOf p s else s ++ trimEndOf p t := by
  induction s with
  | nil => by_cases h : trimEndOf p t = [] <;> simp [trimEndOf, h]
  | cons c s ih =>
      simp only [List.cons_append, trimEndOf, ih]
      by_cases h : trimEndOf p t = []
      · simp [h]
      · simp only [if_neg h]
        cases hst : s ++ trimEndOf p t with
        | nil => exact absurd (List.append_eq_nil_iff.1 hst).2 h
        | cons d more => rfl

theorem trimEndOf_append_of_all {p : Char → Bool} {t : Text} (h : t.all p = true) (s : Text) :
    trimEndOf p (s ++ t) = trimEndOf p s := by
  rw [trimEndOf_append, if_pos (trimEndOf_eq_nil_iff.2 h)]

@[simp] theorem trimEndOf_trimEndOf (p : Char → Bool) (s : Text) :
    trimEndOf p (trimEndOf p s) = trimEndOf p s := by
  obtain ⟨cut, hcut, hs⟩ := exists_trimEndOf_append p s
  conv_rhs => rw [hs]
  rw [trimEndOf_append_of_all hcut]

theorem trimEndOf_append_trimEndOf (p : Char → Bool) (s t : Text) :
    trimEndOf p (s ++ trimEndOf p t) = trimEndOf p (s ++ t) := by
  rw [trimEndOf_append, trimEndOf_append, trimEndOf_trimEndOf]

theorem trimEnd_append_of_blank {t : Text} (h : isBlankText t = true) (s : Text) :
    trimEnd (s ++ t) = trimEnd s := trimEndOf_append_of_all h s

@[simp] theorem trimEnd_trimEnd (s : Text) : trimEnd (trimEnd s) = trimEnd s :=
  trimEndOf_trimEndOf isBlank s

theorem trimEnd_append_trimEnd (s t : Text) : trimEnd (s ++ trimEnd t) = trimEnd (s ++ t) :=
  trimEndOf_append_trimEndOf isBlank s t

theorem trimEnd_append_of_not_blank {t : Text} (h : isBlankText t = false) (s : Text) :
    trimEnd (s ++ t) = s ++ trimEnd t := by
  rw [trimEnd, trimEndOf_append, if_neg]
  · rfl
  · intro ht
    rw [← trimEnd, trimEnd_eq_nil_iff] at ht
    simp [ht] at h

theorem exists_trimEnd_append (s : Text) :
    ∃ cut : Text, isBlankText cut = true ∧ s = trimEnd s ++ cut :=
  exists_trimEndOf_append isBlank s

theorem trimEndOf_of_trimEnd {p : Char → Bool} {s : Text} (hp : ∀ c, p c = true → isBlank c = true)
    (h : trimEnd s = s) : trimEndOf p s = s := by
  obtain ⟨cut, hcut, hs⟩ := exists_trimEndOf_append p s
  have hblank : isBlankText cut = true :=
    List.all_eq_true.2 fun c hc => hp c (List.all_eq_true.1 hcut c hc)
  have htrim : trimEnd (trimEndOf p s) = s := by
    rw [← trimEnd_append_of_blank hblank, ← hs, h]
  obtain ⟨more, -, hmore⟩ := exists_trimEnd_append (trimEndOf p s)
  rw [htrim] at hmore
  -- Each of the two trimmed texts begins the other one, so they are equally long.
  have hlength := congrArg List.length hs
  have hlength' := congrArg List.length hmore
  simp only [List.length_append] at hlength hlength'
  have hnil : cut = [] := List.eq_nil_of_length_eq_zero (by omega)
  rw [hnil, List.append_nil] at hs
  exact hs.symm

@[simp] theorem isBlankText_trimEnd (s : Text) : isBlankText (trimEnd s) = isBlankText s := by
  rw [Bool.eq_iff_iff, ← trimEnd_eq_nil_iff, trimEnd_trimEnd, trimEnd_eq_nil_iff]

@[simp] theorem isBlankText_append (s t : Text) :
    isBlankText (s ++ t) = (isBlankText s && isBlankText t) := by
  simp [isBlankText]

@[simp] theorem isBlank_newline : isBlank '\n' = true := by decide

@[simp] theorem isBlankText_nil : isBlankText [] = true := rfl

@[simp] theorem isBlankText_cons (c : Char) (s : Text) :
    isBlankText (c :: s) = (isBlank c && isBlankText s) := rfl

theorem not_mem_of_blank {c : Char} {s : Text} (h : isBlankText s = true)
    (hc : isBlank c = false) : c ∉ s := by
  intro hmem
  rw [List.all_eq_true.1 h c hmem] at hc
  cases hc

theorem trimStart_of_not_blank {c : Char} (h : isBlank c = false) (s : Text) :
    trimStart (c :: s) = c :: s := by
  simp [trimStart, h]

theorem trimStart_append_of_blank {indent : Text} (h : isBlankText indent = true) (s : Text) :
    trimStart (indent ++ s) = trimStart s := by
  rw [trimStart, List.dropWhile_append_of_pos (List.all_eq_true.1 h)]
  rfl

end DayJournal.Text

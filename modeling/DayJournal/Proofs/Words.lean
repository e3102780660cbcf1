import DayJournal.Proofs.PatternBounds
import DayJournal.Query.Filter

/-!
# Words

The words of a text are those before a blank and those behind it, and everything about words
follows from that and from what a text without a blank has: one word, or none if it is empty.  So
whatever is read off a text part by part is read off its words.
-/

namespace DayJournal

namespace Text

def BlankFree (s : Text) : Prop := ∀ c ∈ s, isBlank c = false

/-- A text has no blank, or it is such a text with a blank and a text behind it. -/
theorem blankInduction {motive : Text → Prop} (last : ∀ s, BlankFree s → motive s)
    (blank : ∀ s b rest, BlankFree s → isBlank b = true → motive rest → motive (s ++ b :: rest))
    (s : Text) : motive s := by
  -- The induction is on the characters; `pre` is what of the first part has been read.
  suffices h : ∀ pre : Text, BlankFree pre → motive (pre ++ s) by
    simpa using h [] (by simp [BlankFree])
  induction s with
  | nil =>
      intro pre hpre
      simpa using last pre hpre
  | cons c rest ih =>
      intro pre hpre
      cases hc : isBlank c with
      | true => exact blank pre c rest hpre hc (by simpa using ih [] (by simp [BlankFree]))
      | false =>
          have hpre' : BlankFree (pre ++ [c]) := by
            intro d hd
            rcases List.mem_append.1 hd with hd | hd
            · exact hpre d hd
            · rwa [List.mem_singleton.1 hd]
          simpa using ih (pre ++ [c]) hpre'

theorem words_blank {b : Char} (hb : isBlank b = true) (rest : Text) :
    words (b :: rest) = words rest := by
  cases rest <;> simp [words, hb]

theorem words_single {c : Char} (hc : isBlank c = false) : words [c] = [[c]] := by
  simp [words, hc]

theorem words_before_blank {c d : Char} (hc : isBlank c = false) (hd : isBlank d = true)
    (s : Text) : words (c :: d :: s) = [c] :: words (d :: s) := by
  simp [words, hc, hd]

theorem words_ne_nil {c : Char} (hc : isBlank c = false) (rest : Text) :
    words (c :: rest) ≠ [] := by
  cases rest with
  | nil => simp [words_single hc]
  | cons d s =>
      simp only [words, hc, Bool.false_eq_true, if_false]
      split
      · simp
      · split <;> simp

theorem words_before {c d : Char} (hc : isBlank c = false) (hd : isBlank d = false) (s : Text) :
    words (c :: d :: s) = (words (d :: s)).modifyHead (c :: ·) := by
  cases hwords : words (d :: s) with
  | nil => exact absurd hwords (words_ne_nil hd s)
  | cons word more =>
      rw [words]
      simp only [hc, hd, Bool.false_eq_true, if_false, hwords]
      rfl

theorem words_append_blank {b : Char} (hb : isBlank b = true) (s rest : Text) :
    words (s ++ b :: rest) = words s ++ words rest := by
  induction s with
  | nil => exact words_blank hb rest
  | cons c s ih =>
      rw [List.cons_append]
      cases hc : isBlank c with
      | true => rw [words_blank hc, words_blank hc, ih]
      | false =>
          cases s with
          | nil => simp [words_before_blank hc hb, words_blank hb, words_single hc]
          | cons d s =>
              rw [List.cons_append] at ih ⊢
              cases hd : isBlank d with
              | true => rw [words_before_blank hc hd, words_before_blank hc hd, ih]; rfl
              | false =>
                  rw [words_before hc hd, words_before hc hd, ih]
                  cases hwords : words (d :: s) with
                  | nil => exact absurd hwords (words_ne_nil hd s)
                  | cons word more => rfl

theorem partwise_words : Partwise words where
  nil := rfl
  append s _ rest hb := words_append_blank hb s rest

theorem BlankFree.words_eq {s : Text} (h : BlankFree s) (hne : s ≠ []) : words s = [s] := by
  induction s with
  | nil => exact absurd rfl hne
  | cons c s ih =>
      have hc : isBlank c = false := h c (by simp)
      have hs : BlankFree s := fun d hd => h d (List.mem_cons_of_mem c hd)
      cases s with
      | nil => exact words_single hc
      | cons d s => rw [words_before hc (hs d (by simp)), ih hs (by simp)]; rfl

theorem of_mem_words {s w : Text} (h : w ∈ words s) : w ≠ [] ∧ BlankFree w := by
  have hfree : ∀ s, BlankFree s → w ∈ words s → w ≠ [] ∧ BlankFree w := by
    intro s hs h
    by_cases hne : s = []
    · subst hne
      simp [words] at h
    · rw [hs.words_eq hne, List.mem_singleton] at h
      exact h ▸ ⟨hne, hs⟩
  induction s using blankInduction with
  | last s hs => exact hfree s hs h
  | blank s b rest hs hb ih =>
      rw [words_append_blank hb] at h
      rcases List.mem_append.1 h with h | h
      · exact hfree s hs h
      · exact ih h

theorem words_of_mem {s w : Text} (h : w ∈ words s) : words w = [w] :=
  (of_mem_words h).2.words_eq (of_mem_words h).1

theorem words_joinWith {ws : List Text} (h : ∀ w ∈ ws, words w = [w]) :
    words (joinWith [' '] ws) = ws := by
  rw [partwise_words.joinWith, List.map_congr_left h, ← List.flatMap_def, List.flatMap_singleton']

theorem Partwise.eq_flatMap_words {α : Type} {read : Text → List α} (h : Partwise read) (s : Text) :
    read s = (words s).flatMap read := by
  have hfree : ∀ s, BlankFree s → read s = (words s).flatMap read := by
    intro s hs
    by_cases hne : s = []
    · subst hne
      exact h.nil
    · simp [hs.words_eq hne]
  induction s using blankInduction with
  | last s hs => exact hfree s hs
  | blank s b rest hs hb ih =>
      rw [h.append s b rest hb, words_append_blank hb, List.flatMap_append, ← hfree s hs, ← ih]

theorem Partwise.mem_of_words {α : Type} {read : Text → List α} (h : Partwise read) {s s' : Text}
    (hwords : ∀ w ∈ words s', w ∈ words s) {a : α} (ha : a ∈ read s') : a ∈ read s := by
  rw [h.eq_flatMap_words, List.mem_flatMap] at ha ⊢
  obtain ⟨w, hw, ha⟩ := ha
  exact ⟨w, hwords w hw, ha⟩

end Text

/-! ## Shorthands in the words of a query -/

namespace Shorthand

open Text

/-- Nothing in the text is written out: what looks like the name of a saved query names none, and
what looks like a favourite tag has no tag. -/
structure Plain (saved favorites : List (Text × Text)) (s : Text) : Prop where
  saved : ∀ name ∈ savedPattern.findAll s, saved.lookup name = none
  favorites : ∀ digit ∈ favoritePattern.findAll s, ((favorites.lookup digit).getD []) = []

variable {saved favorites : List (Text × Text)} {s : Text}

theorem Plain.of_words (h : Plain saved favorites s) {s' : Text}
    (hwords : ∀ w ∈ words s', w ∈ words s) : Plain saved favorites s' where
  saved name hname := h.saved name (stopsAtBlank_savedPattern.findAll.mem_of_words hwords hname)
  favorites digit hdigit :=
    h.favorites digit (stopsAtBlank_favoritePattern.findAll.mem_of_words hwords hdigit)

theorem Plain.expandSaved (h : Plain saved favorites s) : expandSaved saved s = s :=
  Text.Pattern.replaceAll_eq_self stopsAtBlank_savedPattern fun found name hname => by
    rw [h.saved name hname, Option.getD_none]

theorem Plain.expandFavorites (h : Plain saved favorites s) : expandFavorites favorites s = s :=
  Text.Pattern.replaceAll_eq_self stopsAtBlank_favoritePattern fun found digit hdigit => by
    have htag := h.favorites digit hdigit
    cases hlookup : favorites.lookup digit with
    | none => rfl
    | some tag =>
        rw [hlookup, Option.getD_some] at htag
        simp [htag]

theorem Plain.tokens (h : Plain saved favorites s) :
    Filter.tokens saved favorites s = Text.words s := by
  rw [Filter.tokens, h.expandSaved, h.expandFavorites]

end Shorthand

end DayJournal

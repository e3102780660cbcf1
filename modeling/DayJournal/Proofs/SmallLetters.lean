import DayJournal.Text.Case
import Mathlib

/-!
# Small letters

What the small form of a character tells about it: digits are as they are, only a sign is written
as a sign, and a plain letter is written as a plain letter.
-/

namespace DayJournal.Text

theorem digit_code {c : Char} (h : c.isDigit = true) : 48 ≤ c.toNat ∧ c.toNat ≤ 57 := by
  simpa [Char.isDigit, UInt32.le_iff_toNat_le] using h

theorem capital_code {c : Char} (h : c.isUpper = true) : 65 ≤ c.toNat ∧ c.toNat ≤ 90 := by
  simpa [Char.isUpper, UInt32.le_iff_toNat_le] using h

theorem not_isDigit_of_isAlpha {c : Char} (h : c.isAlpha = true) : c.isDigit = false := by
  have hletter : 65 ≤ c.toNat ∧ c.toNat ≤ 90 ∨ 97 ≤ c.toNat ∧ c.toNat ≤ 122 := by
    simpa [Char.isAlpha, Char.isUpper, Char.isLower, UInt32.le_iff_toNat_le] using h
  rw [Bool.eq_false_iff]
  intro hdigit
  have hcode := digit_code hdigit
  omega

theorem toNat_toLower {c : Char} (h : c.isUpper = true) : c.toLower.toNat = c.toNat + 32 := by
  have hcode := capital_code h
  rw [Char.toLower_eq_of_isUpper h, Char.toNat_ofNat, if_pos (Or.inl (by omega))]

theorem toNat_of_ofNat_eq {n : Nat} {c : Char} (h : Char.ofNat n = c) (hc : 0 < c.toNat) :
    c.toNat = n := by
  subst h
  rw [Char.toNat_ofNat] at hc ⊢
  split at hc
  · next hvalid => exact if_pos hvalid
  · cases hc

theorem lowerFrom_cons {c : Char} (hsigma : c ≠ 'Σ') (hdotted : c ≠ 'İ') (before rest : Text) :
    lowerFrom before (c :: rest) = smallForm c :: lowerFrom (c :: before) rest := by
  rw [lowerFrom, lowerAt, if_neg hsigma, if_neg hdotted]
  rfl

theorem lowerFrom_of_isDigit {c : Char} (h : c.isDigit = true) (before rest : Text) :
    lowerFrom before (c :: rest) = c :: lowerFrom (c :: before) rest := by
  have hcode := digit_code h
  have hsigma : c ≠ 'Σ' := by
    rintro rfl
    exact absurd h (by decide)
  have hdotted : c ≠ 'İ' := by
    rintro rfl
    exact absurd h (by decide)
  have hsmall : smallForm c = c := by
    rw [smallForm, if_pos (by omega), Char.toLower_eq_of_not_isUpper]
    intro hupper
    have := capital_code hupper
    omega
  rw [lowerFrom_cons hsigma hdotted, hsmall]

theorem eq_of_smallForm_eq {c sign : Char} (hpos : 0 < sign.toNat) (hsign : sign.toNat < 65)
    (h : smallForm c = sign) : c = sign := by
  have hruns : ∀ run ∈ capitalRuns, 65 ≤ run.2.2.2 := by decide +kernel
  unfold smallForm at h
  split at h
  · by_cases hupper : c.isUpper = true
    · have hcode := toNat_toLower hupper
      have hcapital := capital_code hupper
      rw [h] at hcode
      omega
    · rwa [Char.toLower_eq_of_not_isUpper hupper] at h
  · split at h
    · next first _ _ small hrun =>
      have hsmall : 65 ≤ small := hruns _ (List.mem_of_find?_eq_some hrun)
      have hcode := toNat_of_ofNat_eq h hpos
      omega
    · exact h

theorem eq_of_mem_lowerAt {sign : Char} (hpos : 0 < sign.toNat) (hsign : sign.toNat < 65)
    {before behind : Text} {c : Char} (h : sign ∈ lowerAt before c behind) : c = sign := by
  unfold lowerAt at h
  split at h
  · rw [List.mem_singleton] at h
    split at h <;> (rw [h] at hsign; exact absurd hsign (by decide))
  · split at h
    · simp only [List.mem_cons, List.not_mem_nil, or_false] at h
      rcases h with rfl | rfl <;> exact absurd hsign (by decide)
    · exact eq_of_smallForm_eq hpos hsign (List.mem_singleton.1 h).symm

theorem mem_lowerFrom {sign : Char} (hpos : 0 < sign.toNat) (hsign : sign.toNat < 65)
    {before s : Text} (h : sign ∈ lowerFrom before s) : sign ∈ s := by
  induction s generalizing before with
  | nil => exact h
  | cons c rest ih =>
      rw [lowerFrom, List.mem_append] at h
      rcases h with h | h
      · rw [eq_of_mem_lowerAt hpos hsign h]
        exact List.mem_cons_self
      · exact List.mem_cons_of_mem _ (ih h)

theorem letterOf_code {c : Char} (h : c.isAlpha = true) :
    97 ≤ (letterOf c).toNat ∧ (letterOf c).toNat ≤ 122 := by
  have hsmall : 97 ≤ (smallForm c).toNat ∧ (smallForm c).toNat ≤ 122 := by
    rw [Char.isAlpha, Bool.or_eq_true] at h
    by_cases hupper : c.isUpper = true
    · have hcode := capital_code hupper
      rw [smallForm, if_pos (by omega), toNat_toLower hupper]
      omega
    · have hcode : 97 ≤ c.toNat ∧ c.toNat ≤ 122 := by
        simpa [Char.isLower, UInt32.le_iff_toNat_le] using h.resolve_left hupper
      rw [smallForm, if_pos (by omega), Char.toLower_eq_of_not_isUpper hupper]
      exact hcode
  rw [letterOf, if_pos (by omega)]
  exact hsmall

/-! ## The letters that characters spell -/

theorem letterOf_of_lt {c : Char} (h : c.toNat < 128) : letterOf c = c.toLower := by
  have hsmall : (smallForm c).toNat < 128 ∧ smallForm c = c.toLower := by
    rw [smallForm, if_pos h]
    refine ⟨?_, rfl⟩
    by_cases hupper : c.isUpper = true
    · have := capital_code hupper
      have := toNat_toLower hupper
      omega
    · rwa [Char.toLower_eq_of_not_isUpper hupper]
  rw [letterOf, if_pos hsmall.1, hsmall.2]

theorem not_isUpper_letterOf (c : Char) : (letterOf c).isUpper = false := by
  have hruns : ∀ run ∈ capitalRuns, 97 ≤ run.2.2.2 := by decide +kernel
  have hvariants : ∀ v ∈ letterVariants, 97 ≤ v.2 := by decide +kernel
  have hfar : ∀ n, 97 ≤ n → (Char.ofNat n).isUpper = false := by
    intro n hn
    rw [Bool.eq_false_iff]
    intro h
    have hcode := capital_code h
    rw [Char.toNat_ofNat] at hcode
    split at hcode <;> omega
  have hsmall : (smallForm c).isUpper = false := by
    unfold smallForm
    split
    · exact Char.isUpper_toLower_eq_false c
    · next hcode =>
      split
      · next first _ _ small hrun =>
        exact hfar _ ((hruns _ (List.mem_of_find?_eq_some hrun)).trans (Nat.le_add_left _ _))
      · rw [Bool.eq_false_iff]
        intro h
        have := capital_code h
        omega
  unfold letterOf
  dsimp only
  split
  · exact hsmall
  · split
    · next letter hvariant => exact hfar _ (hvariants _ (List.mem_of_find?_eq_some hvariant))
    · exact hsmall

theorem letterOf_letterOf {c : Char} (h : (letterOf c).toNat < 128) :
    letterOf (letterOf c) = letterOf c := by
  rw [letterOf_of_lt h, Char.toLower_eq_of_not_isUpper (by simp [not_isUpper_letterOf c])]

theorem lowerFrom_of_lt {s : Text} (h : ∀ c ∈ s, c.toNat < 128) (before : Text) :
    lowerFrom before s = s.map letterOf := by
  induction s generalizing before with
  | nil => rfl
  | cons c rest ih =>
      obtain ⟨hc, hrest⟩ := List.forall_mem_cons.1 h
      have hsigma : c ≠ 'Σ' := by
        rintro rfl
        exact absurd hc (by decide)
      have hdotted : c ≠ 'İ' := by
        rintro rfl
        exact absurd hc (by decide)
      have hsmall : smallForm c = letterOf c := by rw [letterOf_of_lt hc, smallForm, if_pos hc]
      rw [lowerFrom_cons hsigma hdotted, hsmall, ih hrest, List.map_cons]

theorem afterIgnoringCase?_eq_some_iff {start s behind : Text} :
    afterIgnoringCase? start s = some behind ↔
      ∃ spelling, s = spelling ++ behind ∧ spelling.map letterOf = start.map letterOf := by
  induction start generalizing s with
  | nil => simp [afterIgnoringCase?]
  | cons a start ih =>
      cases s with
      | nil => simp [afterIgnoringCase?]
      | cons b rest =>
          rw [afterIgnoringCase?]
          constructor
          · intro h
            split at h
            · next hletter =>
              obtain ⟨spelling, rfl, hmap⟩ := ih.1 h
              exact ⟨b :: spelling, rfl, by simp [hmap, (beq_iff_eq.1 hletter).symm]⟩
            · cases h
          · rintro ⟨spelling, hs, hmap⟩
            cases spelling with
            | nil => cases hmap
            | cons c spelling =>
                obtain ⟨rfl, rfl⟩ := List.cons.inj hs
                obtain ⟨hletter, hmap⟩ := List.cons.inj hmap
                have hsame : sameLetter a b = true := beq_iff_eq.2 hletter.symm
                rw [if_pos hsame]
                exact ih.2 ⟨spelling, rfl, hmap⟩

end DayJournal.Text

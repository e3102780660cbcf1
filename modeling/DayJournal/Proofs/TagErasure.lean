import DayJournal.Entry.Tag
import DayJournal.Proofs.PatternBounds
import DayJournal.Proofs.SmallLetters

/-!
# Lines without a tag

A tag that is deleted goes from a line together with the spaces and tabs before it.  What stands
before the first mark of the line stays (`erase_append`), except for a gap at its end, and a header
stays a header of its day.
-/

namespace DayJournal

open Text Document

namespace Tag

/-- A space or a tab, which goes with a tag that is deleted behind it. -/
def isGap (c : Char) : Bool := c = ' ' || c = '\t'

def erase (tag l : Text) : Text := (occurrence true tag).replaceAll (fun _ _ => written none) l

variable {tag : Text}

theorem occurrence_ignores (withGap : Bool) (tag : Text) (before before' : Option Char) (s : Text) :
    occurrence withGap tag before s = occurrence withGap tag before' s := rfl

theorem occurrence_of_gap {gap rest : Text} {c : Char} (hgap : ∀ x ∈ gap, isGap x = true)
    (hc : isGap c = false) (hmark : c ≠ '#') (before : Option Char) :
    occurrence true tag before (gap ++ c :: rest) = none := by
  have htake : (gap ++ c :: rest).takeWhile isGap = gap := by
    rw [List.takeWhile_append_of_pos hgap, List.takeWhile_cons_of_neg (by simp [hc]),
      List.append_nil]
  unfold isGap at htake
  simp only [occurrence, if_true, htake, List.drop_left]
  split
  · next heq => exact absurd (List.cons.inj heq).1 hmark
  · rfl

theorem occurrence_of_mark {rest : Text} (h : afterIgnoringCase? tag rest = none)
    (before : Option Char) : occurrence true tag before ('#' :: rest) = none := by
  have htake : ('#' :: rest).takeWhile isGap = [] := rfl
  unfold isGap at htake
  simp only [occurrence, if_true, htake, List.length_nil, List.drop_zero, h]

theorem occurrence_append {u : Text} (hne : u ≠ []) (hmark : '#' ∉ u)
    (hlast : ∀ c, u.getLast? = some c → isGap c = false) (before : Option Char) (v : Text) :
    occurrence true tag before (u ++ v) = none := by
  have hcut : u.takeWhile isGap ++ u.dropWhile isGap = u := List.takeWhile_append_dropWhile
  cases hdrop : u.dropWhile isGap with
  | nil =>
      rw [hdrop, List.append_nil] at hcut
      have hgap : isGap (u.getLast hne) = true :=
        List.all_eq_true.1 (hcut ▸ List.all_takeWhile) _ (List.getLast_mem hne)
      rw [hlast _ (List.getLast?_eq_some_getLast hne)] at hgap
      cases hgap
  | cons c rest =>
      have hc : isGap c = false := by
        have hnot := List.head?_dropWhile_not isGap u
        rw [hdrop] at hnot
        simpa using hnot
      have hne : c ≠ '#' := by
        rintro rfl
        exact hmark (hcut ▸ List.mem_append_right _ (hdrop ▸ List.mem_cons_self))
      rw [← hcut, hdrop, List.append_assoc]
      exact occurrence_of_gap (List.all_eq_true.1 List.all_takeWhile) hc hne before

theorem occurrence_of_suffix {u rest : Text} {c : Char} (hsuffix : c :: rest <:+ u)
    (hmark : '#' ∉ u) (hlast : ∀ c, u.getLast? = some c → isGap c = false) (before : Option Char)
    (v : Text) : occurrence true tag before (c :: rest ++ v) = none := by
  obtain ⟨skipped, rfl⟩ := hsuffix
  refine occurrence_append (by simp) (fun hmem => hmark (List.mem_append_right _ hmem))
    (fun d hd => hlast d ?_) before v
  rw [List.getLast?_append, hd, Option.some_or]

theorem erase_append {u : Text} (hmark : '#' ∉ u)
    (hlast : ∀ c, u.getLast? = some c → isGap c = false) (v : Text) :
    erase tag (u ++ v) = u ++ erase tag v :=
  Pattern.replaceAll_append_of_none (occurrence_ignores true tag) fun _ _ hsuffix =>
    occurrence_of_suffix hsuffix hmark hlast none v

/-! ## Headers -/

theorem not_mark_of_ofParts {y1 y2 y3 y4 m1 m2 d1 d2 : Char} {day : Date}
    (h : Date.ofParts? [y1, y2, y3, y4] [m1, m2] [d1, d2] = some day) :
    '#' ∉ [y1, y2, y3, y4, '/', m1, m2, '/', d1, d2] := by
  have hdigit : isDigit '#' = false := by decide
  have hyear : '#' ∉ [y1, y2, y3, y4] := by
    intro hmem
    have hnumeral : isNumeral [y1, y2, y3, y4] = false := by
      rw [isNumeral, Bool.and_eq_false_iff]
      exact Or.inr (List.all_eq_false.2 ⟨'#', hmem, by simp [hdigit]⟩)
    simp [Date.ofParts?, hnumeral] at h
  have hmonth : '#' ∉ [m1, m2] := by
    intro hmem
    have hnumber : Date.monthNumber? [m1, m2] = none := by
      have hall : [m1, m2].all Char.isDigit = false :=
        List.all_eq_false.2 ⟨'#', hmem, by decide⟩
      simp only [Date.monthNumber?, hall, Bool.false_and, Bool.false_eq_true, if_false]
    simp [Date.ofParts?, hnumber] at h
  have hday : '#' ∉ [d1, d2] := by
    intro hmem
    have hnumber : Date.dayNumber? [d1, d2] = none := by
      have hvalue : digitValue? '#' = none := by decide
      simp only [List.mem_cons, List.not_mem_nil, or_false] at hmem
      rcases hmem with rfl | rfl
      · simp [Date.dayNumber?]
      · simp [Date.dayNumber?, hvalue, Char.isDigit]
    simp [Date.ofParts?, hnumber] at h
  simp only [List.mem_cons, List.not_mem_nil, or_false, not_or] at hyear hmonth hday ⊢
  exact ⟨hyear.1, hyear.2.1, hyear.2.2.1, hyear.2.2.2, by decide, hmonth.1, hmonth.2, by decide,
    hday.1, hday.2⟩

theorem afterIgnoringCase?_blank (htag : isName tag = true) (rest : Text) :
    afterIgnoringCase? tag (' ' :: rest) = none := by
  cases tag with
  | nil => cases htag
  | cons c name =>
      rw [isName, Bool.and_eq_true] at htag
      have hcode := letterOf_code htag.1
      have hletter : sameLetter c ' ' = false := by
        rw [sameLetter, beq_eq_false_iff_ne]
        intro heq
        have hspace : (letterOf ' ').toNat = 32 := by decide
        rw [heq, hspace] at hcode
        omega
      simp only [afterIgnoringCase?, hletter, Bool.false_eq_true, if_false]

theorem headedDay?_erase (htag : isName tag = true) {l : Text} {day : Date}
    (h : headedDay? l = some day) : headedDay? (erase tag l) = some day := by
  obtain ⟨y1, y2, y3, y4, m1, m2, d1, d2, rest, rfl, hparts⟩ := headedDay?_eq_some_iff.1 h
  let date : Text := [y1, y2, y3, y4, '/', m1, m2, '/', d1, d2]
  have hmark : '#' ∉ ' ' :: date := by
    rw [List.mem_cons, not_or]
    exact ⟨by decide, not_mark_of_ofParts hparts⟩
  obtain ⟨n, hn⟩ := Date.exists_dayNumber_of_ofParts hparts
  have hlast : ∀ c, (' ' :: date).getLast? = some c → isGap c = false := by
    intro c hc
    cases hc
    have hblank := Date.isBlank_of_dayNumber hn
    rw [isGap, Bool.or_eq_false_iff, decide_eq_false_iff_not, decide_eq_false_iff_not]
    constructor <;>
    · rintro rfl
      exact absurd hblank (by decide)
  have herase : erase tag ('#' :: ' ' :: date ++ rest) = '#' :: ' ' :: date ++ erase tag rest := by
    refine Pattern.replaceAll_append_of_none (occurrence_ignores true tag) fun c more hsuffix => ?_
    rcases List.suffix_cons_iff.1 hsuffix with heq | hsuffix
    -- The mark of a header has a blank behind it, and no name.
    · cases heq
      exact occurrence_of_mark (afterIgnoringCase?_blank htag _) none
    · exact occurrence_of_suffix hsuffix hmark hlast none rest
  rw [show '#' :: ' ' :: y1 :: y2 :: y3 :: y4 :: '/' :: m1 :: m2 :: '/' :: d1 :: d2 :: rest =
    '#' :: ' ' :: date ++ rest from rfl, herase]
  exact headedDay?_eq_some_iff.2 ⟨_, _, _, _, _, _, _, _, _, rfl, hparts⟩

end Tag

end DayJournal

import DayJournal.Text.Basic

/-!
# Blanks

White space of every script: the separators, the tab and the line breaks, and the four separator
controls.  Zero-width characters are not blank.  Trimming, words and the breaking of pasted text
into lines all rest on this one class.
-/

namespace DayJournal.Text

/-- First and last code of each stretch of blanks. -/
def blankRanges : List (Nat × Nat) := [
  (0x9, 0xd), (0x1c, 0x20), (0x85, 0x85), (0xa0, 0xa0), (0x1680, 0x1680), (0x2000, 0x200a),
  (0x2028, 0x2029), (0x202f, 0x202f), (0x205f, 0x205f), (0x3000, 0x3000)]

def isBlank (c : Char) : Bool := inRanges blankRanges c

def trimStart (s : Text) : Text := s.dropWhile isBlank

/-- A text without the characters of a class at its end. -/
def trimEndOf (p : Char → Bool) : Text → Text
  | [] => []
  | c :: rest =>
    match trimEndOf p rest with
    | [] => if p c then [] else [c]
    | kept => c :: kept

def trimEnd (s : Text) : Text := trimEndOf isBlank s

def trim (s : Text) : Text := trimEnd (trimStart s)

def isBlankText (s : Text) : Bool := s.all isBlank

/-- The longest stretches of a text without a blank. -/
def words : Text → List Text
  | [] => []
  | c :: rest =>
    if isBlank c then words rest
    else
      match rest with
      | [] => [[c]]
      | d :: _ =>
        if isBlank d then [c] :: words rest
        else
          match words rest with
          | [] => [[c]]
          | word :: more => (c :: word) :: more

/-- First and last code of each stretch of characters that end a line wherever text comes from. -/
def lineBreakRanges : List (Nat × Nat) := [
  (0xa, 0xd), (0x1c, 0x1e), (0x85, 0x85), (0x2028, 0x2029)]

def isLineBreak (c : Char) : Bool := inRanges lineBreakRanges c

/-- Lines of a text from elsewhere, which may end in any line break; a carriage return with a
newline behind it is one break.  Nothing follows the last break of a text that ends in one. -/
def foreignLines : Text → List Text
  | [] => []
  | '\r' :: '\n' :: behind => [] :: foreignLines behind
  | c :: rest =>
    if isLineBreak c then [] :: foreignLines rest
    else
      match foreignLines rest with
      | [] => [[c]]
      | line :: more => (c :: line) :: more

theorem trimEndOf_eq_nil_iff {p : Char → Bool} {s : Text} :
    trimEndOf p s = [] ↔ s.all p = true := by
  induction s with
  | nil => simp [trimEndOf]
  | cons c rest ih =>
    simp only [trimEndOf, List.all_cons, Bool.and_eq_true]
    split
    · next h => rw [ih] at h; split <;> simp_all
    · next h =>
      simp only [reduceCtorEq, false_iff, not_and]
      intro _ hr
      exact h (ih.2 hr)

theorem trimEnd_eq_nil_iff {s : Text} : trimEnd s = [] ↔ isBlankText s = true :=
  trimEndOf_eq_nil_iff

/-- Every text is what trimming leaves and characters of the class behind it. -/
theorem exists_trimEndOf_append (p : Char → Bool) (s : Text) :
    ∃ cut : Text, cut.all p = true ∧ s = trimEndOf p s ++ cut := by
  induction s with
  | nil => exact ⟨[], rfl, rfl⟩
  | cons c rest ih =>
    obtain ⟨cut, hcut, hr⟩ := ih
    simp only [trimEndOf]
    split
    · next h =>
      rw [h, List.nil_append] at hr
      split
      · next hc => exact ⟨c :: rest, by rw [List.all_cons, hc, hr]; exact hcut, rfl⟩
      · exact ⟨rest, by rw [hr]; exact hcut, rfl⟩
    · next h => exact ⟨cut, hcut, by rw [List.cons_append, ← hr]⟩

end DayJournal.Text

/-!
# Texts

A text is the list of its characters, so offsets and lengths count characters.  This module cuts
texts at a separator and puts them together again.  A line never holds its own newline, except in
`brokenLines`, which gives up nothing of the text.
-/

namespace DayJournal

/-- A text, character by character. -/
abbrev Text := List Char

namespace Text

/-- Whether a character lies in one of the stretches of a table. -/
def inRanges (ranges : List (Nat × Nat)) (c : Char) : Bool :=
  ranges.any fun r => r.1 ≤ c.toNat && c.toNat ≤ r.2

/-- The pieces between the separators; a text without a separator is one piece. -/
def pieces (separator : Char) : Text → List Text
  | [] => [[]]
  | c :: rest =>
    if c = separator then [] :: pieces separator rest
    else
      match pieces separator rest with
      | [] => [[c]]
      | piece :: more => (c :: piece) :: more

def lines (s : Text) : List Text := pieces '\n' s

/-- Texts put one after the other with a separator between each two. -/
def joinWith (separator : Text) : List Text → Text
  | [] => []
  | [piece] => piece
  | piece :: more => piece ++ separator ++ joinWith separator more

def joinLines (ls : List Text) : Text := joinWith ['\n'] ls

/-- The lines of a text, each with the newline that ends it. -/
def brokenLines : Text → List Text
  | [] => []
  | c :: rest =>
    if c = '\n' then [c] :: brokenLines rest
    else
      match brokenLines rest with
      | [] => [[c]]
      | line :: more => (c :: line) :: more

/-- What follows `start` in a text that begins with it. -/
def after? (start s : Text) : Option Text := List.isPrefixOf? start s

def includes (part : Text) : Text → Bool
  | [] => part.isEmpty
  | c :: rest => part.isPrefixOf (c :: rest) || includes part rest

/-- A text cut at the last occurrence of a character, which is left out. -/
def cutAtLast? (mark : Char) : Text → Option (Text × Text)
  | [] => none
  | c :: rest =>
    match cutAtLast? mark rest with
    | some (before, behind) => some (c :: before, behind)
    | none => if c = mark then some ([], rest) else none

theorem pieces_ne_nil (separator : Char) (s : Text) : pieces separator s ≠ [] := by
  induction s with
  | nil => simp [pieces]
  | cons c rest ih =>
    simp only [pieces]
    split
    · simp
    · split <;> simp

/-- Cutting at a separator and joining with it gives the text back. -/
theorem joinWith_pieces (separator : Char) (s : Text) :
    joinWith [separator] (pieces separator s) = s := by
  induction s with
  | nil => rfl
  | cons c rest ih =>
    simp only [pieces]
    cases hp : pieces separator rest with
    | nil => exact absurd hp (pieces_ne_nil separator rest)
    | cons piece more =>
      rw [hp] at ih
      split
      · next h => rw [← ih]; simp [joinWith, h]
      · rw [← ih]
        cases more <;> simp [joinWith]

theorem joinLines_lines (s : Text) : joinLines (lines s) = s := joinWith_pieces '\n' s

theorem flatten_brokenLines (s : Text) : (brokenLines s).flatten = s := by
  induction s with
  | nil => rfl
  | cons c rest ih =>
    simp only [brokenLines]
    split
    · simp [ih]
    · cases hb : brokenLines rest with
      | nil => rw [hb] at ih; simp at ih; simp [ih]
      | cons line more => rw [hb] at ih; simp at ih; simp [ih]

theorem cutAtLast?_eq_some {mark : Char} {s before behind : Text}
    (h : cutAtLast? mark s = some (before, behind)) : s = before ++ mark :: behind := by
  induction s generalizing before with
  | nil => simp [cutAtLast?] at h
  | cons c rest ih =>
    simp only [cutAtLast?] at h
    split at h
    · next b e hr =>
      simp only [Option.some.injEq, Prod.mk.injEq] at h
      obtain ⟨rfl, rfl⟩ := h
      rw [ih hr]; rfl
    · split at h
      · next hc =>
        simp only [Option.some.injEq, Prod.mk.injEq] at h
        obtain ⟨rfl, rfl⟩ := h
        rw [hc]; rfl
      · simp at h

end Text

end DayJournal

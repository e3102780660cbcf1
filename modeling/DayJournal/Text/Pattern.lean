import DayJournal.Text.Basic

/-!
# Patterns

A pattern recognises something at one place of a text.  `segments` reads a text from left to right
and takes whatever the pattern recognises as soon as it meets it, so what is found never overlaps.
Counting, collecting and replacing are read off the segments.  Main statement: the segments are
the whole text.
-/

namespace DayJournal.Text

/-- A pattern sees the character before a place, if there is one, and the text from the place on.
It answers with the number of characters it takes there and with what they mean. -/
abbrev Pattern (α : Type) := Option Char → Text → Option (Nat × α)

/-- A stretch of a text that a pattern recognised, or a single character outside of any. -/
inductive Segment (α : Type) where
  | other (c : Char)
  | found (text : Text) (meaning : α)

namespace Segment

variable {α : Type}

def text : Segment α → Text
  | other c => [c]
  | found t _ => t

def meaning? : Segment α → Option α
  | other _ => none
  | found _ a => some a

end Segment

namespace Pattern

variable {α : Type}

/-- The segments of a text, with the first `skip` characters taken already. -/
def segmentsFrom (p : Pattern α) : Nat → Option Char → Text → List (Segment α)
  | _, _, [] => []
  | skip + 1, _, c :: rest => segmentsFrom p skip (some c) rest
  | 0, before, c :: rest =>
    match p before (c :: rest) with
    | some (taken, a) =>
      .found ((c :: rest).take taken) a :: segmentsFrom p (taken - 1) (some c) rest
    | none => .other c :: segmentsFrom p 0 (some c) rest

def segments (p : Pattern α) (s : Text) : List (Segment α) := segmentsFrom p 0 none s

def findAll (p : Pattern α) (s : Text) : List α := (segments p s).filterMap Segment.meaning?

/-- The text with each stretch found replaced by what `f` makes of it and its meaning. -/
def replaceAll (p : Pattern α) (f : Text → α → Text) (s : Text) : Text :=
  (segments p s).flatMap fun
    | .other c => [c]
    | .found t a => f t a

/-- The text up to the first place the pattern recognises, what it means, and the text behind. -/
def firstFrom (p : Pattern α) : Option Char → Text → Option (Text × α × Text)
  | _, [] => none
  | before, c :: rest =>
    match p before (c :: rest) with
    | some (taken, a) => some ([], a, (c :: rest).drop taken)
    | none =>
      (firstFrom p (some c) rest).map fun (skipped, a, behind) => (c :: skipped, a, behind)

/-- The first place a text has something for the pattern: what comes before it, its meaning, and
what comes behind it. -/
def first? (p : Pattern α) (s : Text) : Option (Text × α × Text) := firstFrom p none s

def occursIn (p : Pattern α) (s : Text) : Bool := (first? p s).isSome

/-- A pattern takes at least one character wherever it answers. -/
def TakesSome (p : Pattern α) : Prop :=
  ∀ before s taken a, p before s = some (taken, a) → 0 < taken

theorem flatten_segmentsFrom {p : Pattern α} (hp : TakesSome p) (skip : Nat) (before : Option Char)
    (s : Text) : ((segmentsFrom p skip before s).map Segment.text).flatten = s.drop skip := by
  induction s generalizing skip before with
  | nil => simp [segmentsFrom]
  | cons c rest ih =>
    cases skip with
    | succ skip => simp [segmentsFrom, ih]
    | zero =>
      simp only [segmentsFrom]
      split
      · next taken a h =>
        obtain ⟨k, rfl⟩ : ∃ k, taken = k + 1 := ⟨taken - 1, by have := hp _ _ _ _ h; omega⟩
        simp [Segment.text, ih]
      · simp [Segment.text, ih]

theorem flatten_segments {p : Pattern α} (hp : TakesSome p) (s : Text) :
    ((segments p s).map Segment.text).flatten = s := by
  simpa [segments] using flatten_segmentsFrom hp 0 none s

end Pattern

end DayJournal.Text

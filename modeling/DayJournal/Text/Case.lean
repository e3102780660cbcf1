import DayJournal.Text.CaseTable

/-!
# Letter case

Small letters of a text, and equality of letters where case is ignored.  Two capitals need more
than the table of small forms: a capital sigma that ends a word becomes the final form, and a
capital I with a dot keeps its dot as an accent of its own.
-/

namespace DayJournal.Text

/-- The small form of a single letter; other characters stay. -/
def smallForm (c : Char) : Char :=
  if c.toNat < 0x80 then c.toLower
  else
    match capitalRuns.find? fun (first, last, step, _) =>
        first ≤ c.toNat && c.toNat ≤ last && (c.toNat - first) % step == 0 with
    | some (first, _, _, small) => Char.ofNat (c.toNat - first + small)
    | none => c

/-- The letter a character spells, whichever its case and spelling. -/
def letterOf (c : Char) : Char :=
  let small := smallForm c
  if small.toNat < 0x80 then small
  else
    match letterVariants.find? fun v => v.1 == small.toNat with
    | some (_, letter) => Char.ofNat letter
    | none => small

def sameLetter (a b : Char) : Bool := letterOf a == letterOf b

/-- What follows `start` in a text that begins with it, case ignored. -/
def afterIgnoringCase? : Text → Text → Option Text
  | [], s => some s
  | _ :: _, [] => none
  | a :: start, b :: rest => if sameLetter a b then afterIgnoringCase? start rest else none

def isCased (c : Char) : Bool := inRanges casedRanges c

def isCaseIgnorable (c : Char) : Bool := inRanges caseIgnorableRanges c

/-- Whether the first character that casing does not look through is a cased one. -/
def meetsCased (s : Text) : Bool :=
  match s.dropWhile isCaseIgnorable with
  | [] => false
  | c :: _ => isCased c

/-- The small letters for one character, given what stands before it (nearest first) and what
stands behind it. -/
def lowerAt (before : Text) (c : Char) (behind : Text) : Text :=
  if c = 'Σ' then [if meetsCased before && !meetsCased behind then 'ς' else 'σ']
  else if c = 'İ' then ['i', '\u0307']
  else [smallForm c]

def lowerFrom (before : Text) : Text → Text
  | [] => []
  | c :: rest => lowerAt before c rest ++ lowerFrom (c :: before) rest

def lower (s : Text) : Text := lowerFrom [] s

end DayJournal.Text

import DayJournal.Fault
import DayJournal.Settings.Value
import DayJournal.Text.Hexadecimal

/-!
# TOML texts

Reading a TOML text of tables, dotted and quoted names, strings of one line, booleans, inline
tables and comments.  A text is read line by line.  A table can be declared once; one that came
about by dotted names belongs to the section where it did, and an inline table is closed.  What a
reader gives is what it has read and the text behind it.
-/

namespace DayJournal.Toml

/-- How a table came about: on the way to another, by dotted names in a section, or by a header. -/
inductive Standing where
  | onTheWay
  | dotted (inSection : Nat)
  | declared
  deriving DecidableEq

/-- What stands behind a name: a value, or a table that is open to more. -/
inductive Node where
  | leaf (v : Value)
  | table (standing : Standing) (entries : List (Text × Node))

abbrev Entries := List (Text × Node)

/-! ## Tables -/

mutual

def Node.value : Node → Value
  | .leaf v => v
  | .table _ entries => .table (fields entries)

def fields : List (Text × Node) → List (Text × Value)
  | [] => []
  | (name, n) :: more => (name, n.value) :: fields more

end

/-- Entries with one set, in place of an earlier one of the same name. -/
def set (name : Text) (n : Node) : Entries → Entries
  | [] => [(name, n)]
  | (other, old) :: more =>
    if other = name then (name, n) :: more else (other, old) :: set name n more

def declare : List Text → Entries → Option Entries
  | [], _ => none
  | [name], entries =>
    match entries.lookup name with
    | none => some (set name (.table .declared []) entries)
    | some (.table .onTheWay inner) => some (set name (.table .declared inner) entries)
    | some _ => none
  | name :: more, entries =>
    match entries.lookup name with
    | none => (declare more []).map fun inner => set name (.table .onTheWay inner) entries
    | some (.table standing inner) =>
      (declare more inner).map fun inner => set name (.table standing inner) entries
    | some (.leaf _) => none

/-- Entries with a value under a dotted name, written in the given section. -/
def assign (inSection : Nat) (v : Value) : List Text → Entries → Option Entries
  | [], _ => none
  | [name], entries =>
    match entries.lookup name with
    | none => some (set name (.leaf v) entries)
    | some _ => none
  | name :: more, entries =>
    let into (inner : Entries) : Option Entries :=
      (assign inSection v more inner).map fun inner =>
        set name (.table (.dotted inSection) inner) entries
    match entries.lookup name with
    | none => into []
    | some (.table .onTheWay inner) => into inner
    | some (.table (.dotted origin) inner) => if origin = inSection then into inner else none
    | some _ => none

/-- Entries with a value in the table of a header. -/
def assignIn (header : List Text) (inSection : Nat) (v : Value) (name : List Text)
    (entries : Entries) : Option Entries :=
  match header with
  | [] => assign inSection v name entries
  | table :: more =>
    match entries.lookup table with
    | some (.table standing inner) =>
      (assignIn more inSection v name inner).map fun inner =>
        set table (.table standing inner) entries
    | _ => none

/-! ## Words -/

def isSpace (c : Char) : Bool := c = ' ' || c = '\t'

def skipSpace (s : Text) : Text := s.dropWhile isSpace

/-- Characters that stand neither in strings nor in comments. -/
def isControl (c : Char) : Bool := (c.toNat < 0x20 && c != '\t') || c.toNat == 0x7f

def isBareNameChar (c : Char) : Bool := c.isAlphanum || c = '-' || c = '_'

/-- The character for a letter behind a backslash. -/
def escaped? (c : Char) : Option Char :=
  [('b', '\x08'), ('t', '\t'), ('n', '\n'), ('f', '\x0c'), ('r', '\r'), ('"', '"'),
    ('\\', '\\')].lookup c

/-- The character with the code that hexadecimal digits write. -/
def charOfHex? (digits : Text) : Option Char :=
  (Text.hexNumber? digits).bind fun code =>
    if code.isValidChar then some (Char.ofNat code) else none

/-- A string from behind its opening quote, escapes and all. -/
def readBasic : Text → Option (Text × Text)
  | '"' :: rest => some ([], rest)
  | '\\' :: 'u' :: a :: b :: c :: d :: rest => do
    let e ← charOfHex? [a, b, c, d]
    (readBasic rest).map fun r => (e :: r.1, r.2)
  | '\\' :: 'U' :: a :: b :: c :: d :: e :: f :: g :: h :: rest => do
    let e ← charOfHex? [a, b, c, d, e, f, g, h]
    (readBasic rest).map fun r => (e :: r.1, r.2)
  | '\\' :: c :: rest => do
    let e ← escaped? c
    (readBasic rest).map fun r => (e :: r.1, r.2)
  | c :: rest =>
    if c = '\\' || isControl c then none
    else (readBasic rest).map fun r => (c :: r.1, r.2)
  | [] => none

/-- A string from behind its opening apostrophe, just as it stands. -/
def readLiteral : Text → Option (Text × Text)
  | [] => none
  | c :: rest =>
    if c = '\'' then some ([], rest)
    else if isControl c then none
    else (readLiteral rest).map fun r => (c :: r.1, r.2)

def readNamePart (s : Text) : Option (Text × Text) :=
  match s with
  | '"' :: rest => readBasic rest
  | c :: rest =>
    if c = '\'' then readLiteral rest
    else if isBareNameChar c then
      some (s.takeWhile isBareNameChar, s.dropWhile isBareNameChar)
    else none
  | [] => none

/-- A name of parts with dots between them, and the space behind it. -/
def readName : Nat → Text → Option (List Text × Text)
  | 0, _ => none
  | fuel + 1, s => do
    let (part, rest) ← readNamePart s
    match skipSpace rest with
    | '.' :: rest =>
      (readName fuel (skipSpace rest)).map fun (parts, rest) => (part :: parts, rest)
    | rest => some ([part], rest)

/-! ## Values -/

mutual

def readValue : Nat → Text → Option (Value × Text)
  | 0, _ => none
  | fuel + 1, s =>
    match s with
    | '"' :: rest => (readBasic rest).map fun (t, rest) => (.text t, rest)
    | '\x7b' :: rest =>
      match skipSpace rest with
      | '\x7d' :: rest => some (.table [], rest)
      | rest => (readInline fuel [] rest).map fun (entries, rest) => (.table (fields entries), rest)
    | c :: rest =>
      if c = '\'' then (readLiteral rest).map fun (t, rest) => (.text t, rest)
      else
        match Text.after? "true".toList s, Text.after? "false".toList s with
        | some rest, _ => some (.bool true, rest)
        | _, some rest => some (.bool false, rest)
        | _, _ => none
    | [] => none

def readPair : Nat → Text → Option ((List Text × Value) × Text)
  | 0, _ => none
  | fuel + 1, s => do
    let (name, rest) ← readName (s.length + 1) s
    let '=' :: rest := rest | none
    (readValue fuel (skipSpace rest)).map fun (v, rest) => ((name, v), rest)

/-- The entries of an inline table up to its closing brace, added to those before; there is at
least one more. -/
def readInline : Nat → Entries → Text → Option (Entries × Text)
  | 0, _, _ => none
  | fuel + 1, entries, s => do
    let ((name, v), rest) ← readPair fuel s
    let entries ← assign 0 v name entries
    match skipSpace rest with
    | ',' :: rest => readInline fuel entries (skipSpace rest)
    | '\x7d' :: rest => some (entries, rest)
    | _ => none

end

/-! ## Lines -/

/-- What has been read of a text: the sections so far, the header of the last, and the tables. -/
structure Draft where
  sections : Nat := 0
  header : List Text := []
  entries : Entries := []

def isLineEnd (s : Text) : Bool :=
  match skipSpace s with
  | [] => true
  | '#' :: comment => !comment.any isControl
  | _ => false

/-- A draft with one more line. -/
def addLine (draft : Draft) (line : Text) : Option Draft :=
  let s := skipSpace line
  if isLineEnd s then some draft
  else
    match s with
    | '[' :: rest => do
      let (header, rest) ← readName (s.length + 1) (skipSpace rest)
      let ']' :: rest := rest | none
      let entries ← declare header draft.entries
      if isLineEnd rest then some ⟨draft.sections + 1, header, entries⟩ else none
    | _ => do
      let ((name, v), rest) ← readPair (3 * s.length + 3) s
      let entries ← assignIn draft.header draft.sections v name draft.entries
      if isLineEnd rest then some { draft with entries } else none

/-- A text with plain newlines in place of pairs of a carriage return and a newline. -/
def plainNewlines : Text → Text
  | '\r' :: '\n' :: rest => '\n' :: plainNewlines rest
  | c :: rest => c :: plainNewlines rest
  | [] => []

def read (s : Text) : Except Fault Value :=
  match (Text.lines (plainNewlines s)).foldlM addLine {} with
  | some draft => .ok (.table (fields draft.entries))
  | none => .error .badToml

end DayJournal.Toml

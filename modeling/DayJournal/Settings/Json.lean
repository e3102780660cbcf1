import DayJournal.Fault
import DayJournal.Settings.Value
import DayJournal.Text.Hexadecimal

/-!
# JSON texts

Reading a JSON text.  Of two fields with one name the later one counts.  `NaN` and the infinities
are read as numbers; a whole number must not be too long.  What a reader gives is what it has read
and the text behind it.  Reading goes down by fuel, of which a text needs less than three for each
of its characters.
-/

namespace DayJournal.Json

def isSpace (c : Char) : Bool := c = ' ' || c = '\t' || c = '\n' || c = '\r'

def skipSpace (s : Text) : Text := s.dropWhile isSpace

/-! ## Strings -/

/-- The character for a letter behind a backslash. -/
def escaped? (c : Char) : Option Char :=
  [('"', '"'), ('\\', '\\'), ('/', '/'), ('b', '\x08'), ('f', '\x0c'), ('n', '\n'), ('r', '\r'),
    ('t', '\t')].lookup c

/-- The codes of a string up to its closing quote.  A code may be half of a pair. -/
def readCodes : Text → Except Fault (List Nat × Text)
  | '"' :: rest => .ok ([], rest)
  | '\\' :: 'u' :: a :: b :: c :: d :: rest =>
    match Text.hexNumber? [a, b, c, d] with
    | some code => (readCodes rest).map fun r => (code :: r.1, r.2)
    | none => .error .badJson
  | '\\' :: c :: rest =>
    match escaped? c with
    | some e => (readCodes rest).map fun r => (e.toNat :: r.1, r.2)
    | none => .error .badJson
  | c :: rest =>
    if c = '\\' || c.toNat < 0x20 then .error .badJson
    else (readCodes rest).map fun r => (c.toNat :: r.1, r.2)
  | [] => .error .badJson

def isHighHalf (code : Nat) : Bool := 0xd800 ≤ code && code ≤ 0xdbff

def isLowHalf (code : Nat) : Bool := 0xdc00 ≤ code && code ≤ 0xdfff

/-- The character of a code; half of a pair is shown as a replacement. -/
def charOfCode (code : Nat) : Char :=
  if isHighHalf code || isLowHalf code then '\ufffd' else Char.ofNat code

/-- The characters of codes, given the first half of a pair that came before. -/
def joinHalves : Option Nat → List Nat → Text
  | none, [] => []
  | some high, [] => [charOfCode high]
  | none, code :: more =>
    if isHighHalf code then joinHalves (some code) more
    else charOfCode code :: joinHalves none more
  | some high, code :: more =>
    if isLowHalf code then
      Char.ofNat (0x10000 + (high - 0xd800) * 0x400 + (code - 0xdc00)) :: joinHalves none more
    else
      charOfCode high ::
        (if isHighHalf code then joinHalves (some code) more
         else charOfCode code :: joinHalves none more)

def readString (s : Text) : Except Fault (Text × Text) :=
  (readCodes s).map fun (codes, rest) => (joinHalves none codes, rest)

/-! ## Numbers -/

/-- Whether a decimal, by its digits and the power of ten behind them, is nearer to zero than to
any other number of double precision, the half way to the least of them included. -/
def roundsToZero (digits : Nat) (exponent : Int) : Bool :=
  let top := (Nat.toDigits 10 digits).length + exponent
  digits == 0 || top < -323 ||
    (top == -323 && digits * Nat.pow 2 1075 ≤ Nat.pow 10 (-exponent).toNat)

def spanDigits (s : Text) : Text × Text := (s.takeWhile Char.isDigit, s.dropWhile Char.isDigit)

def readFraction (s : Text) : Text × Text :=
  match s with
  | '.' :: rest =>
    let (digits, behind) := spanDigits rest
    if digits.isEmpty then ([], s) else (digits, behind)
  | _ => ([], s)

def readExponent (s : Text) : Option Int × Text :=
  match s with
  | e :: rest =>
    if e = 'e' || e = 'E' then
      let (sign, rest) : Int × Text := match rest with
        | '-' :: rest => (-1, rest)
        | '+' :: rest => (1, rest)
        | rest => (1, rest)
      let (digits, behind) := spanDigits rest
      if digits.isEmpty then (none, s) else (some (sign * Text.numeralValue digits), behind)
    else (none, s)
  | [] => (none, s)

/-- A number without its sign. -/
def readNumber (s : Text) : Except Fault (Value × Text) := do
  let (whole, rest) := match s with
    | '0' :: rest => (['0'], rest)
    | _ => spanDigits s
  if whole.isEmpty then throw .badJson
  let (fraction, rest) := readFraction rest
  let (exponent, rest) := readExponent rest
  if fraction.isEmpty && exponent.isNone then
    let n ← readNumeral whole
    return (.number (n == 0), rest)
  else
    let digits := Text.numeralValue (whole ++ fraction)
    return (.number (roundsToZero digits (exponent.getD 0 - fraction.length)), rest)

/-! ## Values -/

def literals : List (Text × Value) := [
  ("null".toList, .null), ("true".toList, .bool true), ("false".toList, .bool false),
  ("NaN".toList, .number false), ("Infinity".toList, .number false),
  ("-Infinity".toList, .number false)]

/-- A value that is a word or a number. -/
def readPlain (s : Text) : Except Fault (Value × Text) :=
  match literals.findSome? fun (word, v) => (Text.after? word s).map (v, ·) with
  | some r => .ok r
  | none =>
    match s with
    | '-' :: rest => readNumber rest
    | _ => readNumber s

mutual

def readValue : Nat → Text → Except Fault (Value × Text)
  | 0, _ => .error .badJson
  | fuel + 1, s =>
    match s with
    | '"' :: rest => (readString rest).map fun (t, rest) => (.text t, rest)
    | '[' :: rest =>
      match skipSpace rest with
      | ']' :: rest => .ok (.list [], rest)
      | rest => (readItems fuel rest).map fun (items, rest) => (.list items, rest)
    | '\x7b' :: rest =>
      match skipSpace rest with
      | '\x7d' :: rest => .ok (.table [], rest)
      | rest => (readFields fuel [] rest).map fun (fields, rest) => (.table fields, rest)
    | _ => readPlain s

/-- The items of a list up to its closing bracket; there is at least one. -/
def readItems : Nat → Text → Except Fault (List Value × Text)
  | 0, _ => .error .badJson
  | fuel + 1, s => do
    let (v, rest) ← readValue fuel s
    match skipSpace rest with
    | ',' :: rest =>
      let (more, rest) ← readItems fuel (skipSpace rest)
      return (v :: more, rest)
    | ']' :: rest => return ([v], rest)
    | _ => throw .badJson

/-- The fields of a table up to its closing brace, added to those before; there is at least one
more. -/
def readFields :
    Nat → List (Text × Value) → Text → Except Fault (List (Text × Value) × Text)
  | 0, _, _ => .error .badJson
  | fuel + 1, fields, s => do
    let '"' :: rest := s | throw .badJson
    let (name, rest) ← readString rest
    let ':' :: rest := skipSpace rest | throw .badJson
    let (v, rest) ← readValue fuel (skipSpace rest)
    let fields := Value.setField name v fields
    match skipSpace rest with
    | ',' :: rest => readFields fuel fields (skipSpace rest)
    | '\x7d' :: rest => return (fields, rest)
    | _ => throw .badJson

end

def read (s : Text) : Except Fault Value := do
  let (v, rest) ← readValue (3 * s.length + 3) (skipSpace s)
  if (skipSpace rest).isEmpty then return v else throw .badJson

end DayJournal.Json

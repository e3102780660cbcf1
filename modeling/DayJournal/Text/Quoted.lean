import DayJournal.Text.Hexadecimal
import DayJournal.Text.Printable

/-!
# Quoted texts

A text as it is named in a message: between quotes, on one line, with every character that does
not print written as an escape.  Single quotes stand around it unless the text has single quotes
and no double ones.
-/

namespace DayJournal.Text

/-- The escape of a character by its code, in the shortest of the three widths that holds it. -/
def codeEscape (c : Char) : Text :=
  if c.toNat ≤ 0xff then "\\x".toList ++ hexadecimal 2 c.toNat
  else if c.toNat ≤ 0xffff then "\\u".toList ++ hexadecimal 4 c.toNat
  else "\\U".toList ++ hexadecimal 8 c.toNat

/-- How a character is written between the given quotes. -/
def quotedChar (quote c : Char) : Text :=
  if c = quote || c = '\\' then ['\\', c]
  else if c = '\t' then "\\t".toList
  else if c = '\n' then "\\n".toList
  else if c = '\r' then "\\r".toList
  else if isPrintable c then [c]
  else codeEscape c

/-- The quote that goes around a text. -/
def quoteFor (s : Text) : Char := if s.contains '\'' && !s.contains '"' then '"' else '\''

def quoted (s : Text) : Text :=
  let quote := quoteFor s
  quote :: s.flatMap (quotedChar quote) ++ [quote]

end DayJournal.Text

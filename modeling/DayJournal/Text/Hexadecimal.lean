import DayJournal.Text.Basic

/-!
# Hexadecimal numbers
-/

namespace DayJournal.Text

/-- A number in small hexadecimal digits, filled up with zeros to a width. -/
def hexadecimal (width n : Nat) : Text := List.leftpad width '0' (Nat.toDigits 16 n)

def hexValue? (c : Char) : Option Nat :=
  if c.isDigit then some (c.toNat - '0'.toNat)
  else if 'a' ≤ c && c ≤ 'f' then some (c.toNat - 'a'.toNat + 10)
  else if 'A' ≤ c && c ≤ 'F' then some (c.toNat - 'A'.toNat + 10)
  else none

def hexNumber? (digits : Text) : Option Nat :=
  digits.foldlM (fun n c => (hexValue? c).map (16 * n + ·)) 0

end DayJournal.Text

import ThemeRepair.Text.Basic
import ThemeRepair.Text.Hidden

/-!
# Quoted text

The form in which a message quotes a piece of a document: between double quotes, the quote and
the backslash escaped, the common controls by their letters, and every other character that
cannot be shown by its code point in lower-case hexadecimal digits.
-/

namespace ThemeRepair
namespace Text

/-- The lower-case hexadecimal digits of a number, without leading zeros. -/
def hexDigits (n : Nat) : Text := Nat.toDigits 16 n

/-- One character of a quoted text. -/
def quoteChar (c : Char) : Text :=
  if c = '\x00' then ['\\', '0']
  else if c = '\t' then ['\\', 't']
  else if c = '\r' then ['\\', 'r']
  else if c = '\n' then ['\\', 'n']
  else if c = '\\' then ['\\', '\\']
  else if c = '"' then ['\\', '"']
  else if isHidden c then ['\\', 'u', '\x7b'] ++ hexDigits c.toNat ++ ['\x7d']
  else [c]

/-- A text between double quotes, with what cannot stand there escaped. -/
def quoted (t : Text) : Text := '"' :: t.flatMap quoteChar ++ ['"']

end Text
end ThemeRepair

import ThemeRepair.Text.Quoted

/-!
# JSON strings

The form of a text in a line of JSON: between double quotes, the quote and the backslash escaped,
and the control characters below the space by their letter or their code point in four
lower-case hexadecimal digits.  Every other character stands for itself.
-/

namespace ThemeRepair
namespace Text

/-- The four hexadecimal digits of a code point below the space. -/
def fourHexDigits (n : Nat) : Text :=
  List.replicate (4 - (hexDigits n).length) '0' ++ hexDigits n

/-- One character of a JSON string. -/
def jsonChar (c : Char) : Text :=
  if c = '"' then ['\\', '"']
  else if c = '\\' then ['\\', '\\']
  else if c = '\x08' then ['\\', 'b']
  else if c = '\t' then ['\\', 't']
  else if c = '\n' then ['\\', 'n']
  else if c = '\x0c' then ['\\', 'f']
  else if c = '\r' then ['\\', 'r']
  else if c.toNat < 0x20 then ['\\', 'u'] ++ fourHexDigits c.toNat
  else [c]

/-- A text as a JSON string. -/
def jsonQuoted (t : Text) : Text := '"' :: t.flatMap jsonChar ++ ['"']

end Text
end ThemeRepair

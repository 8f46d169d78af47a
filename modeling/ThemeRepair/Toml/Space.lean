import ThemeRepair.Text.Basic

/-!
# Blanks, line ends and comments

What separates the words of a settings file.  A line ends with a line feed, which a carriage
return may stand before; a carriage return alone ends nothing.
-/

namespace ThemeRepair
namespace Toml

/-- The characters that may stand in comments: the tab and all that are no control characters. -/
def isPrintable (c : Char) : Bool := c == '\t' || (0x20 ≤ c.toNat && c.toNat != 0x7f)

/-- Blanks within a line: space and tab. -/
def isBlank (c : Char) : Bool := c == ' ' || c == '\t'

/-- What follows a line end. -/
def afterLineEnd? : Text → Option Text
  | '\n' :: t => some t
  | '\r' :: '\n' :: t => some t
  | _ => none

/-- Passes over blanks. -/
def skipBlanks (t : Text) : Text := t.dropWhile isBlank

/-- Passes over a comment, up to the end of its line. -/
def skipComment : Text → Text
  | '#' :: t => t.dropWhile isPrintable
  | t => t

/-- Passes over blanks and line ends. -/
def skipBreaks : Text → Text
  | [] => []
  | '\r' :: '\n' :: t => skipBreaks t
  | c :: t => if c = '\n' || isBlank c then skipBreaks t else c :: t

/-- Passes over blanks, line ends and comments; `inComment` tells whether the text begins within
a comment. -/
def skipSpace : (inComment : Bool) → Text → Text
  | _, [] => []
  | _, '\r' :: '\n' :: t => skipSpace false t
  | inComment, c :: t =>
    if c = '\n' then skipSpace false t
    else if inComment && isPrintable c then skipSpace true t
    else if c = '#' then skipSpace true t
    else if isBlank c then skipSpace false t
    else c :: t

/-- What follows the rest of a line on which only blanks and a comment are left. -/
def afterLine? (t : Text) : Option Text :=
  match skipComment (skipBlanks t) with
  | [] => some []
  | rest => afterLineEnd? rest

end Toml
end ThemeRepair

import ThemeRepair.Toml.Space

/-!
# Strings in a settings file

A string stands between double quotes, where a backslash escapes, or between single quotes, where
it does not.  Three quotes open a string that may run over several lines; a line end right behind
them is no part of it, every other one counts as a line feed.  In such a string a backslash at the
end of a line takes away the line end and all blanks and line ends behind it.
-/

namespace ThemeRepair
namespace Toml

/-- The value of a digit of a base, at most sixteen. -/
def digit? (base : Nat) (c : Char) : Option Nat :=
  let value? :=
    if '0' ≤ c ∧ c ≤ '9' then some (c.toNat - '0'.toNat)
    else if 'a' ≤ c ∧ c ≤ 'f' then some (c.toNat - 'a'.toNat + 10)
    else if 'A' ≤ c ∧ c ≤ 'F' then some (c.toNat - 'A'.toNat + 10)
    else none
  value?.filter (· < base)

/-- The number that digits of a base stand for. -/
def ofDigits? (base : Nat) (digits : Text) : Option Nat :=
  digits.foldlM (fun n c => (digit? base c).map (base * n + ·)) 0

/-- The character that `count` hexadecimal digits name, and how many digits that were. -/
def codePoint? (count : Nat) (t : Text) : Option (Char × Nat) := do
  if (t.take count).length < count then none
  else
    let n ← ofDigits? 16 (t.take count)
    if n.isValidChar then some (Char.ofNat n, count) else none

/-- The character that an escape stands for, read behind the backslash, and how many characters
behind the backslash the escape takes up. -/
def escape? : Text → Option (Char × Nat)
  | 'b' :: _ => some ('\x08', 1)
  | 't' :: _ => some ('\t', 1)
  | 'n' :: _ => some ('\n', 1)
  | 'f' :: _ => some ('\x0c', 1)
  | 'r' :: _ => some ('\r', 1)
  | '"' :: _ => some ('"', 1)
  | '\\' :: _ => some ('\\', 1)
  | 'u' :: t => (codePoint? 4 t).map fun p => (p.1, p.2 + 1)
  | 'U' :: t => (codePoint? 8 t).map fun p => (p.1, p.2 + 1)
  | _ => none

/-- Which quote surrounds a string. -/
inductive Quote where
  | double
  | single
deriving DecidableEq, Repr

namespace Quote

/-- The quote as a character. -/
def char : Quote → Char
  | double => '"'
  | single => '\''

/-- A backslash between such quotes escapes. -/
def escapes : Quote → Bool
  | double => true
  | single => false

end Quote

/-- Reads a string on one line, from behind its opening quote: the string, and what follows its
closing quote. -/
def lineString? (q : Quote) : Text → Option (Text × Text)
  | [] => none
  | c :: t =>
    if c = q.char then some ([], t)
    else if c = '\\' ∧ q.escapes then
      match escape? t with
      | none => none
      | some (x, count) => (lineString? q (t.drop count)).map fun p => (x :: p.1, p.2)
    else if isPrintable c then (lineString? q t).map fun p => (c :: p.1, p.2)
    else none
termination_by t => t.length
decreasing_by all_goals simp only [List.length_cons, List.length_drop]; omega

/-- What follows a line end that a backslash takes away, read behind the backslash. -/
def afterHiddenBreak? (t : Text) : Option Text := (afterLineEnd? (skipBlanks t)).map skipBreaks

/-- Reads a string of several lines, from behind its opening quotes and at most `fuel` steps long.
Of a run of quotes the last three close the string; at most two may stand before those. -/
def blockString? (q : Quote) : (fuel : Nat) → Text → Option (Text × Text)
  | 0, _ => none
  | _, [] => none
  | fuel + 1, c :: t =>
    match afterLineEnd? (c :: t) with
    | some rest => (blockString? q fuel rest).map fun p => ('\n' :: p.1, p.2)
    | none =>
      if c = q.char then
        let run := (c :: t).takeWhile (· == q.char)
        let rest := (c :: t).dropWhile (· == q.char)
        if run.length < 3 then (blockString? q fuel rest).map fun p => (run ++ p.1, p.2)
        else if run.length ≤ 5 then some (run.drop 3, rest)
        else none
      else if c = '\\' ∧ q.escapes then
        match afterHiddenBreak? t with
        | some rest => blockString? q fuel rest
        | none =>
          match escape? t with
          | none => none
          | some (x, count) =>
            (blockString? q fuel (t.drop count)).map fun p => (x :: p.1, p.2)
      else if isPrintable c then (blockString? q fuel t).map fun p => (c :: p.1, p.2)
      else none

/-- A text without the line end it begins with. -/
def dropFirstBreak (t : Text) : Text := (afterLineEnd? t).getD t

/-- Reads a string that may run over several lines, from its first quote on. -/
def string? (q : Quote) (t : Text) : Option (Text × Text) :=
  match Text.after? [q.char, q.char, q.char] t with
  | some rest => blockString? q (rest.length + 1) (dropFirstBreak rest)
  | none => (Text.after? [q.char] t).bind (lineString? q)

end Toml
end ThemeRepair

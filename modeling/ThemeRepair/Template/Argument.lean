import ThemeRepair.Template.Bracket

/-!
# The arguments of a template call

The body of a mapping, without its braces, is read into keys and values: entries are separated by
commas, the key of an entry from its value by the first colon, both outside brackets and string
literals.  A value stays source text.  Where a value is a plain string literal it can be written
with single quotes instead (`requote`); any other expression stays as it is.
-/

namespace ThemeRepair
namespace Template

/-- One entry of a mapping. -/
structure Argument where
  key : Text
  value : Text
deriving DecidableEq, Repr

/-- The inside of a string literal that holds no quote of its own kind. -/
def unquote? : Text → Option Text
  | q :: rest =>
    if isQuote q ∧ rest.getLast? = some q ∧ !rest.dropLast.contains q then some rest.dropLast
    else none
  | [] => none

/-- The entry that a piece between two commas holds: none without a colon or with an empty
key. -/
def Argument.ofEntry? (entry : Text) : Option Argument :=
  match splitTop ':' .outside 0 entry with
  | key :: part :: parts =>
    let key := Text.trim key
    let key := (unquote? key).getD key
    if key.isEmpty then none
    else some ⟨key, Text.trim ([':'].intercalate (part :: parts))⟩
  | _ => none

/-- The entries of a mapping, in order. -/
def arguments (body : Text) : List Argument :=
  (splitTop ',' .outside 0 body).filterMap Argument.ofEntry?

/-- The value of the first entry with a key. -/
def lookup (args : List Argument) (key : Text) : Option Text :=
  (args.find? fun a => a.key == key).map Argument.value

/-! ## Literals -/

/-- A text as a string literal. -/
def singleQuoted (t : Text) : Text := '\'' :: t ++ ['\'']

/-- A string literal, written with single quotes if it holds none; any other value as it is. -/
def requote (value : Text) : Text :=
  match unquote? value with
  | some inner => if inner.contains '\'' then value else singleQuoted inner
  | none => value

/-- Digits and nothing else. -/
def isDigits (t : Text) : Bool := !t.isEmpty && t.all Char.isDigit

/-- A level as a string literal: a bare number is quoted, a literal requoted. -/
def requoteLevel (value : Text) : Text :=
  if isDigits value then singleQuoted value else requote value

/-- The number that decimal digits denote, a plus sign in front allowed. -/
def decimal? (t : Text) : Option Nat :=
  let digits := (Text.after? ['+'] t).getD t
  if isDigits digits then
    some (digits.foldl (fun n c => 10 * n + (c.toNat - '0'.toNat)) 0)
  else none

/-- The heading level that a value denotes, bare or quoted. -/
def literalLevel? (value : Text) : Option Nat :=
  (decimal? ((unquote? value).getD value)).filter fun n => 1 ≤ n && n ≤ 6

end Template
end ThemeRepair

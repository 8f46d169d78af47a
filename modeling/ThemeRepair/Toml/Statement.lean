import ThemeRepair.Toml.Date
import ThemeRepair.Toml.Table

/-!
# Keys, values and statements

A settings file is a sequence of statements, one a line: a header, a header in double brackets, or
a key with its value.  Arrays and tables in braces may stand in one another, but not without
limit, and the same limit holds for the parts of a dotted key.
-/

namespace ThemeRepair
namespace Toml

/-- Levels of nesting that a file may use. -/
def nestingLimit : Nat := 79

/-- A dotted key: the path to a table, and the key in that table. -/
structure Key where
  path : List Text
  name : Text
deriving DecidableEq, Repr

/-! ## Keys -/

/-- The characters of a key that is not quoted. -/
def isKeyChar (c : Char) : Bool := c.isAlphanum || c == '_' || c == '-'

/-- Reads one part of a key. -/
def keyPart? (t : Text) : Option (Text × Text) :=
  match t with
  | '"' :: rest => lineString? .double rest
  | '\'' :: rest => lineString? .single rest
  | _ => if (t.takeWhile isKeyChar).isEmpty then none
    else some (t.takeWhile isKeyChar, t.dropWhile isKeyChar)

/-- Reads the parts of a dotted key, of which there are at most `limit`, with the blanks around
them. -/
def keyParts? : (limit : Nat) → Text → Option (List Text × Text)
  | 0, _ => none
  | limit + 1, t => do
    let (part, rest) ← keyPart? (skipBlanks t)
    match skipBlanks rest with
    | '.' :: rest =>
      let (parts, rest) ← keyParts? limit rest
      return (part :: parts, rest)
    | rest => return ([part], rest)

/-- Reads a dotted key. -/
def key? (t : Text) : Option (Key × Text) := do
  let (parts, rest) ← keyParts? nestingLimit t
  let name ← parts.getLast?
  return (⟨parts.dropLast, name⟩, rest)

/-! ## Values -/

/-- Reads a value that holds no other values. -/
def scalar? (t : Text) : Option (Value × Text) :=
  match t with
  | '"' :: _ => (string? .double t).map fun p => (.string p.1, p.2)
  | '\'' :: _ => (string? .single t).map fun p => (.string p.1, p.2)
  | _ =>
    match Text.after? "true".toList t, Text.after? "false".toList t with
    | some rest, _ => some (.boolean true, rest)
    | none, some rest => some (.boolean false, rest)
    | none, none => ((date? t).or (float? t)).or (integer? t)

/-- Reads the elements of an array, from behind its opening bracket, at most `fuel` of them. -/
def elements? (value? : Text → Option (Value × Text)) :
    (fuel : Nat) → Text → Option (List Value × Text)
  | 0, _ => none
  | fuel + 1, t =>
    match skipSpace false t with
    | ']' :: rest => some ([], rest)
    | t => do
      let (v, rest) ← value? t
      match skipSpace false rest with
      | ',' :: rest =>
        let (vs, rest) ← elements? value? fuel rest
        return (v :: vs, rest)
      | ']' :: rest => return ([v], rest)
      | _ => none

/-- Reads a key, the equals sign and a value. -/
def pair? (value? : Text → Option (Value × Text)) (t : Text) :
    Option ((Key × Value) × Text) := do
  let (key, rest) ← key? t
  let (v, rest) ← value? (skipBlanks (← Text.after? ['='] rest))
  return ((key, v), rest)

/-- Reads the pairs of a table in braces, at most `fuel` of them.  A comma has to be followed by
another pair. -/
def pairs? (value? : Text → Option (Value × Text)) :
    (fuel : Nat) → Text → Option (List (Key × Value) × Text)
  | 0, _ => none
  | fuel + 1, t => do
    let (pair, rest) ← pair? value? t
    match skipBlanks rest with
    | ',' :: rest =>
      let (pairs, rest) ← pairs? value? fuel rest
      return (pair :: pairs, rest)
    | '}' :: rest => return ([pair], rest)
    | _ => none

/-- The table that pairs make up. -/
def Entries.ofPairs? (pairs : List (Key × Value)) : Option Entries :=
  pairs.foldlM (fun es p => es.assign p.1.name p.2 p.1.path) []

/-- Reads an array, from behind its opening bracket. -/
def array? (value? : Text → Option (Value × Text)) (t : Text) : Option (Value × Text) :=
  (elements? value? (t.length + 1) t).map fun p => (.array p.1, p.2)

/-- Reads a table in braces, from behind the opening one. -/
def bracedTable? (value? : Text → Option (Value × Text)) (t : Text) : Option (Value × Text) :=
  match skipBlanks t with
  | '}' :: rest => some (.table .braces [], rest)
  | _ => do
    let (pairs, rest) ← pairs? value? (t.length + 1) t
    return (.table .braces (← Entries.ofPairs? pairs), rest)

/-- Reads a value, in which arrays and tables nest at most `levels` deep. -/
def value? : (levels : Nat) → Text → Option (Value × Text)
  | 0, t => scalar? t
  | levels + 1, t =>
    match t with
    | '[' :: rest => array? (value? levels) rest
    | '{' :: rest => bracedTable? (value? levels) rest
    | _ => scalar? t

/-! ## Statements -/

/-- A statement. -/
inductive Statement where
  /-- Opens a table. -/
  | table (key : Key)
  /-- Opens one more table of a list of tables. -/
  | element (key : Key)
  /-- Gives a key of the open table a value. -/
  | pair (key : Key) (v : Value)

/-- Reads a header: its key, and what follows its closing brackets. -/
def header? (close t : Text) : Option (Key × Text) := do
  let (key, rest) ← key? t
  return (key, ← Text.after? close rest)

/-- Reads a statement. -/
def statement? (t : Text) : Option (Statement × Text) :=
  match t with
  | '[' :: '[' :: rest => (header? [']', ']'] rest).map fun p => (.element p.1, p.2)
  | '[' :: rest => (header? [']'] rest).map fun p => (.table p.1, p.2)
  | _ => (pair? (value? nestingLimit) t).map fun p => (.pair p.1.1 p.1.2, p.2)

/-- Reads statements up to the end of a text, at most `fuel` of them. -/
def statements? : (fuel : Nat) → Text → Option (List Statement)
  | 0, _ => none
  | fuel + 1, t =>
    match skipSpace false t with
    | [] => some []
    | t => do
      let (s, rest) ← statement? t
      let rest ← afterLine? rest
      return s :: (← statements? fuel rest)

end Toml
end ThemeRepair

import ThemeRepair.Glob.Matching

/-!
# The regular expression of a glob

A glob stands for a regular expression over bytes.  Groups, alternations, concatenations,
repetitions and classes nest in it, and an expression that nests too deep is refused.  The text of
the expression is what such a refusal quotes.
-/

namespace ThemeRepair
namespace Glob

/-! ## Depth -/

/-- What a row of tokens is in an expression: of how many parts it consists, and how deep the
deepest of them nests. -/
structure Nesting where
  parts : Nat
  depth : Nat
deriving DecidableEq, Repr

namespace Nesting

/-- Two rows one behind the other. -/
def append (a b : Nesting) : Nesting := ⟨a.parts + b.parts, max a.depth b.depth⟩

/-- How deep a row nests as a whole: several parts are a concatenation. -/
def total (a : Nesting) : Nat := if a.parts ≤ 1 then a.depth else a.depth + 1

end Nesting

mutual

/-- The nesting of a token. -/
def Token.nesting : Token → Nesting
  | .literal c => ⟨c.utf8Size, 0⟩
  | .anyByte => ⟨1, 0⟩
  | .anyBytes => ⟨1, 1⟩
  | .leadingDirectories => ⟨1, 4⟩
  | .innerDirectories => ⟨1, 4⟩
  | .trailingPath => ⟨2, 1⟩
  | .charClass c => ⟨1, if c.bytes.length ≤ 1 then 1 else 2⟩
  | .alternatives branches =>
    match branchDepths branches with
    | [] => ⟨0, 0⟩
    | [depth] => ⟨1, depth + 1⟩
    | depths => ⟨1, depths.foldl max 0 + 2⟩

/-- The nesting of tokens in a row. -/
def rowNesting : List Token → Nesting
  | [] => ⟨0, 0⟩
  | t :: ts => t.nesting.append (rowNesting ts)

/-- How deep the branches nest that stand for some text. -/
def branchDepths : List (List Token) → List Nat
  | [] => []
  | branch :: branches =>
    if isVoidRow branch then branchDepths branches
    else (rowNesting branch).total :: branchDepths branches

end

/-- The depth to which an expression may nest. -/
def depthLimit : Nat := 250

/-- The expression of a glob nests too deep.  The marks of its beginning and its end make it a
concatenation. -/
def isTooDeep (g : Glob) : Bool := depthLimit < (rowNesting g.row).depth + 1

/-! ## Text -/

/-- The characters that have a meaning of their own in an expression. -/
def metaCharacters : List Char :=
  ['\\', '.', '+', '*', '?', '(', ')', '|', '[', ']', '\x7b', '\x7d', '^', '$', '#', '&', '-', '~']

/-- A byte in an expression. -/
def byteText (b : UInt8) : String :=
  let c := Char.ofNat b.toNat
  if b < 0x80 then (if metaCharacters.contains c then "\\" ++ c.toString else c.toString)
  else "\\x" ++ String.ofList (Nat.toDigits 16 b.toNat)

/-- A character in an expression. -/
def charText (c : Char) : String := String.join ((charBytes c).map byteText)

/-- A range of characters in an expression. -/
def rangeText (r : Char × Char) : String :=
  if r.1 = r.2 then charText r.1 else charText r.1 ++ "-" ++ charText r.2

mutual

/-- A token in an expression. -/
def Token.text : Token → String
  | .literal c => charText c
  | .anyByte => "."
  | .anyBytes => ".*"
  | .leadingDirectories => "(?:/?|.*/)"
  | .innerDirectories => "(?:/|/.*/)"
  | .trailingPath => "/.*"
  | .charClass c =>
    "[" ++ (if c.negated then "^" else "") ++ String.join (c.ranges.map rangeText) ++ "]"
  | .alternatives branches =>
    match branchTexts branches with
    | [] => ""
    | texts => "(?:" ++ "|".intercalate texts ++ ")"

/-- Tokens in a row in an expression. -/
def rowText : List Token → String
  | [] => ""
  | t :: ts => t.text ++ rowText ts

/-- The branches that stand for some text, in an expression. -/
def branchTexts : List (List Token) → List String
  | [] => []
  | branch :: branches =>
    if isVoidRow branch then branchTexts branches else rowText branch :: branchTexts branches

end

/-- The text of the expression of a glob. -/
def expression (g : Glob) : String :=
  match g.row with
  | [.leadingDirectories] => "(?-u)^.*$"
  | tokens => "(?-u)^" ++ rowText tokens ++ "$"

end Glob
end ThemeRepair

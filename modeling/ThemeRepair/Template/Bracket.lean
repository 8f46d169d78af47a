import ThemeRepair.Text.Basic

/-!
# Brackets and string literals in template expressions

A template expression is scanned from left to right.  Inside a string literal, which either kind
of quote opens and the same kind closes, a backslash takes the next character along and brackets
do not count.  Outside literals every opening bracket, of whatever kind, goes one level deeper
and every closing one comes back.

`splitAtClose` cuts a text at the bracket that closes the one before it; `splitTop` cuts it at
the separators that stand on its own level, and loses nothing (`intercalate_splitTop`).
-/

namespace ThemeRepair
namespace Template

/-- Where a scan stands: outside string literals, or inside one that a quote opened, right behind
a backslash or not. -/
inductive Quoting where
  | outside
  | inside (quote : Char) (escaped : Bool)
deriving DecidableEq, Repr

/-- The characters that open and close string literals. -/
def isQuote (c : Char) : Bool := c == '\'' || c == '"'

/-- The brackets that go one level deeper. -/
def isOpening (c : Char) : Bool := c == '(' || c == '[' || c == '{'

/-- The brackets that come back one level. -/
def isClosing (c : Char) : Bool := c == ')' || c == ']' || c == '}'

namespace Quoting

/-- The place behind a character. -/
def step : Quoting → Char → Quoting
  | outside, c => if isQuote c then inside c false else outside
  | inside q true, _ => inside q false
  | inside q false, c =>
    if c = '\\' then inside q true else if c = q then outside else inside q false

/-- A character at this place is neither part of a literal nor a quote that opens one. -/
def shows (q : Quoting) (c : Char) : Bool := q = outside && !isQuote c

end Quoting

/-- The depth behind a character; only brackets outside literals change it, and it does not sink
below the ground level. -/
def Quoting.depthAfter (q : Quoting) (depth : Nat) (c : Char) : Nat :=
  if q.shows c then
    if isOpening c then depth + 1 else if isClosing c then depth - 1 else depth
  else depth

/-- Cuts a text at the bracket that closes the level the text begins on: what stands before that
bracket, and what stands behind it.  `depth` levels have been opened since. -/
def splitAtClose : Quoting → (depth : Nat) → Text → Option (Text × Text)
  | _, _, [] => none
  | q, depth, c :: t =>
    if q.shows c && isClosing c && depth == 0 then some ([], t)
    else (splitAtClose (q.step c) (q.depthAfter depth c) t).map fun p => (c :: p.1, p.2)

/-- Puts a character in front of the first of several parts. -/
def consFirst (c : Char) : List Text → List Text
  | [] => [[c]]
  | part :: parts => (c :: part) :: parts

/-- Cuts a text at each separator that stands outside literals and on the ground level. -/
def splitTop (separator : Char) : Quoting → (depth : Nat) → Text → List Text
  | _, _, [] => [[]]
  | q, depth, c :: t =>
    if q.shows c && c == separator && depth == 0 then [] :: splitTop separator q 0 t
    else consFirst c (splitTop separator (q.step c) (q.depthAfter depth c) t)

theorem splitTop_ne_nil (separator : Char) (q : Quoting) (depth : Nat) (t : Text) :
    splitTop separator q depth t ≠ [] := by
  cases t with
  | nil => simp [splitTop]
  | cons c t =>
    rw [splitTop]
    split
    · simp
    · cases splitTop separator (q.step c) (q.depthAfter depth c) t <;> simp [consFirst]

theorem intercalate_consFirst (separator : Text) (c : Char) {parts : List Text}
    (h : parts ≠ []) :
    separator.intercalate (consFirst c parts) = c :: separator.intercalate parts := by
  cases parts with
  | nil => exact absurd rfl h
  | cons part parts => cases parts <;> simp [consFirst, List.intercalate]

/-- Joined by the separator, the parts of a text are the text. -/
theorem intercalate_splitTop (separator : Char) (q : Quoting) (depth : Nat) (t : Text) :
    [separator].intercalate (splitTop separator q depth t) = t := by
  induction t generalizing q depth with
  | nil => rfl
  | cons c t ih =>
    rw [splitTop]
    split
    · next hc =>
      have hsep : c = separator := by simp at hc; exact hc.1.2
      cases hparts : splitTop separator q 0 t with
      | nil => exact absurd hparts (splitTop_ne_nil separator q 0 t)
      | cons part parts =>
        have := ih q 0
        rw [hparts] at this
        simp [List.intercalate] at this ⊢
        exact ⟨hsep.symm, this⟩
    · rw [intercalate_consFirst _ _ (splitTop_ne_nil _ _ _ _), ih]

end Template
end ThemeRepair

/-!
# Text and the byte offsets into it

A text is its list of characters.  A *place* in it is a byte offset into its UTF-8 form, so an
offset names a place only where a character begins or the text ends.  The functions here that
take offsets answer `none` everywhere else:

* `Text.splitAt?` cuts a text in two at an offset;
* `Text.slice?` reads the text of a span, `Text.splice?` writes another text over it;
* `Text.size_append` and `Text.splitAt?_eq_some_iff` tie offsets to concatenation: a text is cut
  at an offset exactly where it is the concatenation of two texts and the offset is the size of
  the first.
-/

namespace ThemeRepair

/-- A text is its list of characters. -/
abbrev Text := List Char

/-- A stretch of a text between two byte offsets, the second one excluded. -/
structure Span where
  start : Nat
  stop : Nat
deriving DecidableEq, Repr

namespace Text

/-! ## Size and cuts -/

/-- The number of bytes of the UTF-8 form. -/
def size : Text → Nat
  | [] => 0
  | c :: t => c.utf8Size + size t

/-- Cuts a text at a byte offset; `none` where no character begins and the text does not end. -/
def splitAt? : Text → Nat → Option (Text × Text)
  | t, 0 => some ([], t)
  | [], _ + 1 => none
  | c :: t, n + 1 =>
    if c.utf8Size ≤ n + 1 then
      (splitAt? t (n + 1 - c.utf8Size)).map fun p => (c :: p.1, p.2)
    else none

/-- The text of a span; `none` if the span runs backwards or cuts a character. -/
def slice? (t : Text) (s : Span) : Option Text :=
  if s.start ≤ s.stop then
    match splitAt? t s.start with
    | some (_, rest) => (splitAt? rest (s.stop - s.start)).map Prod.fst
    | none => none
  else none

/-- The text of a span, empty where the span names no stretch of the text. -/
def slice (t : Text) (s : Span) : Text := (slice? t s).getD []

/-- The text with another one written over a span: all before its start, the new text, and all
from its stop on. -/
def splice? (t : Text) (s : Span) (new : Text) : Option Text :=
  match splitAt? t s.start, splitAt? t s.stop with
  | some (before, _), some (_, after) => some (before ++ new ++ after)
  | _, _ => none

@[simp] theorem size_nil : size [] = 0 := rfl

@[simp] theorem size_cons (c : Char) (t : Text) : size (c :: t) = c.utf8Size + size t := rfl

@[simp] theorem size_append (t u : Text) : size (t ++ u) = size t + size u := by
  induction t with
  | nil => simp
  | cons c t ih => simp [ih, Nat.add_assoc]

/-- The size of the first part is a place where the concatenation can be cut. -/
theorem splitAt?_append (t u : Text) : splitAt? (t ++ u) (size t) = some (t, u) := by
  induction t with
  | nil => cases u <;> rfl
  | cons c t ih =>
    have hc := c.utf8Size_pos
    obtain ⟨n, hn⟩ : ∃ n, c.utf8Size + size t = n + 1 := ⟨c.utf8Size + size t - 1, by omega⟩
    rw [List.cons_append, size_cons, hn, splitAt?, if_pos (by omega),
      show n + 1 - c.utf8Size = size t by omega, ih]
    rfl

/-- Cutting loses nothing, and the offset is the size of the first part. -/
theorem eq_append_of_splitAt? {t : Text} {n : Nat} {p : Text × Text}
    (h : splitAt? t n = some p) : t = p.1 ++ p.2 ∧ n = size p.1 := by
  fun_induction splitAt? t n generalizing p with
  | case1 t => cases h; simp
  | case2 => cases h
  | case3 c t n hc ih =>
    obtain ⟨q, hq, rfl⟩ := Option.map_eq_some_iff.1 h
    obtain ⟨rfl, hs⟩ := ih hq
    exact ⟨rfl, by simp only [size_cons]; omega⟩
  | case4 => cases h

/-- A text is cut at an offset exactly where it is a concatenation whose first part has that
size. -/
theorem splitAt?_eq_some_iff {t : Text} {n : Nat} {p : Text × Text} :
    splitAt? t n = some p ↔ t = p.1 ++ p.2 ∧ n = size p.1 := by
  constructor
  · exact eq_append_of_splitAt?
  · rintro ⟨rfl, rfl⟩
    exact splitAt?_append p.1 p.2

/-! ## White space and lines -/

/-- The characters with the Unicode property White_Space. -/
def isWhite (c : Char) : Bool :=
  let n := c.toNat
  (0x9 ≤ n && n ≤ 0xd) || n == 0x20 || n == 0x85 || n == 0xa0 || n == 0x1680
    || (0x2000 ≤ n && n ≤ 0x200a) || n == 0x2028 || n == 0x2029 || n == 0x202f
    || n == 0x205f || n == 0x3000

/-- The characters that indent a line: space and tab, one column each. -/
def isIndent (c : Char) : Bool := c == ' ' || c == '\t'

/-- Drops the longest run of elements at the end that all satisfy `p`. -/
def dropEndWhile {α : Type} (p : α → Bool) : List α → List α
  | [] => []
  | a :: l =>
    match dropEndWhile p l with
    | [] => if p a then [] else [a]
    | kept => a :: kept

/-- Drops the white space at the start. -/
def trimStart (t : Text) : Text := t.dropWhile isWhite

/-- Drops the white space at the end. -/
def trimEnd (t : Text) : Text := dropEndWhile isWhite t

/-- Drops the white space at both ends. -/
def trim (t : Text) : Text := trimEnd (trimStart t)

/-- Nothing but white space. -/
def isAllWhite (t : Text) : Bool := t.all isWhite

/-- The number of line ends before a byte offset. -/
def lineEndsBefore : Text → Nat → Nat
  | _, 0 => 0
  | [], _ + 1 => 0
  | c :: t, n + 1 => (if c = '\n' then 1 else 0) + lineEndsBefore t (n + 1 - c.utf8Size)

/-- The number of the line that a byte offset lies on, counted from 1. -/
def lineNumber (t : Text) (offset : Nat) : Nat := lineEndsBefore t offset + 1

/-- The indentation of the line that a byte offset lies on. -/
def indentationAt (t : Text) (offset : Nat) : Text :=
  match splitAt? t offset with
  | some (before, after) =>
    ((before.reverse.takeWhile (· != '\n')).reverse ++ after).takeWhile isIndent
  | none => []

/-! ## Prefixes -/

/-- What follows a literal at the start of a text; `none` where it does not start so. -/
def after? : (literal : Text) → Text → Option Text
  | [], t => some t
  | _ :: _, [] => none
  | l :: ls, c :: t => if l = c then after? ls t else none

@[simp] theorem after?_append (l t : Text) : after? l (l ++ t) = some t := by
  induction l with
  | nil => rfl
  | cons c l ih => simp [after?, ih]

theorem eq_append_of_after? {l t r : Text} (h : after? l t = some r) : t = l ++ r := by
  fun_induction after? l t with
  | case1 t => cases h; rfl
  | case2 => cases h
  | case3 l t _ ih => simp [ih h]
  | case4 => cases h

end Text
end ThemeRepair

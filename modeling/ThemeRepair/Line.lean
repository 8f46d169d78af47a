import ThemeRepair.Text.Basic

/-!
# Lines of an indented text

A line is its content and its ending, kept apart, so that reading a text into lines and joining
them again loses nothing (`Line.join_ofText`).  A line ends with a line feed; one carriage return
right before the end of a line belongs to the ending, also on a last line that has no line feed.

What a line says is read from its content alone: its *depth* is the number of spaces and tabs it
starts with, its *body* is the rest, and it *declares a key* if its body starts with an
identifier and a colon.  Lines that are blank or hold only a comment are not *content lines*:
they are read over wherever the structure of a text is decided.
-/

namespace ThemeRepair

/-- One physical line. -/
structure Line where
  content : Text
  ending : Text
deriving DecidableEq, Repr

namespace Line

/-! ## Reading and joining -/

/-- The line as it stands in the text. -/
def toText (l : Line) : Text := l.content ++ l.ending

/-- The number of bytes of a line, its ending included. -/
def size (l : Line) : Nat := Text.size l.toText

/-- Puts one character in front of lines.  In front of a bare line feed, or of the end of the
text, a carriage return joins the ending. -/
def consChar (c : Char) : List Line → List Line
  | [] => if c = '\r' then [⟨[], [c]⟩] else [⟨[c], []⟩]
  | l :: ls =>
    if c = '\r' ∧ l.content = [] ∧ l.ending = ['\n'] then ⟨[], c :: l.ending⟩ :: ls
    else ⟨c :: l.content, l.ending⟩ :: ls

/-- The lines of a text. -/
def ofText : Text → List Line
  | [] => []
  | c :: t => if c = '\n' then ⟨[], [c]⟩ :: ofText t else consChar c (ofText t)

/-- The text that lines make up. -/
def join (ls : List Line) : Text := ls.flatMap toText

/-- The number of bytes that lines take up. -/
def total : List Line → Nat
  | [] => 0
  | l :: ls => l.size + total ls

theorem join_consChar (c : Char) (ls : List Line) : join (consChar c ls) = c :: join ls := by
  cases ls with
  | nil => by_cases h : c = '\r' <;> simp [consChar, join, toText, h]
  | cons l ls =>
    by_cases h : c = '\r' ∧ l.content = [] ∧ l.ending = ['\n']
    · simp [consChar, join, toText, h]
    · simp [consChar, join, toText, h]

/-- Reading a text into lines loses nothing. -/
@[simp] theorem join_ofText (t : Text) : join (ofText t) = t := by
  induction t with
  | nil => rfl
  | cons c t ih =>
    by_cases h : c = '\n'
    · rw [ofText, if_pos h, join, List.flatMap_cons]
      simpa [toText, join] using ih
    · rw [ofText, if_neg h, join_consChar, ih]

@[simp] theorem join_append (ls ms : List Line) : join (ls ++ ms) = join ls ++ join ms := by
  simp [join]

@[simp] theorem total_nil : total [] = 0 := rfl

@[simp] theorem total_cons (l : Line) (ls : List Line) : total (l :: ls) = l.size + total ls := rfl

@[simp] theorem total_append (ls ms : List Line) : total (ls ++ ms) = total ls + total ms := by
  induction ls with
  | nil => simp
  | cons l ls ih => simp [ih, Nat.add_assoc]

/-- The bytes that lines take up are those of the text they make up. -/
theorem total_eq_size_join (ls : List Line) : total ls = Text.size (join ls) := by
  induction ls with
  | nil => rfl
  | cons l ls ih => simpa [join, size] using ih

/-! ## Indentation, content and keys -/

/-- The spaces and tabs that a line starts with. -/
def indentation (l : Line) : Text := l.content.takeWhile Text.isIndent

/-- The number of spaces and tabs that a line starts with. -/
def depth (l : Line) : Nat := l.indentation.length

/-- The content after the indentation. -/
def body (l : Line) : Text := l.content.dropWhile Text.isIndent

/-- Neither blank nor a mere comment. -/
def isContent (l : Line) : Bool := !Text.isAllWhite l.body && l.body.head? != some '#'

/-- The characters that a key may start with. -/
def isKeyStart (c : Char) : Bool := c.isAlpha || c == '_'

/-- The characters that a key may go on with. -/
def isKeyPart (c : Char) : Bool := c.isAlphanum || c == '_' || c == '-'

/-- The key that a text starts with: an identifier and a colon, after which the text ends or a
space or tab stands. -/
def keyOf? (t : Text) : Option Text :=
  if t.head?.any isKeyStart then
    match t.dropWhile isKeyPart with
    | ':' :: rest => if rest.head?.all Text.isIndent then some (t.takeWhile isKeyPart) else none
    | _ => none
  else none

/-- The key that a line declares. -/
def key? (l : Line) : Option Text := keyOf? l.body

/-- A content line that declares the key. -/
def declares (key : Text) (l : Line) : Bool := l.isContent && l.key? == some key

/-! ## Nesting -/

/-- The lines nested below a line of the given depth, of those that follow it: all up to the
first content line that is not deeper, less the blank and comment lines at the end. -/
def nested (depth : Nat) (ls : List Line) : List Line :=
  Text.dropEndWhile (fun l => !l.isContent)
    (ls.takeWhile fun l => !l.isContent || depth < l.depth)

/-- Spaces and tabs both indent the content lines among these. -/
def mixesIndentation (ls : List Line) : Bool :=
  let marks := (ls.filter isContent).flatMap indentation
  marks.contains ' ' && marks.contains '\t'

/-! ## Comments -/

/-- What stands before a comment, from a place that is inside quotes or not, and follows a space
or not. -/
def uncommentedFrom : (quote : Option Char) → (afterSpace : Bool) → Text → Text
  | _, _, [] => []
  | some q, _, c :: t =>
    c :: uncommentedFrom (if c = q then none else some q) (Text.isIndent c) t
  | none, afterSpace, c :: t =>
    if c = '#' ∧ afterSpace then []
    else c :: uncommentedFrom (if c = '\'' ∨ c = '"' then some c else none) (Text.isIndent c) t

/-- A value without the comment behind it.  A comment starts at a number sign outside quotes that
stands first or follows a space or tab. -/
def uncommented (value : Text) : Text := uncommentedFrom none true value

end Line
end ThemeRepair

import ThemeRepair.Line

/-!
# Regions: the block that a key line opens

A region is a line that declares a key together with the lines nested below it.  It is kept as
the place where it cuts the lines of its text: the lines before it, its header, its body, and the
lines after it.  So a region determines its text (`Region.text`), and every offset of it is a sum
of line sizes.

A region is looked for by its key in four ways: the first one anywhere (`Region.find`), the first
one that is not indented (`Region.findSection`), the first one that is a direct child of another
(`Region.child`), and all that lie inside another, a match inside an earlier match left out
(`Region.descendants`).  A region whose header and content lines are indented with spaces and
tabs both has no reliable extent and is refused.
-/

namespace ThemeRepair

/-- Why a region is refused. -/
inductive RegionError where
  /-- Spaces and tabs both indent the region of the key that is declared on a line. -/
  | ambiguous (keyword : Text) (line : Nat)
deriving DecidableEq, Repr

/-- The wording of a refusal. -/
def RegionError.message : RegionError → String
  | .ambiguous keyword line =>
    "ambiguous indentation in `" ++ String.ofList keyword ++ "` region at line " ++ toString line
      ++ ": mixed tabs and spaces"

/-- A key line and the lines nested below it, at their place in the lines of a text. -/
structure Region where
  before : List Line
  header : Line
  keyword : Text
  body : List Line
  after : List Line
deriving DecidableEq, Repr

namespace Region

/-! ## Place and extent -/

/-- The lines of the text that the region lies in. -/
def lines (r : Region) : List Line := r.before ++ r.header :: (r.body ++ r.after)

/-- The text that the region lies in. -/
def text (r : Region) : Text := Line.join r.lines

/-- The indentation of the header. -/
def depth (r : Region) : Nat := r.header.depth

/-- The offset of the header. -/
def start (r : Region) : Nat := Line.total r.before

/-- The offset of the line below the header. -/
def bodyStart (r : Region) : Nat := r.start + r.header.size

/-- The offset at which the region ends: the end of the last line nested below the header, or of
the header itself. -/
def stop (r : Region) : Nat := r.bodyStart + Line.total r.body

/-- The stretch from the header to the end of the region. -/
def span (r : Region) : Span := ⟨r.start, r.stop⟩

/-- The number of the header's line, counted from 1. -/
def lineNumber (r : Region) : Nat := r.before.length + 1

/-- The text of the lines nested below the header. -/
def raw (r : Region) : Text := Line.join r.body

/-! ## The value on the header line -/

/-- What the header says after the colon, less a comment. -/
def value (r : Region) : Text := Line.uncommented (r.header.body.drop (r.keyword.length + 1))

/-- The value without the white space around it; empty for the block form. -/
def inline (r : Region) : Text := Text.trim r.value

/-- The stretch of the value, from right behind the colon. -/
def valueSpan (r : Region) : Span :=
  let colon := r.start + Text.size r.header.indentation + Text.size r.keyword + 1
  ⟨colon, colon + Text.size r.value⟩

/-- The stretch of the value without the white space around it. -/
def inlineSpan (r : Region) : Span :=
  let first := r.valueSpan.stop - Text.size (Text.trimStart r.value)
  ⟨first, first + Text.size r.inline⟩

/-- The header carries no value. -/
def isBlock (r : Region) : Bool := r.inline.isEmpty

/-! ## The body -/

/-- The first content line of the body. -/
def firstContent? (r : Region) : Option Line := r.body.find? Line.isContent

/-- The body holds something besides blank and comment lines. -/
def hasContent (r : Region) : Bool := r.firstContent?.isSome

/-- The indentation of the first content line of the body. -/
def childDepth? (r : Region) : Option Nat := r.firstContent?.map Line.depth

/-- The offset of the first content line of the body. -/
def firstContentStart (r : Region) : Nat :=
  r.bodyStart + Line.total (r.body.takeWhile fun l => !l.isContent)

/-- The next content line behind the region declares a key, or there is none. -/
def isFollowedByKey (r : Region) : Bool :=
  match r.after.find? Line.isContent with
  | some l => l.key?.isSome
  | none => true

/-! ## Looking for a region -/

/-- The region that a header opens among the lines that follow it.  `after` are the lines beyond
those, which the region cannot reach. -/
def capture (keyword : Text) (before : List Line) (header : Line) (rest after : List Line) :
    Except RegionError Region :=
  let body := Line.nested header.depth rest
  if Line.mixesIndentation (header :: body) then
    .error (.ambiguous keyword (before.length + 1))
  else .ok ⟨before, header, keyword, body, rest.drop body.length ++ after⟩

/-- The first region among `among` whose header declares the key and passes a test. -/
def locate (keyword : Text) (admits : Line → Bool) (before among after : List Line) :
    Except RegionError (Option Region) :=
  let passed := among.takeWhile fun l => !(l.declares keyword && admits l)
  match among.drop passed.length with
  | [] => .ok none
  | header :: rest => (capture keyword (before ++ passed) header rest after).map some

/-- The first region of a key, at any depth. -/
def find (keyword : Text) (ls : List Line) : Except RegionError (Option Region) :=
  locate keyword (fun _ => true) [] ls []

/-- The first region of a key whose header is not indented. -/
def findSection (keyword : Text) (ls : List Line) : Except RegionError (Option Region) :=
  locate keyword (fun l => l.depth == 0) [] ls []

/-- The first region of a key inside another one, with the indentation that the other one's
content starts with. -/
def child (parent : Region) (keyword : Text) : Except RegionError (Option Region) :=
  match parent.childDepth? with
  | some depth =>
    locate keyword (fun l => l.depth == depth) (parent.before ++ [parent.header]) parent.body
      parent.after
  | none => .ok none

/-- The regions of a key among lines of which the first `taken` belong to a region found
before. -/
def descendantsAmong (keyword : Text) (after : List Line) :
    (before : List Line) → (taken : Nat) → List Line → Except RegionError (List Region)
  | _, _, [] => .ok []
  | before, taken + 1, l :: ls =>
    descendantsAmong keyword after (before ++ [l]) taken ls
  | before, 0, l :: ls =>
    if l.declares keyword then do
      let r ← capture keyword before l ls after
      let rs ← descendantsAmong keyword after (before ++ [l]) r.body.length ls
      return r :: rs
    else descendantsAmong keyword after (before ++ [l]) 0 ls

/-- The regions of a key inside another one, at any depth; a match inside an earlier match is
part of that one and is not given again. -/
def descendants (parent : Region) (keyword : Text) : Except RegionError (List Region) :=
  descendantsAmong keyword parent.after (parent.before ++ [parent.header]) 0 parent.body

/-- A sequence without elements: brackets with nothing but white space between them. -/
def isEmptySequence : Text → Bool
  | '[' :: rest => rest.getLast? == some ']' && Text.isAllWhite rest.dropLast
  | _ => false

end Region
end ThemeRepair

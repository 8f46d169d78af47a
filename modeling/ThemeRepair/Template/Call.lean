import ThemeRepair.Template.Bracket

/-!
# Recognising old heading calls

An old heading call has one of two styles, an expression that calls `include` or an include
statement, and names one of the old heading templates.  It is recognised in three parts: a *head*
up to the brace that opens its arguments, the arguments up to the brace that closes them, and a
*tail*.  Each recogniser gives the part and the rest of the text behind it; no part leaves a
choice to the reader, so each gives at most one answer.

Heads do not overlap: the search goes on behind a head, whether the call that it begins is
accepted or not.
-/

namespace ThemeRepair
namespace Template

/-- The two styles of a call. -/
inductive CallStyle where
  | expression
  | statement
deriving DecidableEq, Repr

/-- The head of a call: whether it trims the white space before it, and the name of the template
it calls. -/
structure CallHead where
  trim : Bool
  name : Text
deriving DecidableEq, Repr

/-- The tail of a call: whether it trims the white space behind it, and whether it keeps the
context from the called template. -/
structure CallTail where
  trim : Bool
  only : Bool
deriving DecidableEq, Repr

/-! ## Pieces -/

/-- The rest behind any white space. -/
def afterWhite (t : Text) : Text := t.dropWhile Text.isWhite

/-- The rest behind white space that has to be there. -/
def afterSomeWhite? (t : Text) : Option Text :=
  if t.head?.any Text.isWhite then some (afterWhite t) else none

/-- A dash that may stand here, and the rest. -/
def optionalDash (t : Text) : Bool × Text :=
  match Text.after? ['-'] t with
  | some rest => (true, rest)
  | none => (false, t)

/-- A quote of either kind, and the rest. -/
def afterQuote? : Text → Option Text
  | c :: t => if isQuote c then some t else none
  | [] => none

/-- The name of a heading template: one of the six levels, or one of the two names for any
level. -/
def templateName? (t : Text) : Option (Text × Text) :=
  match t with
  | 'h' :: d :: rest =>
    if '1' ≤ d ∧ d ≤ '6' then some (['h', d], rest)
    else
      match Text.after? "heading".toList t, Text.after? "headline".toList t with
      | some rest, _ => some ("heading".toList, rest)
      | none, some rest => some ("headline".toList, rest)
      | none, none => none
  | _ => none

/-- The path of an old heading template, its name, and the rest. -/
def legacyTemplate? (legacyNamespace : Text) (t : Text) : Option (Text × Text) := do
  let t ← Text.after? legacyNamespace t
  let t ← Text.after? ['/'] t
  let t := (Text.after? "headline/".toList t).getD t
  let (name, t) ← templateName? t
  let t ← Text.after? ".html.twig".toList t
  return (name, t)

/-- The path of an old heading template between quotes, its name, and the rest. -/
def quotedTemplate? (legacyNamespace : Text) (t : Text) : Option (Text × Text) := do
  let t ← afterQuote? t
  let (name, t) ← legacyTemplate? legacyNamespace t
  let t ← afterQuote? t
  return (name, t)

/-- A text that is the path of an old heading template as a whole. -/
def isLegacyTemplate (legacyNamespace : Text) (t : Text) : Bool :=
  match legacyTemplate? legacyNamespace t with
  | some (_, rest) => rest.isEmpty
  | none => false

/-! ## Heads and tails -/

/-- The head that a text starts with, and the rest behind the brace that ends it. -/
def callHead? (legacyNamespace : Text) : CallStyle → Text → Option (CallHead × Text)
  | .expression, t => do
    let t ← Text.after? ['{', '{'] t
    let (trim, t) := optionalDash t
    let t ← Text.after? "include(".toList (afterWhite t)
    let (name, t) ← quotedTemplate? legacyNamespace (afterWhite t)
    let t ← Text.after? [','] (afterWhite t)
    let t ← Text.after? ['{'] (afterWhite t)
    return (⟨trim, name⟩, t)
  | .statement, t => do
    let t ← Text.after? ['{', '%'] t
    let (trim, t) := optionalDash t
    let t ← Text.after? "include".toList (afterWhite t)
    let t ← afterSomeWhite? t
    let (name, t) ← quotedTemplate? legacyNamespace t
    let t ← afterSomeWhite? t
    let t ← Text.after? "with".toList t
    let t ← afterSomeWhite? t
    let t ← Text.after? ['{'] t
    return (⟨trim, name⟩, t)

/-- The tail that a text starts with, and the rest behind it. -/
def callTail? : CallStyle → Text → Option (CallTail × Text)
  | .expression, t => do
    let t ← Text.after? [')'] (afterWhite t)
    let (trim, t) := optionalDash (afterWhite t)
    let t ← Text.after? ['}', '}'] t
    return (⟨trim, false⟩, t)
  | .statement, t => do
    let t := afterWhite t
    let (only, t) :=
      match Text.after? "only".toList t with
      | some rest => (true, afterWhite rest)
      | none => (false, t)
    let (trim, t) := optionalDash t
    let t ← Text.after? ['%', '}'] t
    return (⟨trim, only⟩, t)

/-! ## Search -/

/-- A head at its place: its offset, and the text behind it. -/
structure FoundHead where
  start : Nat
  head : CallHead
  rest : Text
deriving DecidableEq, Repr

/-- The heads in a text that begins at an offset, of which the first `taken` characters belong
to a head found before. -/
def headsFrom (legacyNamespace : Text) (style : CallStyle) :
    (offset : Nat) → (taken : Nat) → Text → List FoundHead
  | _, _, [] => []
  | offset, taken + 1, c :: t =>
    headsFrom legacyNamespace style (offset + c.utf8Size) taken t
  | offset, 0, c :: t =>
    match callHead? legacyNamespace style (c :: t) with
    | some (head, rest) =>
      ⟨offset, head, rest⟩ ::
        headsFrom legacyNamespace style (offset + c.utf8Size) (t.length - rest.length) t
    | none => headsFrom legacyNamespace style (offset + c.utf8Size) 0 t

/-- A call at its place: head, body of the arguments, tail, and the stretch of all three. -/
structure FoundCall where
  span : Span
  head : CallHead
  body : Text
  tail : CallTail
deriving DecidableEq, Repr

/-- The call that a head begins, if its arguments close and a tail follows. -/
def FoundHead.complete? (style : CallStyle) (text : Text) (h : FoundHead) : Option FoundCall := do
  let (body, behind) ← splitAtClose .outside 0 h.rest
  let (tail, rest) ← callTail? style behind
  return ⟨⟨h.start, Text.size text - Text.size rest⟩, h.head, body, tail⟩

/-- The calls of one style in a text. -/
def callsOfStyle (legacyNamespace : Text) (style : CallStyle) (text : Text) : List FoundCall :=
  (headsFrom legacyNamespace style 0 0 text).filterMap (FoundHead.complete? style text)

/-- The calls in a text, those of the one style before those of the other. -/
def callsByStyle (legacyNamespace : Text) (text : Text) : List FoundCall :=
  callsOfStyle legacyNamespace .expression text ++ callsOfStyle legacyNamespace .statement text

end Template
end ThemeRepair

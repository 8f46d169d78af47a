import ThemeRepair.Fix
import ThemeRepair.Settings.Basic
import ThemeRepair.Template.Argument
import ThemeRepair.Template.Call

/-!
# Heading calls in their keyed form

An old heading call becomes a call of one target template whose arguments are grouped under one
key.  The level of the heading is that of the template's name, or else that of a literal `level`
argument; a call without a level is left alone.  Arguments are taken by key.  Of an `attributes`
expression only the `id` it sets is kept, and unknown keys are dropped.
-/

namespace ThemeRepair
namespace Template

/-! ## The id of an attributes expression -/

/-- The setting of an id that a text starts with: the text behind the opening bracket, and the
text behind the comma. -/
def idSetting? (t : Text) : Option (Text × Text) := do
  let inner ← Text.after? "setAttribute(".toList t
  let t ← afterQuote? (afterWhite inner)
  let t ← Text.after? "id".toList t
  let t ← afterQuote? t
  let rest ← Text.after? [','] (afterWhite t)
  return (inner, rest)

/-- The first setting of an id in a text. -/
def firstIdSetting? : Text → Option (Text × Text)
  | [] => none
  | c :: t =>
    match idSetting? (c :: t) with
    | some found => some found
    | none => firstIdSetting? t

/-- The value that an attributes expression sets the id to. -/
def idOf? (attributes : Text) : Option Text := do
  let (inner, rest) ← firstIdSetting? attributes
  let (inside, _) ← splitAtClose .outside 0 inner
  let value := Text.trim (inside.drop (inner.length - rest.length))
  if value.isEmpty then none else some value

/-! ## From the arguments found to the arguments written -/

/-- The level in the name of a template. -/
def levelOfName? : Text → Option Nat
  | 'h' :: digits => decimal? digits
  | _ => none

/-- The level of a heading: that in the name of its template, or else that of its `level`
argument. -/
def headingLevel? (name : Text) (level : Option Text) : Option Nat :=
  match levelOfName? name with
  | some n => some n
  | none => level.bind literalLevel?

/-- The arguments of a heading of a level. -/
def headingArgs (args : List Argument) (level : Nat) : HeadingArgs where
  title := (lookup args "content".toList).getD ['\'', '\'']
  asTag := ((lookup args "as".toList).map requote).getD
    (singleQuoted ('h' :: (toString level).toList))
  visualLevel := ((lookup args "level".toList).map requoteLevel).getD
    (singleQuoted (toString level).toList)
  additionalClasses := (lookup args "color".toList).map requote
  id := (lookup args "attributes".toList).bind idOf?

/-! ## Writing -/

/-- The fields of a heading, in order. -/
def fields (args : HeadingArgs) : List Text :=
  ["title: ".toList ++ args.title, "as: ".toList ++ args.asTag,
    "visual_level: ".toList ++ args.visualLevel]
  ++ (args.additionalClasses.map ("additional_classes: ".toList ++ ·)).toList
  ++ (args.id.map ("id: ".toList ++ ·)).toList

/-- The group of a heading's arguments, between the braces of the call. -/
def renderGroup (group indent : Text) (args : HeadingArgs) : Text :=
  let lines := (fields args).map fun field => indent ++ "    ".toList ++ field
  ['\n'] ++ indent ++ "  ".toList ++ group ++ [':', ' ', '{', '\n']
    ++ [',', '\n'].intercalate lines ++ ['\n'] ++ indent ++ [' ', ' ', '}', '\n'] ++ indent

/-- A heading call in its keyed form, on a line of the given indentation. -/
def render (settings : Settings.Headings) (indent : Text) (args : HeadingArgs)
    (trimBefore trimAfter only : Bool) : Text :=
  ['{', '{'] ++ (if trimBefore then ['-'] else []) ++ " include('".toList
    ++ settings.targetTemplate ++ ['\'', ',', ' ', '{']
    ++ renderGroup settings.argumentGroup indent args
    ++ ['}'] ++ (if only then ", with_context = false".toList else [])
    ++ ") ".toList ++ (if trimAfter then ['-'] else []) ++ ['}', '}']

/-- The keyed form of a call, if it has a level. -/
def headingCall? (settings : Settings.Headings) (text : Text) (c : FoundCall) :
    Option HeadingCall := do
  let args := arguments c.body
  let level ← headingLevel? c.head.name (lookup args "level".toList)
  let args := headingArgs args level
  return {
    level := level
    args := args
    replacement := render settings (Text.indentationAt text c.span.start) args c.head.trim
      c.tail.trim c.tail.only }

/-! ## Findings -/

/-- The finding that a call gives rise to. -/
def finding? (settings : Settings.Headings) (path : String) (text : Text) (c : FoundCall) :
    Option Finding :=
  (headingCall? settings text c).map fun call =>
    Finding.locatedAt path text c.span (.legacyCall call)

/-- The old heading calls in a template, in the order of the text. -/
def findCalls (settings : Settings.Headings) (path : String) (text : Text) : List Finding :=
  Finding.byStart
    ((callsByStyle settings.legacyNamespace text).filterMap (finding? settings path text))

/-- A template with every old heading call in its keyed form. -/
def modernise (settings : Settings.Headings) (text : Text) : Except FixError Text :=
  Finding.fixAll text (findCalls settings "" text)

end Template
end ThemeRepair

import ThemeRepair.Text.Basic

/-!
# Findings

A finding says what is wrong at one place of a document, in which kind, and what stood there when
it was found.  It holds all that the fix needs, so that no second scan is due before it.
-/

namespace ThemeRepair

/-- Where a sequence stands in place of a mapping. -/
inductive ShapeTarget where
  /-- The value of the variants section itself. -/
  | variantsRoot
  /-- A default inside the variants section. -/
  | variantsDefault
deriving DecidableEq, Repr

namespace ShapeTarget

/-- The short name of the place. -/
def tag : ShapeTarget → String
  | variantsRoot => "variants-root"
  | variantsDefault => "variants-default"

end ShapeTarget

/-- The arguments of a heading, in the order in which they are written. -/
structure HeadingArgs where
  title : Text
  asTag : Text
  visualLevel : Text
  additionalClasses : Option Text
  id : Option Text
deriving DecidableEq, Repr

/-- A recognised heading call and the call that replaces it. -/
structure HeadingCall where
  level : Nat
  args : HeadingArgs
  replacement : Text
deriving DecidableEq, Repr

/-- What is wrong, with what the fix needs besides the span of the finding. -/
inductive FindingKind where
  /-- An empty or absent collection where an empty mapping is due.  `realign` is the indentation
  of a sibling section that was written below the header by mistake. -/
  | emptyCollection (realign : Option Span)
  /-- A sequence where a mapping is due. -/
  | sequenceForMapping (target : ShapeTarget)
  /-- A property with the name of a slot.  `collapse` is the value of the properties header where
  the property is the only one. -/
  | nameConflict (name : Text) (collapse : Option Span)
  /-- An old heading call. -/
  | legacyCall (call : HeadingCall)
deriving DecidableEq, Repr

namespace FindingKind

/-- The short name that reports use. -/
def code : FindingKind → String
  | emptyCollection _ => "empty-properties"
  | sequenceForMapping target => target.tag
  | nameConflict _ _ => "name-conflict"
  | legacyCall _ => "legacy-heading-call"

/-- Why a finding is left to a human; `none` for the kinds that have a fix. -/
def manualReason? : FindingKind → Option String
  | sequenceForMapping .variantsDefault =>
    some "a sequence default needs its variant keys chosen by hand"
  | _ => none

/-- The kind has a fix. -/
def isAutoFixable (k : FindingKind) : Bool := k.manualReason?.isNone

end FindingKind

/-- Something wrong at one place of a document. -/
structure Finding where
  path : String
  line : Nat
  span : Span
  before : Text
  kind : FindingKind
deriving DecidableEq, Repr

namespace Finding

/-- The finding of a kind at a span of a text. -/
def locatedAt (path : String) (text : Text) (span : Span) (kind : FindingKind) : Finding where
  path := path
  line := Text.lineNumber text span.start
  span := span
  before := Text.slice text span
  kind := kind

/-- One line of a report: place, short name, and what tells findings of the kind apart. -/
def display (f : Finding) : String :=
  let place := f.path ++ ":" ++ toString f.line ++ ": " ++ f.kind.code
  match f.kind with
  | .nameConflict name _ => place ++ " `" ++ String.ofList name ++ "`"
  | .legacyCall call => place ++ " h" ++ toString call.level
  | _ => place

end Finding
end ThemeRepair

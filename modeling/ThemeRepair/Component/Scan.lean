import ThemeRepair.Declaration
import ThemeRepair.Finding

/-!
# What is wrong with a component definition

A scan makes three checks, in this order:

1. *Empty properties*: a `properties` header without a value and without a body, or with an empty
   sequence as value, has to be an empty mapping.  A section keyword below a bare header by less
   than one level is a misplaced sibling of it, and no property.
2. *Shape of variants*: an empty sequence in place of the variants mapping, or a sequence as a
   `default` inside it.
3. *Name conflicts*: a property with the name of a slot.

A region that is refused for its indentation is recorded and passed over; the other checks are
still made.
-/

namespace ThemeRepair
namespace Component

/-- What a scan of a document found, and the regions that it had to pass over. -/
structure Scan where
  findings : List Finding
  regionErrors : List RegionError
deriving DecidableEq, Repr

/-- A place and what is wrong there. -/
abbrev Defect := Span × FindingKind

/-- The sections that follow the properties of a component.  Indented by less than one level
below the properties header, these keys name no property. -/
def siblingKeywords : List Text :=
  ["slots".toList, "variants".toList, "required".toList, "libraryOverrides".toList]

/-- The item of a block sequence. -/
def isSequenceItem (body : Text) : Bool :=
  match body with
  | ['-'] => true
  | '-' :: c :: _ => Text.isIndent c
  | _ => false

/-! ## The regions that the checks look at -/

/-- The regions of a document, each with the refusal where its extent is not reliable.  The
properties are looked for inside `props` where the document has it, else anywhere. -/
structure Sections where
  props : Except RegionError (Option Region)
  properties : Except RegionError (Option Region)
  variants : Except RegionError (Option Region)
  slots : Except RegionError (Option Region)

namespace Sections

/-- The properties region, looked for below `props`; nothing where `props` is refused, for then
its refusal is the one to record. -/
def locateProperties (ls : List Line) :
    Except RegionError (Option Region) → Except RegionError (Option Region)
  | .ok (some props) => props.child "properties".toList
  | .ok none => Region.find "properties".toList ls
  | .error _ => .ok none

/-- The regions of a document. -/
def ofLines (ls : List Line) : Sections :=
  let props := Region.findSection "props".toList ls
  { props := props
    properties := locateProperties ls props
    variants := Region.findSection "variants".toList ls
    slots := Region.findSection "slots".toList ls }

end Sections

/-- A region that was found, or none. -/
def found {ε : Type} : Except ε (Option Region) → Option Region
  | .ok r => r
  | .error _ => none

/-- The refusal in place of a result. -/
def refusal {ε α : Type} : Except ε α → List ε
  | .ok _ => []
  | .error e => [e]

/-! ## The checks -/

/-- The indentation to take away where the first line below a bare header is a section keyword by
less than one level deeper than the header. -/
def misplacedSibling? (indentWidth : Nat) (properties : Region) : Option Span :=
  match properties.firstContent? with
  | some l =>
    if l.depth < properties.depth + indentWidth ∧ l.key?.any siblingKeywords.contains then
      some ⟨properties.firstContentStart,
        properties.firstContentStart + Text.size l.indentation⟩
    else none
  | none => none

/-- The properties header where an empty mapping is due. -/
def emptyProperties (indentWidth : Nat) (properties : Region) : List Defect :=
  if Region.isEmptySequence properties.inline then
    [(properties.inlineSpan, .emptyCollection none)]
  else if !properties.isBlock then []
  else if !properties.hasContent then
    if properties.isFollowedByKey then [(properties.valueSpan, .emptyCollection none)] else []
  else
    match misplacedSibling? indentWidth properties with
    | some indentation => [(properties.valueSpan, .emptyCollection (some indentation))]
    | none => []

/-- A region whose value is a sequence, in brackets or as items below the header. -/
def holdsSequence (r : Region) : Bool :=
  if r.isBlock then
    match r.firstContent? with
    | some l => isSequenceItem (Text.trimEnd l.body)
    | none => false
  else r.inline.head? == some '['

/-- The `default` regions that have to be looked at in the variants: none where their value is
written on the header line. -/
def variantDefaults (variants : Region) : Except RegionError (List Region) :=
  if variants.isBlock then variants.descendants "default".toList else .ok []

/-- The variants section where a mapping is due. -/
def variantsShape (variants : Region) (defaults : List Region) : List Defect :=
  if Region.isEmptySequence variants.inline then
    [(variants.inlineSpan, .sequenceForMapping .variantsRoot)]
  else
    (defaults.filter holdsSequence).map fun r =>
      (r.span, .sequenceForMapping .variantsDefault)

/-- The depth at which properties are declared: two levels below `props`, or one below a
properties region that stands outside it. -/
def propertyDepth (indentWidth : Nat) (props : Option Region) (properties : Region) : Nat :=
  match props with
  | some props => props.depth + 2 * indentWidth
  | none => properties.depth + indentWidth

/-- Of declarations, the first of each name that is among the taken ones. -/
def firstTaken (taken : List Text) : (seen : List Text) → List Declaration → List Declaration
  | _, [] => []
  | seen, d :: ds =>
    if taken.contains d.name && !seen.contains d.name then
      d :: firstTaken taken (d.name :: seen) ds
    else firstTaken taken seen ds

/-- The properties that have the name of a slot, each name once. -/
def nameConflicts (indentWidth depth : Nat) (properties slots : Region) : List Defect :=
  let taken := (slots.declarations .slot (slots.depth + indentWidth)).map Declaration.name
  let declared := properties.declarations .schemaProperty depth
  let collapse := if declared.length = 1 then some properties.valueSpan else none
  (firstTaken taken [] declared).map fun d => (d.span, .nameConflict d.name collapse)

/-! ## The scan -/

/-- The defects of the properties header. -/
def propertiesDefects (indentWidth : Nat) (s : Sections) : List Defect :=
  match found s.properties with
  | some properties => emptyProperties indentWidth properties
  | none => []

/-- The defects of the variants. -/
def variantsDefects (s : Sections) : List Defect :=
  match found s.variants with
  | some variants =>
    match variantDefaults variants with
    | .ok defaults => variantsShape variants defaults
    | .error _ => []
  | none => []

/-- The defects of properties that slots shadow. -/
def conflictDefects (indentWidth : Nat) (s : Sections) : List Defect :=
  match found s.properties, found s.slots with
  | some properties, some slots =>
    nameConflicts indentWidth (propertyDepth indentWidth (found s.props) properties) properties
      slots
  | _, _ => []

/-- The refusals met on the way, each once.  Slots are only looked at where there are properties
to compare them with. -/
def regionErrors (s : Sections) : List RegionError :=
  refusal s.props ++ refusal s.properties ++ refusal s.variants
    ++ (match found s.variants with
        | some variants => refusal (variantDefaults variants)
        | none => [])
    ++ (match found s.properties with
        | some _ => refusal s.slots
        | none => [])

/-- All that is wrong with a component definition, `indentWidth` being the columns of one
nesting level. -/
def scan (indentWidth : Nat) (path : String) (text : Text) : Scan :=
  let s := Sections.ofLines (Line.ofText text)
  let defects :=
    propertiesDefects indentWidth s ++ variantsDefects s ++ conflictDefects indentWidth s
  { findings := defects.map fun d => Finding.locatedAt path text d.1 d.2
    regionErrors := regionErrors s }

end Component
end ThemeRepair

import ThemeRepair.Finding
import ThemeRepair.Text.Quoted

/-!
# Fixing one finding

The fix of a finding writes over the spans that the finding names and keeps every other byte.
Before it does, it compares the text there with what the scan saw, so a finding of an older scan
is refused as stale and cannot damage a newer text.

`Finding.fix` fixes one finding; `fixAll` fixes the findings of one scan whose spans do not
overlap, the last one first, so that the offsets of the others stay right.
-/

namespace ThemeRepair

/-- Why a fix is refused. -/
inductive FixError where
  /-- The kind has no fix. -/
  | needsHuman (target : ShapeTarget)
  /-- The text at the span is not the expected one. -/
  | stale (span : Span) (expected : Text)
  /-- There was still something to fix after a number of passes. -/
  | noConvergence (passes : Nat)
  /-- The span names no stretch of the text. -/
  | outOfRange (span : Span)
deriving DecidableEq, Repr

namespace FixError

/-- The wording of a refusal. -/
def message : FixError → String
  | needsHuman target =>
    target.tag ++ ": " ++ ((FindingKind.sequenceForMapping target).manualReason?).getD ""
  | stale span expected =>
    "stale finding at " ++ toString span.start ++ ".." ++ toString span.stop ++ ": expected "
      ++ String.ofList (Text.quoted expected)
  | noConvergence passes => "no convergence after " ++ toString passes ++ " rewrite passes"
  | outOfRange span =>
    "no text at " ++ toString span.start ++ ".." ++ toString span.stop

end FixError

namespace Text

/-- Passes where the text of a span is the expected one. -/
def expect (t : Text) (span : Span) (expected : Text) : Except FixError Unit :=
  if slice? t span = some expected then .ok () else .error (.stale span expected)

/-- Passes where a span holds nothing but white space. -/
def expectWhite (t : Text) (span : Span) : Except FixError Unit :=
  if (slice? t span).any isAllWhite then .ok () else .error (.stale span [])

/-- Writes a text over a span. -/
def splice (t : Text) (span : Span) (new : Text) : Except FixError Text :=
  match splice? t span new with
  | some t' => .ok t'
  | none => .error (.outOfRange span)

end Text

/-- What makes the value at a span of a text an empty mapping.  A value that is there is replaced
outright; where there is none, a space keeps the mapping off the colon, and a second one keeps a
comment behind it a comment. -/
def emptyMapping (t : Text) (span : Span) : Except FixError Text :=
  match Text.slice? t span, Text.splitAt? t span.stop with
  | some value, some (_, after) =>
    if !Text.isAllWhite value then .ok "{}".toList
    else if after.head? == some '#' then .ok " {} ".toList
    else .ok " {}".toList
  | _, _ => .error (.outOfRange span)

/-- Makes the value at a span an empty mapping. -/
def writeEmptyMapping (t : Text) (span : Span) : Except FixError Text := do
  let mapping ← emptyMapping t span
  Text.splice t span mapping

namespace Finding

/-- The fix of a finding whose span still holds what the scan saw. -/
def fixFresh (t : Text) (span : Span) : FindingKind → Except FixError Text
  | .emptyCollection none => writeEmptyMapping t span
  | .emptyCollection (some indentation) => do
    -- The sibling stands below the header, so moving it first leaves the header's offsets right.
    Text.expectWhite t indentation
    let t ← Text.splice t indentation (Text.indentationAt t span.start)
    writeEmptyMapping t span
  | .sequenceForMapping .variantsRoot => Text.splice t span "{}".toList
  | .sequenceForMapping .variantsDefault => .error (.needsHuman .variantsDefault)
  | .nameConflict _ none => Text.splice t span []
  | .nameConflict _ (some header) => do
    -- The header stands above the body, so its offsets outlive the removal.
    let t ← Text.splice t span []
    Text.expectWhite t header
    writeEmptyMapping t header
  | .legacyCall call => Text.splice t span call.replacement

/-- Fixes one finding in a text. -/
def fix (t : Text) (f : Finding) : Except FixError Text := do
  Text.expect t f.span f.before
  fixFresh t f.span f.kind

/-- The finding that begins before its predecessor ends, of findings in the order of their
starts. -/
def firstOverlap? : List Finding → Option Finding
  | f :: g :: fs => if g.span.start < f.span.stop then some g else firstOverlap? (g :: fs)
  | _ => none

/-- Findings in the order of their starts, those with one start as they came. -/
def byStart (fs : List Finding) : List Finding :=
  fs.mergeSort fun f g => f.span.start ≤ g.span.start

/-- Fixes findings one after the other, the last one first. -/
def fixBackwards (t : Text) (fs : List Finding) : Except FixError Text :=
  fs.foldr (fun f result => result.bind fun t => fix t f) (.ok t)

/-- Fixes the findings of one scan whose spans do not overlap. -/
def fixAll (t : Text) (fs : List Finding) : Except FixError Text :=
  match firstOverlap? (byStart fs) with
  | some f => .error (.stale f.span f.before)
  | none => fixBackwards t (byStart fs)

end Finding
end ThemeRepair

import ThemeRepair.Component.Repair
import ThemeRepair.Settings.Basic
import ThemeRepair.Template.Heading

/-!
# Working on one text step by step

A session holds a text and the findings of its last scan.  Steps change the text; only a scan
changes the findings, so they may be out of date when they are fixed.  A step that is refused
leaves both as they were.
-/

namespace ThemeRepair

/-- A text that is being worked on, and the findings of the last scan of it. -/
structure Session where
  path : String
  indentWidth : Nat
  headings : Settings.Headings
  text : Text
  findings : List Finding

namespace Session

/-- What can be done next. -/
inductive Step where
  | scan
  | findCalls
  | fix (index : Nat)
  | fixAll
  | repair
  | modernise
  | replace (span : Span) (new : Text)
deriving DecidableEq, Repr

/-- What came of a step. -/
inductive Result where
  | scanned (s : Component.Scan)
  | calls (findings : List Finding)
  | fixed (f : Finding)
  | fixedAll (count : Nat)
  | repaired (o : Outcome)
  | modernised
  | replaced
  | refused (e : FixError)
  | noSuchFinding
  | badSpan

/-- The session with another text, if there is one. -/
def accept (s : Session) (text : Except FixError Text) (result : Result) : Result × Session :=
  match text with
  | .ok text => (result, { s with text := text })
  | .error e => (.refused e, s)

/-- Takes one step. -/
def step (s : Session) : Step → Result × Session
  | .scan =>
    let found := Component.scan s.indentWidth s.path s.text
    (.scanned found, { s with findings := found.findings })
  | .findCalls =>
    let found := Template.findCalls s.headings s.path s.text
    (.calls found, { s with findings := found })
  | .fix index =>
    match s.findings[index]? with
    | some f => s.accept (f.fix s.text) (.fixed f)
    | none => (.noSuchFinding, s)
  | .fixAll => s.accept (Finding.fixAll s.text s.findings) (.fixedAll s.findings.length)
  | .repair =>
    match Component.repair s.indentWidth s.path s.text with
    | .ok o => (.repaired o, { s with text := o.text })
    | .error e => (.refused e, s)
  | .modernise => s.accept (Template.modernise s.headings s.text) .modernised
  | .replace span new =>
    match Text.slice? s.text span, Text.splice? s.text span new with
    | some _, some text => (.replaced, { s with text := text })
    | _, _ => (.badSpan, s)

/-- Takes steps one after the other: each result, with the text behind it. -/
def run (s : Session) : List Step → List (Result × Text)
  | [] => []
  | step :: steps =>
    let (result, s) := s.step step
    (result, s.text) :: s.run steps

end Session
end ThemeRepair

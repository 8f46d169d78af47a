import ThemeRepair.Run.Report
import ThemeRepair.Text.JsonQuoted

/-!
# Events of a run

A run tells first what it found, and then of each file what happened to it, in the order in which
the files are dealt with.  An event is written as a line for people or as a line of JSON, whose
fields stand in the order of their names.
-/

namespace ThemeRepair

/-- What happened to a file, in short. -/
inductive Status where
  | unchanged
  | fixed (codes : List String)
  | manual (count : Nat)
  | failed (message : String)
deriving DecidableEq, Repr

/-- An event of a run. -/
inductive Event where
  | discovered (components templates : Nat)
  | file (path : String) (number total : Nat) (status : Status)
deriving DecidableEq, Repr

/-- What a report says in short.  A failure goes before everything else, and a change before what
is left to a human. -/
def Report.status (r : Report) : Status :=
  match r.failure with
  | some failure => .failed failure.message
  | none =>
    if r.changed then .fixed r.codes
    else if r.manual.isEmpty then .unchanged
    else .manual r.manual.length

/-- The word for what happened. -/
def Status.label : Status → String
  | unchanged => "unchanged"
  | fixed _ => "fixed"
  | manual _ => "manual"
  | failed _ => "failed"

/-- The events of files, numbered from `first` on. -/
def Event.ofReports (total : Nat) : (first : Nat) → List Report → List Event
  | _, [] => []
  | first, r :: rs => .file r.path first total r.status :: ofReports total (first + 1) rs

/-! ## Lines for people -/

namespace Event

/-- Digits, the last one first, with a comma behind every third one that others follow. -/
def groupDigits : List Char → List Char
  | a :: b :: c :: d :: rest => a :: b :: c :: ',' :: groupDigits (d :: rest)
  | digits => digits

/-- A number with its thousands set apart. -/
def grouped (n : Nat) : String := String.ofList (groupDigits (Nat.toDigits 10 n).reverse).reverse

/-- A text filled up with spaces to a width. -/
def padded (width : Nat) (s : String) : String :=
  s ++ String.ofList (List.replicate (width - s.length) ' ')

/-- What a line for people adds to the word for what happened. -/
def detail : Status → String
  | .unchanged => ""
  | .fixed codes => ", ".intercalate codes
  | .manual count => toString count ++ " manual action(s)"
  | .failed message => message

/-- An event as a line for people. -/
def line : Event → String
  | discovered components templates =>
    "found " ++ grouped components ++ " component files, " ++ grouped templates ++ " templates\n"
  | file path number total status =>
    "[" ++ grouped number ++ " / " ++ grouped total ++ "] " ++ padded 9 status.label ++ " "
      ++ path ++ "  " ++ detail status ++ "\n"

/-! ## Lines of JSON -/

/-- A string in JSON. -/
def jsonString (s : String) : String := String.ofList (Text.jsonQuoted s.toList)

/-- A list of strings in JSON. -/
def jsonStrings (ss : List String) : String := "[" ++ ",".intercalate (ss.map jsonString) ++ "]"

/-- An object in JSON, its fields in the order of their names. -/
def jsonObject (fields : List (String × String)) : String :=
  let sorted := fields.mergeSort fun a b => a.1 ≤ b.1
  "\x7b" ++ ",".intercalate (sorted.map fun f => jsonString f.1 ++ ":" ++ f.2) ++ "\x7d"

/-- The field that a status adds to the word for what happened. -/
def statusFields : Status → List (String × String)
  | .unchanged => []
  | .fixed codes => [("fixed", jsonStrings codes)]
  | .manual count => [("manual", toString count)]
  | .failed message => [("error", jsonString message)]

/-- The fields of an event. -/
def fields : Event → List (String × String)
  | discovered components templates =>
    [("event", jsonString "discovered"), ("components", toString components),
      ("templates", toString templates)]
  | file path number total status =>
    [("event", jsonString "file"), ("path", jsonString path),
      ("status", jsonString status.label), ("n", toString number), ("total", toString total)]
      ++ statusFields status

/-- An event as a line of JSON. -/
def jsonLine (e : Event) : String := jsonObject e.fields ++ "\n"

end Event

/-- How the events of a run are written. -/
inductive EventStyle where
  | off
  | human
  | json
deriving DecidableEq, Repr

/-- The events of a run as they are written. -/
def EventStyle.write (style : EventStyle) (events : List Event) : String :=
  match style with
  | off => ""
  | human => String.join (events.map Event.line)
  | json => String.join (events.map Event.jsonLine)

end ThemeRepair

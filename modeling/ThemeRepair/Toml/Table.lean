import ThemeRepair.Toml.Value

/-!
# Where keys and headers lead

A header or a dotted key is a path of keys through tables.  Every function here is `none` where
the path runs into something that may not be entered or was defined before.
-/

namespace ThemeRepair
namespace Toml
namespace Entries

/-- Changes the last of several tables. -/
def changeLast (change : Entries → Option Entries) (ts : List Entries) : Option (List Entries) :=
  match ts.getLast? with
  | none => none
  | some last => (change last).map fun last => ts.dropLast ++ [last]

/-- Gives a new key a value in the table that a dotted path leads to.  Tables on the way that are
not there yet are made.  The table at the end of the path has to be one made by dotted keys; one
that a header implied may be passed through. -/
def assign (key : Text) (v : Value) : (path : List Text) → Entries → Option Entries
  | [], es => es.define key v
  | p :: path, es =>
    match es.get? p with
    | none => (assign key v path []).map fun child => es.put p (.table .dotted child)
    | some (.table .dotted child) =>
      (assign key v path child).map fun child => es.put p (.table .dotted child)
    | some (.table .implied child) =>
      if path.isEmpty then none
      else (assign key v path child).map fun child => es.put p (.table .implied child)
    | some (.tables ts) =>
      if path.isEmpty then none
      else (changeLast (assign key v path) ts).map fun ts => es.put p (.tables ts)
    | some _ => none

/-- Changes the table that the keys of a header lead to.  Tables on the way that are not there yet
are implied; of several tables the last one is entered. -/
def within (change : Entries → Option Entries) : (path : List Text) → Entries → Option Entries
  | [], es => change es
  | p :: path, es =>
    match es.get? p with
    | none => (within change path []).map fun child => es.put p (.table .implied child)
    | some (.table .braces _) => none
    | some (.table origin child) =>
      (within change path child).map fun child => es.put p (.table origin child)
    | some (.tables ts) =>
      (changeLast (within change path) ts).map fun ts => es.put p (.tables ts)
    | some _ => none

/-- Opens the table of a header: a new one, or one that was only implied. -/
def openTable (key : Text) (es : Entries) : Option Entries :=
  match es.get? key with
  | none => some (es.put key (.table .header []))
  | some (.table .implied child) => some (es.put key (.table .header child))
  | some _ => none

/-- Opens one more table of a header in double brackets. -/
def openElement (key : Text) (es : Entries) : Option Entries :=
  match es.get? key with
  | none => some (es.put key (.tables [[]]))
  | some (.tables ts) => some (es.put key (.tables (ts ++ [[]])))
  | some _ => none

end Entries
end Toml
end ThemeRepair

import ThemeRepair.Settings.Check
import ThemeRepair.Text.Utf8
import ThemeRepair.Toml.Document

/-!
# Reading settings from a file

A section of a settings file finds its fields by their keys.  A section written as an array finds
them by their places, in the order in which they are declared, and one written as a date has none.
A field that is not there keeps its default, and what is no field is passed over; a field of
another type makes the whole file unreadable.
-/

namespace ThemeRepair
namespace Settings

/-- Where the fields of a section are. -/
inductive Fields where
  | byKey (entries : Toml.Entries)
  | byPlace (values : List Toml.Value)

namespace Fields

/-- The fields that a value has as a section. -/
def ofValue? : Toml.Value → Option Fields
  | .table _ entries => some (.byKey entries)
  | .array values => some (.byPlace values)
  | .tables ts => some (.byPlace (ts.map (.table .header)))
  | .date _ => some (.byKey [])
  | _ => none

/-- The value of the field with a key, which is declared at a place. -/
def get? (key : String) (place : Nat) : Fields → Option Toml.Value
  | byKey entries => entries.get? key.toList
  | byPlace values => values[place]?

/-- Reads a field of a section; it has a default. -/
def read? {α : Type} (fields : Fields) (key : String) (place : Nat)
    (ofValue? : Toml.Value → Option α) (default : α) : Option α :=
  match fields.get? key place with
  | none => some default
  | some v => ofValue? v

end Fields

/-! ## Values of fields -/

/-- A field that is a text. -/
def text? : Toml.Value → Option Text
  | .string t => some t
  | _ => none

/-- A field that is a text, kept as a string. -/
def string? (v : Toml.Value) : Option String := (text? v).map String.ofList

/-- A field that is a natural number. -/
def natural? : Toml.Value → Option Nat
  | .integer n => if 0 ≤ n then some n.toNat else none
  | _ => none

/-- A field that is a truth value. -/
def boolean? : Toml.Value → Option Bool
  | .boolean b => some b
  | _ => none

/-- A field that is a list of texts. -/
def strings? : Toml.Value → Option (List String)
  | .array values => values.mapM string?
  | _ => none

/-! ## Sections -/

/-- The section about the files to look at. -/
def Scan.ofValue? (v : Toml.Value) : Option Scan := do
  let fields ← Fields.ofValue? v
  let default : Scan := {}
  return {
    root := ← fields.read? "root" 0 (fun v => (string? v).map some) default.root
    componentGlobs := ← fields.read? "component_globs" 1 strings? default.componentGlobs
    templateGlobs := ← fields.read? "template_globs" 2 strings? default.templateGlobs
    excludeGlobs := ← fields.read? "exclude_globs" 3 strings? default.excludeGlobs
    followLinks := ← fields.read? "follow_symlinks" 4 boolean? default.followLinks }

/-- The section about component definitions. -/
def Schema.ofValue? (v : Toml.Value) : Option Schema := do
  let fields ← Fields.ofValue? v
  let default : Schema := {}
  return { indentWidth := ← fields.read? "indent_width" 0 natural? default.indentWidth }

/-- The section about heading calls. -/
def Headings.ofValue? (v : Toml.Value) : Option Headings := do
  let fields ← Fields.ofValue? v
  let default : Headings := {}
  return {
    legacyNamespace := ← fields.read? "legacy_namespace" 0 text? default.legacyNamespace
    targetTemplate := ← fields.read? "target_template" 1 text? default.targetTemplate
    argumentGroup := ← fields.read? "argument_group" 2 text? default.argumentGroup }

/-- The section about backups. -/
def Backup.ofValue? (v : Toml.Value) : Option Backup := do
  let fields ← Fields.ofValue? v
  let default : Backup := {}
  return { suffix := ← fields.read? "suffix" 0 string? default.suffix }

/-- The settings that a table holds. -/
def ofEntries? (entries : Toml.Entries) : Option Settings := do
  let fields : Fields := .byKey entries
  return {
    scan := ← fields.read? "scan" 0 Scan.ofValue? {}
    schema := ← fields.read? "schema" 1 Schema.ofValue? {}
    headings := ← fields.read? "headings" 2 Headings.ofValue? {}
    backup := ← fields.read? "backup" 3 Backup.ofValue? {} }

/-- The settings that a text holds. -/
def ofText? (t : Text) : Option Settings := do ofEntries? (← Toml.read? t)

/-! ## Files -/

/-- The text of a settings file. -/
def readText (tree : Tree) (path : String) : Except SettingsError Text :=
  match tree.read path with
  | .error _ => .error (.unreadableFile path)
  | .ok bytes =>
    match Text.decode bytes with
    | .error _ => .error (.unreadableFile path)
    | .ok t => .ok t

/-- Reads and checks the settings in a file. -/
def load (tree : Tree) (path : String) : Except SettingsError Settings := do
  let t ← readText tree path
  match ofText? t with
  | none => .error .malformedFile
  | some s =>
    s.check
    return s

end Settings
end ThemeRepair

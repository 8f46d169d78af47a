import ThemeRepair.Toml.Statement

/-!
# The table that a settings file holds

The statements of a file are carried out one after the other: a header opens a table, and the
pairs below it go into that table.  A file that cannot be read, or that defines something twice,
holds no table.
-/

namespace ThemeRepair
namespace Toml

/-- Carries out statements, `current` being the path of the open table. -/
def build : (current : List Text) → Entries → List Statement → Option Entries
  | _, es, [] => some es
  | _, es, .table key :: rest => do
    build (key.path ++ [key.name]) (← es.within (Entries.openTable key.name) key.path) rest
  | _, es, .element key :: rest => do
    build (key.path ++ [key.name]) (← es.within (Entries.openElement key.name) key.path) rest
  | current, es, .pair key v :: rest => do
    build current (← es.within (fun table => table.assign key.name v key.path) current) rest

/-- The table that a text holds; a byte order mark at its start is no part of it. -/
def read? (t : Text) : Option Entries := do
  let t := (Text.after? ['\ufeff'] t).getD t
  build [] [] (← statements? (t.length + 1) t)

end Toml
end ThemeRepair

import ThemeRepair.Text.Basic

/-!
# Settings

What can be set for a run, with the value each setting has where nothing is said.
-/

namespace ThemeRepair
namespace Settings

/-- Which files a run looks at. -/
structure Scan where
  root : Option String := none
  componentGlobs : List String := ["**/*.component.yml"]
  templateGlobs : List String := ["**/*.twig"]
  excludeGlobs : List String := []
  followLinks : Bool := false
deriving DecidableEq, Repr

/-- How component definitions are indented. -/
structure Schema where
  indentWidth : Nat := 2
deriving DecidableEq, Repr

/-- Which heading calls are old, and what takes their place. -/
structure Headings where
  legacyNamespace : Text := "@components".toList
  targetTemplate : Text := "@adesso_cms_theme/heading/heading.twig".toList
  argumentGroup : Text := "heading".toList
deriving DecidableEq, Repr

/-- How backups are named. -/
structure Backup where
  suffix : String := ".bak"
deriving DecidableEq, Repr

end Settings

/-- All settings of a run. -/
structure Settings where
  scan : Settings.Scan := {}
  schema : Settings.Schema := {}
  headings : Settings.Headings := {}
  backup : Settings.Backup := {}
deriving DecidableEq, Repr

end ThemeRepair

import ThemeRepair.Settings.Basic
import ThemeRepair.Settings.Error
import ThemeRepair.Template.Call
import ThemeRepair.Tree.Access

/-!
# Checking settings

Settings are checked as a whole before a run, in a fixed order; the first thing wrong is the one
reported.
-/

namespace ThemeRepair
namespace Settings

/-- Passes where a condition holds. -/
def require (condition : Bool) (otherwise : SettingsError) : Except SettingsError Unit :=
  if condition then .ok () else .error otherwise

/-- Passes where the target of heading calls is not an old heading template: its calls would be
found as old ones again. -/
def Headings.check (h : Headings) : Except SettingsError Unit :=
  require (!Template.isLegacyTemplate h.legacyNamespace h.targetTemplate)
    (.legacyTarget h.targetTemplate)

/-- Passes where a glob can be read. -/
def checkGlob (glob : String) : Except SettingsError Unit :=
  require (Glob.ofString glob).toBool (.invalidGlob glob)

/-- All globs, in the order in which they are checked. -/
def Scan.globs (s : Scan) : List String := s.componentGlobs ++ s.templateGlobs ++ s.excludeGlobs

/-- The root of a run. -/
def Scan.existingRoot (s : Scan) (tree : Tree) : Except SettingsError String :=
  match s.root with
  | none => .error .noRoot
  | some root => if tree.isDirectory root then .ok root else .error (.missingRoot root)

/-- Passes where nothing is wrong with the settings. -/
def check (s : Settings) : Except SettingsError Unit := do
  require (s.schema.indentWidth != 0) .zeroIndentWidth
  require (!s.backup.suffix.isEmpty) .emptySuffix
  require (!(s.scan.componentGlobs.isEmpty && s.scan.templateGlobs.isEmpty)) .noGlobs
  s.scan.globs.forM checkGlob
  require (!s.headings.argumentGroup.isEmpty) .emptyArgumentGroup
  s.headings.check

end Settings
end ThemeRepair

import ThemeRepair.Glob.Group
import ThemeRepair.Text.Basic

/-!
# Why a run does not start

Everything that stops a run does so before any file is looked at.
-/

namespace ThemeRepair

/-- Why a run does not start. -/
inductive SettingsError where
  | unreadableFile (path : String)
  | malformedFile
  | zeroIndentWidth
  | emptySuffix
  | noGlobs
  | invalidGlob (glob : String)
  | emptyArgumentGroup
  | legacyTarget (template : Text)
  | noRoot
  | missingRoot (root : String)
  | globs (e : Glob.GroupError)
deriving DecidableEq, Repr

/-- The wording of a refusal. -/
def SettingsError.message : SettingsError → String
  | unreadableFile path => "Failed to read config file: " ++ path
  | malformedFile => "Failed to parse config file"
  | zeroIndentWidth => "schema.indent_width must be > 0"
  | emptySuffix => "backup.suffix must not be empty"
  | noGlobs => "scan.component_globs and scan.template_globs are both empty"
  | invalidGlob glob => "Invalid glob: '" ++ glob ++ "'"
  | emptyArgumentGroup => "headings.argument_group must not be empty"
  | legacyTarget template =>
    "headings.target_template '" ++ String.ofList template
      ++ "' is itself a legacy heading template"
  | noRoot => "No scan root: pass --root or set scan.root in the config file"
  | missingRoot root => "Scan root does not exist: " ++ root
  | globs e => e.message

end ThemeRepair

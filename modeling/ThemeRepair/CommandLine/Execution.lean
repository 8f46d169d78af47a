import ThemeRepair.CommandLine.Arguments
import ThemeRepair.Run.Listing
import ThemeRepair.Settings.Read

/-!
# Carrying out a command line

What the program does is a function of its arguments and of the tree below its working directory:
what it writes, the code it ends with, and the tree that then is.
-/

namespace ThemeRepair
namespace CommandLine

/-- All that comes of a call of the program. -/
structure Execution where
  exitCode : Nat
  output : String
  diagnostics : String
  tree : Tree

/-- The name of the program and its version. -/
def versionLine : String := "sdcm 0.1.0\n"

/-- How the program is used. -/
def helpText : String :=
  "usage: sdcm [--config FILE] [-v] COMMAND [OPTIONS]\n\n"
    ++ "commands:\n"
    ++ "  check    report what would be fixed, without writing anything\n"
    ++ "  fix      fix component definitions and heading calls in place, with backups\n\n"
    ++ "options:\n"
    ++ "  --config FILE      settings file; without one, --root is needed\n"
    ++ "  --root DIRECTORY   directory to scan, in place of the one in the settings file\n"
    ++ "  --pass PASS        schema, templates or all\n"
    ++ "  --progress STYLE   off, human or json\n"
    ++ "  --dry-run          with fix: write nothing\n"
    ++ "  -v, --verbose      accepted for the sake of scripts\n"
    ++ "  -h, --help         this text\n"
    ++ "  -V, --version      the version\n"

namespace Request

/-- The settings of a request: those of its settings file, or the defaults; its root goes before
that of the file. -/
def settings (r : Request) (tree : Tree) : Except SettingsError Settings :=
  match r.settingsFile with
  | some path => do
    let s ← Settings.load tree path
    return { s with scan := { s.scan with root := r.root.or s.scan.root } }
  | none => do
    let s : Settings := { scan := { root := r.root } }
    s.check
    return s

/-- The run that a request asks for. -/
def run (r : Request) (tree : Tree) : Except SettingsError Run := do
  Run.start (← r.settings tree) r.pass r.write tree

/-- Carries out a request. -/
def execute (r : Request) (tree : Tree) : Execution :=
  match r.run tree with
  | .ok run =>
    ⟨0, run.summary.listing r.command.name, r.style.write run.events, run.tree⟩
  | .error e => ⟨1, "", "Error: " ++ e.message ++ "\n", tree⟩

end Request

/-- Carries out a command line. -/
def execute (arguments : List String) (tree : Tree) : Execution :=
  match Request.ofArguments arguments with
  | .ok r => r.execute tree
  | .error .help => ⟨0, helpText, "", tree⟩
  | .error .version => ⟨0, versionLine, "", tree⟩
  | .error (.usage e) => ⟨2, "", "error: " ++ e.message ++ "\n", tree⟩

end CommandLine
end ThemeRepair

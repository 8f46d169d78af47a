import ThemeRepair.Settings.Check
import ThemeRepair.Tree.Walk

/-!
# Which files a run looks at

Of the files below a root, those that an exclude glob matches and those that are backups are left
out.  A file that a component glob matches is a component definition; one that only a template
glob matches is a template.  Both lists are in the order of their paths, name by name, so that
they do not depend on the order in which directories are listed.  What could not be visited is told
in the order of the walk.
-/

namespace ThemeRepair

/-- What the globs and the suffix say about relative paths. -/
structure Selector where
  isComponent : String → Bool
  isTemplate : String → Bool
  isExcluded : String → Bool

/-- The files that a run looks at, and what could not be visited. -/
structure Discovery where
  components : List String
  templates : List String
  errors : List String
deriving DecidableEq, Repr

namespace Selector

/-- The directories that are always left out. -/
def defaultExcludes : List String :=
  ["**/.git/**", "**/node_modules/**", "**/vendor/**", "**/target/**"]

/-- A path that ends in the suffix of backups. -/
def isBackup (suffix path : String) : Bool := suffix.toList.isSuffixOf path.toList

/-- Reads globs of the settings. -/
def readGlobs (globs : List String) : Except SettingsError (List Glob) :=
  (Glob.readGroup globs).mapError .globs

/-- What settings say about relative paths. -/
def ofSettings (scan : Settings.Scan) (suffix : String) : Except SettingsError Selector := do
  let components ← readGlobs scan.componentGlobs
  let templates ← readGlobs scan.templateGlobs
  let excludes ← readGlobs (defaultExcludes ++ scan.excludeGlobs)
  return {
    isComponent := Glob.anyMatch components
    isTemplate := Glob.anyMatch templates
    isExcluded := fun path => Glob.anyMatch excludes path || isBackup suffix path }

/-- A relative path is that of a component definition to look at. -/
def selectsComponent (s : Selector) (path : String) : Bool :=
  !s.isExcluded path && s.isComponent path

/-- A relative path is that of a template to look at. -/
def selectsTemplate (s : Selector) (path : String) : Bool :=
  !s.isExcluded path && !s.isComponent path && s.isTemplate path

end Selector

namespace Discovery

/-- The files that a walk visited, by their names from its root. -/
def files (visits : List Tree.Visit) : List (List String) :=
  visits.filterMap fun v =>
    match v with
    | .file relative => some relative
    | .failed _ => none

/-- The wordings of what a walk could not visit. -/
def failures (visits : List Tree.Visit) : List String :=
  visits.filterMap fun v =>
    match v with
    | .file _ => none
    | .failed e => some e.message

/-- The paths of the files that a test selects, in the order of their names. -/
def select (root : String) (selects : String → Bool) (files : List (List String)) : List String :=
  ((files.filter fun f => selects (Path.ofNames f)).mergeSort Path.namesLe).map
    (Path.joinAll root)

/-- The files below a root that a selector selects. -/
def ofVisits (root : String) (selector : Selector) (visits : List Tree.Visit) : Discovery where
  components := select root selector.selectsComponent (files visits)
  templates := select root selector.selectsTemplate (files visits)
  errors := failures visits

/-- The files of a tree below a root that settings select. -/
def find (tree : Tree) (root : String) (scan : Settings.Scan) (suffix : String) :
    Except SettingsError Discovery := do
  let selector ← Selector.ofSettings scan suffix
  return ofVisits root selector (tree.walk scan.followLinks root)

end Discovery
end ThemeRepair

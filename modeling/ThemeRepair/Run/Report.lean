import ThemeRepair.Document.Commit
import ThemeRepair.Document.Repair

/-!
# What a run does to one file

A file is read, repaired and, where the run writes, committed.  Whatever refuses on the way goes
into the report of that file and stops no other file; the tree changes by a commit only.
-/

namespace ThemeRepair

/-- Why a file could not be dealt with. -/
inductive Failure where
  | file (e : FileError)
  | fix (e : FixError)
deriving DecidableEq, Repr

/-- The wording of a failure. -/
def Failure.message : Failure → String
  | file e => e.message
  | fix e => e.message

/-- What happened to one file.  `changed` says that the file has its new text, or would have it if
the run wrote. -/
structure Report where
  path : String
  kind : DocumentKind
  fixed : List Finding := []
  manual : List Finding := []
  skipped : List RegionError := []
  failure : Option Failure := none
  changed : Bool := false
  backup : Option String := none
deriving DecidableEq, Repr

namespace Report

/-- The codes of what was fixed, in order. -/
def codes (r : Report) : List String := r.fixed.map fun f => f.kind.code

/-- One line for each finding that was fixed. -/
def fixedLines (r : Report) : List String := r.fixed.map Finding.display

/-- The line for a finding that is left to a human, with the reason. -/
def manualLine (f : Finding) : String :=
  match f.kind.manualReason? with
  | some reason => f.display ++ " (" ++ reason ++ ")"
  | none => f.display

/-- One line for each finding that is left to a human. -/
def manualLines (r : Report) : List String := r.manual.map manualLine

/-- One line for each region that was passed over. -/
def skippedLines (r : Report) : List String := r.skipped.map RegionError.message

/-- The listing shows the file. -/
def isNoteworthy (r : Report) : Bool :=
  r.changed || r.failure.isSome || !r.manual.isEmpty || !r.skipped.isEmpty

end Report

namespace Document

/-- Puts the outcome of a repair in the place of a document, where `write` says so. -/
def settle (settings : Settings) (write : Bool) (doc : Document) (kind : DocumentKind)
    (o : Outcome) (tree : Tree) : Report × Tree :=
  let report : Report :=
    { path := doc.path, kind := kind, manual := o.manual, skipped := o.regionErrors }
  if o.fixed.isEmpty ∨ o.text = doc.text then (report, tree)
  else
    let report := { report with fixed := o.fixed }
    if write then
      match doc.commit o.text settings.backup.suffix tree with
      | (.ok (), tree) =>
        ({ report with
            changed := true
            backup := some (backupPath doc.path settings.backup.suffix) }, tree)
      | (.error e, tree) => ({ report with failure := some (.file e) }, tree)
    else ({ report with changed := true }, tree)

end Document

namespace Tree

/-- Reads and repairs a file of a tree, and commits it where `write` says so. -/
def repairFile (settings : Settings) (write : Bool) (tree : Tree) (path : String)
    (kind : DocumentKind) : Report × Tree :=
  match Document.read tree path with
  | .error e =>
    ({ path := path, kind := kind, failure := some (.file (.unreadable path e)) }, tree)
  | .ok doc =>
    match doc.repair settings kind with
    | .error e => ({ path := path, kind := kind, failure := some (.fix e) }, tree)
    | .ok o => doc.settle settings write kind o tree

/-- Deals with files one after the other: a report for each, and the tree that then is. -/
def repairFiles (settings : Settings) (write : Bool) :
    List (String × DocumentKind) → Tree → List Report × Tree
  | [], tree => ([], tree)
  | (path, kind) :: rest, tree =>
    let (report, tree) := tree.repairFile settings write path kind
    let (reports, tree) := repairFiles settings write rest tree
    (report :: reports, tree)

end Tree
end ThemeRepair

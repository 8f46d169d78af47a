import ThemeRepair.Discovery
import ThemeRepair.Run.Event
import ThemeRepair.Settings.Check

/-!
# Runs

A run finds the files below the root and deals with them one after the other, the component
definitions before the templates.  It does not start where the root is missing or the settings
are wrong; once it has started, nothing stops it.
-/

namespace ThemeRepair

/-- Which files a run deals with. -/
inductive Pass where
  | schema
  | templates
  | all
deriving DecidableEq, Repr

/-- What a run did. -/
structure Summary where
  reports : List Report
  walkErrors : List String
  write : Bool
deriving DecidableEq, Repr

/-- A run that has ended: what it did, what it told on the way, and the tree that then is. -/
structure Run where
  summary : Summary
  events : List Event
  tree : Tree

namespace Pass

/-- Component definitions are dealt with. -/
def coversComponents : Pass → Bool
  | schema => true
  | templates => false
  | all => true

/-- Templates are dealt with. -/
def coversTemplates : Pass → Bool
  | schema => false
  | templates => true
  | all => true

/-- The files that a pass deals with, in the order in which it does. -/
def queue (pass : Pass) (found : Discovery) : List (String × DocumentKind) :=
  (if pass.coversComponents then found.components.map fun p => (p, .component) else [])
    ++ (if pass.coversTemplates then found.templates.map fun p => (p, .template) else [])

end Pass

namespace Summary

/-- What the reports count, added up. -/
def sumOf (s : Summary) (count : Report → Nat) : Nat :=
  s.reports.foldr (fun r n => count r + n) 0

/-- How many findings the reports list as fixed. -/
def fixCount (s : Summary) : Nat := s.sumOf fun r => r.fixed.length

/-- How many files have a new text. -/
def changedCount (s : Summary) : Nat := s.reports.countP fun r => r.changed

/-- How many findings are left to a human. -/
def manualCount (s : Summary) : Nat := s.sumOf fun r => r.manual.length

/-- How many regions were passed over. -/
def skippedCount (s : Summary) : Nat := s.sumOf fun r => r.skipped.length

/-- How many files could not be dealt with, or not even be visited. -/
def failedCount (s : Summary) : Nat :=
  (s.reports.countP fun r => r.failure.isSome) + s.walkErrors.length

end Summary

namespace Run

/-- The number of files of a kind. -/
def countKind (kind : DocumentKind) (queue : List (String × DocumentKind)) : Nat :=
  queue.countP fun f => f.2 == kind

/-- Deals with files that were found. -/
def ofQueue (settings : Settings) (write : Bool) (walkErrors : List String)
    (queue : List (String × DocumentKind)) (tree : Tree) : Run :=
  let (reports, tree) := tree.repairFiles settings write queue
  { summary := ⟨reports, walkErrors, write⟩
    events :=
      .discovered (countKind .component queue) (countKind .template queue)
        :: Event.ofReports queue.length 1 reports
    tree := tree }

/-- Runs over a tree. -/
def start (settings : Settings) (pass : Pass) (write : Bool) (tree : Tree) :
    Except SettingsError Run := do
  let root ← settings.scan.existingRoot tree
  settings.headings.check
  let found ← Discovery.find tree root settings.scan settings.backup.suffix
  return ofQueue settings write found.errors (pass.queue found) tree

end Run
end ThemeRepair

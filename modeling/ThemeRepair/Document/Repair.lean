import ThemeRepair.Component.Repair
import ThemeRepair.Document.Basic
import ThemeRepair.Settings.Basic
import ThemeRepair.Template.Heading

/-!
# Repairing a document

A component definition is repaired finding by finding; in a template every old heading call is
replaced at once.  Nothing is read or written here: a repair is a function of the document.
-/

namespace ThemeRepair

/-- The kinds of document that a run repairs. -/
inductive DocumentKind where
  | component
  | template
deriving DecidableEq, Repr

namespace Template

/-- Repairs a template. -/
def repair (settings : Settings.Headings) (path : String) (text : Text) :
    Except FixError Outcome := do
  let calls := findCalls settings path text
  return ⟨← Finding.fixAll text calls, calls, [], []⟩

end Template

namespace Document

/-- Repairs a document. -/
def repair (settings : Settings) (kind : DocumentKind) (doc : Document) :
    Except FixError Outcome :=
  match kind with
  | .component => Component.repair settings.schema.indentWidth doc.path doc.text
  | .template => Template.repair settings.headings doc.path doc.text

end Document
end ThemeRepair

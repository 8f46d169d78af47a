import ThemeRepair.Finding
import ThemeRepair.Region

/-!
# What comes of repairing a text

The result of every repair, of a component definition as of a template: the new text, what was
fixed on the way to it, and what could not be fixed.
-/

namespace ThemeRepair

/-- What came of repairing a text: the new text, what was fixed, in order, what is left to a
human, and the regions passed over in the last scan. -/
structure Outcome where
  text : Text
  fixed : List Finding
  manual : List Finding
  regionErrors : List RegionError
deriving DecidableEq, Repr

namespace Outcome

/-- Something was fixed. -/
def changed (o : Outcome) : Bool := !o.fixed.isEmpty

end Outcome
end ThemeRepair

import ThemeRepair.Component.Scan
import ThemeRepair.Fix
import ThemeRepair.Outcome

/-!
# Repairing a component definition

A repair fixes one finding per pass: the first of the scan that has a fix.  Then it scans the new
text afresh, so that offsets are never out of date.  It ends with a text whose scan has nothing
left to fix, and hands over what has to be left to a human.  A number of passes beyond the
findings of the first scan is allowed; a repair that needs more is given up.
-/

namespace ThemeRepair
namespace Component

/-- The passes allowed beyond the number of findings of the first scan. -/
def passSlack : Nat := 8

/-- The finding that a pass over a text fixes. -/
def nextFix? (indentWidth : Nat) (path : String) (text : Text) : Option Finding :=
  (scan indentWidth path text).findings.find? fun f => f.kind.isAutoFixable

/-- The passes of a repair, of which `left` are still allowed out of `budget`. -/
def repairPasses (indentWidth : Nat) (path : String) (budget : Nat) :
    (left : Nat) → Text → Except FixError Outcome
  | left, text =>
    match nextFix? indentWidth path text with
    | none =>
      let s := scan indentWidth path text
      .ok ⟨text, [], s.findings, s.regionErrors⟩
    | some f =>
      match left with
      | 0 => .error (.noConvergence budget)
      | left + 1 => do
        let text' ← f.fix text
        let o ← repairPasses indentWidth path budget left text'
        return { o with fixed := f :: o.fixed }

/-- Repairs a component definition. -/
def repair (indentWidth : Nat) (path : String) (text : Text) : Except FixError Outcome :=
  let budget := (scan indentWidth path text).findings.length + passSlack
  repairPasses indentWidth path budget budget text

end Component
end ThemeRepair

import ThemeRepair.Region

/-!
# The names declared in a region

A declaration is a line of a region's body that has exactly a given depth and declares a key; its
block is that line and the lines nested below it.  Taking the block away takes away the whole
declaration.  Blank and comment lines between two declarations belong to neither.
-/

namespace ThemeRepair

/-- What a declared name stands for. -/
inductive Role where
  | schemaProperty
  | slot
deriving DecidableEq, Repr

/-- A name declared in a region, and the stretch of its block. -/
structure Declaration where
  name : Text
  role : Role
  span : Span
deriving DecidableEq, Repr

namespace Declaration

/-- The declarations among lines, the first of which begins at an offset. -/
def among (role : Role) (depth : Nat) : (offset : Nat) → List Line → List Declaration
  | _, [] => []
  | offset, l :: ls =>
    let later := among role depth (offset + l.size) ls
    if l.isContent && l.depth == depth then
      match l.key? with
      | some name =>
        ⟨name, role, ⟨offset, offset + l.size + Line.total (Line.nested depth ls)⟩⟩ :: later
      | none => later
    else later

end Declaration

namespace Region

/-- The names declared at a depth in a region, in the order of the text.  A content line that is
indented less ends the collection. -/
def declarations (r : Region) (role : Role) (depth : Nat) : List Declaration :=
  Declaration.among role depth r.bodyStart
    (r.body.takeWhile fun l => !l.isContent || depth ≤ l.depth)

end Region
end ThemeRepair

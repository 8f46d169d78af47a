import ThemeRepair.Tree.Access

/-!
# Walking a tree

A walk visits everything below a root.  Symbolic links are passed over, unless they are to be
followed; the root is always followed.  A followed link that leads back to a directory the walk
is inside of is reported and not entered, and so is one that leads nowhere.
-/

namespace ThemeRepair
namespace Tree

/-- What a walk could not visit. -/
inductive WalkError where
  | os (path : String) (e : OsError)
  | loop (path ancestor : String)
deriving DecidableEq, Repr

/-- The wording of a refusal. -/
def WalkError.message : WalkError → String
  | os path e => "IO error for operation on " ++ path ++ ": " ++ e.message
  | loop path ancestor =>
    "File system loop found: " ++ path ++ " points to an ancestor " ++ ancestor

/-- One result of a walk: a file, by its names from the root of the walk, or something that could
not be visited. -/
inductive Visit where
  | file (relative : List String)
  | failed (e : WalkError)
deriving DecidableEq, Repr

/-- A directory that a walk is inside of: the path by which it was entered, and where it is. -/
structure Ancestor where
  path : String
  location : Location

/-- Walks a directory, at most `fuel` levels deep.  The innermost of `inside` is the directory
itself.  Of a directory outside the tree nothing is visited. -/
def walkBelow (t : Tree) (followLinks : Bool) :
    (fuel : Nat) → (path : String) → (relative : List String) → Location →
      (inside : List Ancestor) → List Visit
  | 0, _, _, _, _ => []
  | fuel + 1, path, relative, location, inside =>
    (t.children location).flatMap fun child =>
      let childPath := Path.join path child.1
      let childRelative := relative ++ [child.1]
      let enter := fun l =>
        if Path.isTooLong childPath then [.failed (.os childPath .nameTooLong)]
        else walkBelow t followLinks fuel childPath childRelative l (⟨childPath, l⟩ :: inside)
      match child.2 with
      | .file _ _ => [.file childRelative]
      | .directory _ => enter (location ++ [child.1])
      | .link _ =>
        if followLinks then
          match t.locate childPath .read with
          | .error e => [.failed (.os childPath e)]
          | .ok (.found l (.directory _)) =>
            match inside.find? fun a => a.location == l with
            | some a => [.failed (.loop childPath a.path)]
            | none => enter l
          | .ok (.found _ _) => [.file childRelative]
          | .ok _ => []
        else []

/-- Levels enough for every walk of a tree: a directory is entered again only below itself
through its parent, so no more often than its own depth allows. -/
def walkFuel (t : Tree) : Nat := (t.entries.length + 2) * (t.entries.length + 2)

/-- Walks everything below a root, which is what a path leads to. -/
def walkFrom (t : Tree) (followLinks : Bool) (root : String) : Place → List Visit
  | .found l (.directory _) => walkBelow t followLinks t.walkFuel root [] l [⟨root, l⟩]
  | .found _ (.file _ _) => [.file []]
  | _ => []

/-- Walks everything below a root. -/
def walk (t : Tree) (followLinks : Bool) (root : String) : List Visit :=
  match t.locate root .inspect, t.locate root .read with
  | .error e, _ => [.failed (.os root e)]
  | .ok _, .error e => [.failed (.os root e)]
  | .ok (.found _ (.link _)), .ok (.found _ (.file _ _)) => if followLinks then [.file []] else []
  | .ok _, .ok p => t.walkFrom followLinks root p

end Tree
end ThemeRepair

import ThemeRepair.Tree.System

/-!
# Trees of files

A tree is a list of locations, each with what is there: a file, a directory or a symbolic link.
A location is the list of names that lead to it; the root of the tree is the empty list and
always a directory.  The order of the list is the order in which directories are listed, and
nothing else depends on it.
-/

namespace ThemeRepair

/-- The names that lead from the root of a tree to a place in it. -/
abbrev Location := List String

/-- Contents are compared as the core library does, also where another one brings its own way. -/
instance instDecidableEqContent : DecidableEq ByteArray := ByteArray.decEq

/-- What there is at a location.  A mode is its nine permission bits. -/
inductive Node where
  | file (content : ByteArray) (mode : Nat)
  | directory (mode : Nat)
  | link (target : String)
deriving DecidableEq

/-- The mode of a new directory. -/
def Node.directoryMode : Nat := 0o755

/-- The mode of a new file. -/
def Node.fileMode : Nat := 0o644

/-- A tree of files, and the system that keeps it. -/
structure Tree where
  entries : List (Location × Node)
  rootMode : Nat := Node.directoryMode
  system : System := {}
deriving DecidableEq

namespace Tree

/-- The tree with nothing in it. -/
def empty : Tree := { entries := [] }

/-- What there is at a location. -/
def node? (t : Tree) : Location → Option Node
  | [] => some (.directory t.rootMode)
  | l => (t.entries.find? fun e => e.1 == l).map Prod.snd

/-- The entries with another node at a location, which is added behind them if it is new. -/
def putEntry (l : Location) (n : Node) : List (Location × Node) → List (Location × Node)
  | [] => [(l, n)]
  | e :: es => if e.1 = l then (l, n) :: es else e :: putEntry l n es

/-- The tree with another node at a location. -/
def put (t : Tree) (l : Location) (n : Node) : Tree :=
  { t with entries := putEntry l n t.entries }

/-- The names in a directory, each with what it names, in the order of listing. -/
def children (t : Tree) (directory : Location) : List (String × Node) :=
  t.entries.filterMap fun e =>
    match e.1.getLast? with
    | some name => if e.1.dropLast = directory then some (name, e.2) else none
    | none => none

/-- The tree with a directory at a location, unless something is there. -/
def ensureDirectory (t : Tree) (l : Location) : Tree :=
  match t.node? l with
  | some _ => t
  | none => t.put l (.directory Node.directoryMode)

/-- The locations above a location, the root left out. -/
def parents (l : Location) : List Location := (List.range l.length).tail.map l.take

/-- The tree with a node at a location, and directories on the way to it. -/
def plant (t : Tree) (l : Location) (n : Node) : Tree :=
  ((parents l).foldl ensureDirectory t).put l n

/-- Nothing is in the directory at a location. -/
def isEmptyDirectory (t : Tree) (l : Location) : Bool := (t.children l).isEmpty

/-- The files, the links and the empty directories of a tree; the other directories are told by
what is in them. -/
def leaves (t : Tree) : List (Location × Node) :=
  t.entries.filter fun e =>
    match e.2 with
    | .directory _ => t.isEmptyDirectory e.1
    | _ => true

end Tree
end ThemeRepair

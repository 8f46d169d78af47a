import ThemeRepair.Tree.Basic

/-!
# Reading and writing by path

A path is followed name by name from the root of the tree, or from the root of all files.  A
symbolic link on the way is replaced by its target; at most 40 links are followed.  Reading and
writing follow a link that the path ends in, replacing a file does not.

Of what lies outside the tree three things are known: above its root there are directories only,
the standard directories of a system stand in the root of all files, and the null device stands
in the one for devices.  Nothing else is found there.
-/

namespace ThemeRepair
namespace Tree

/-- A directory that a path can stand in. -/
inductive Directory where
  | inside (l : Location)
  /-- Some directory above the root of the tree. -/
  | above
  /-- The root of all files. -/
  | top
  /-- One of the standard directories. -/
  | standard (name : String)
deriving DecidableEq, Repr

/-- The directory that a directory is in. -/
def Directory.parent : Directory → Directory
  | inside l => if l.isEmpty then above else inside l.dropLast
  | above => above
  | top => top
  | standard _ => top

/-- The directories that every system has in the root of all files. -/
def standardDirectories : List String :=
  ["bin", "boot", "dev", "etc", "home", "lib", "media", "mnt", "opt", "proc", "root", "run", "sbin",
    "srv", "sys", "tmp", "usr", "var"]

/-- Where a path leads. -/
inductive Place where
  /-- To something in the tree. -/
  | found (l : Location) (n : Node)
  /-- To a name that a directory of the tree does not have. -/
  | vacant (directory : Location) (name : String)
  /-- To a directory outside the tree. -/
  | outside
  /-- To the null device: it holds nothing, and what is written to it is lost. -/
  | null
deriving DecidableEq

/-- What a path is followed for, which decides what becomes of its end. -/
inductive Use where
  /-- To see what there is; a link at the end stays a link. -/
  | inspect
  /-- To read what is there; a link at the end is followed. -/
  | read
  /-- To write a file, made if need be; a link at the end is followed, and a slash behind the
  last name names no file. -/
  | write
deriving DecidableEq, Repr

/-- The links that are followed for one path. -/
def linkLimit : Nat := 40

/-- The place of a directory. -/
def place (t : Tree) : Directory → Place
  | .inside l =>
    match t.node? l with
    | some n => .found l n
    | none => .outside
  | _ => .outside

/-- The directory that a path starts from, where a relative one starts from `here`. -/
def origin (here : Directory) (path : String) : Directory :=
  if Path.isAbsolute path then .top else here

/-- Where names lead before a link has to be followed. -/
inductive Passage where
  | arrived (p : Place)
  /-- A link in a directory has to be followed; the names behind it are left. -/
  | link (directory : Location) (target : String) (rest : List String)

/-- Follows names from a directory as far as the first link. -/
def pass (t : Tree) (use : Use) : (here : Directory) → List String → Except OsError Passage
  | here, [] => .ok (.arrived (t.place here))
  | here, name :: rest =>
    if name = "" ∨ name = "." then pass t use here rest
    else if name = ".." then pass t use here.parent rest
    else if use = .write ∧ rest = [""] then .error .isDirectory
    else if Path.isNameTooLong name then .error .nameTooLong
    else
      match here with
      | .inside l =>
        match t.node? (l ++ [name]) with
        | none => if rest.isEmpty then .ok (.arrived (.vacant l name)) else .error .notFound
        | some (.directory _) => pass t use (.inside (l ++ [name])) rest
        | some (.file content mode) =>
          if rest.isEmpty then .ok (.arrived (.found (l ++ [name]) (.file content mode)))
          else .error .notDirectory
        | some (.link target) =>
          if rest.isEmpty && use = .inspect then
            .ok (.arrived (.found (l ++ [name]) (.link target)))
          else .ok (.link l target rest)
      | .above => .error .notFound
      | .top =>
        if standardDirectories.contains name then pass t use (.standard name) rest
        else .error .notFound
      | .standard directory =>
        if directory = "dev" ∧ name = "null" then
          if rest.isEmpty then .ok (.arrived .null) else .error .notDirectory
        else .error .notFound

/-- Follows names from a directory, and `links` symbolic links at most. -/
def follow (t : Tree) (use : Use) :
    (links : Nat) → (here : Directory) → List String → Except OsError Place
  | links, here, names =>
    match t.pass use here names with
    | .error e => .error e
    | .ok (.arrived p) => .ok p
    | .ok (.link directory target rest) =>
      match links with
      | 0 => .error .tooManyLinks
      | links + 1 =>
        if target.isEmpty then .error .notFound
        else follow t use links (origin (.inside directory) target) (Path.names target ++ rest)

/-- Where a path leads. -/
def resolve (t : Tree) (path : String) (use : Use) : Except OsError Place :=
  if Path.holdsNul path then .error .nulInPath
  else if path.isEmpty then .error .notFound
  else if Path.isTooLong path then .error .nameTooLong
  else t.follow use linkLimit (origin (.inside []) path) (Path.names path)

/-- Where a path leads that has to lead somewhere. -/
def locate (t : Tree) (path : String) (use : Use) : Except OsError Place :=
  match t.resolve path use with
  | .ok (.vacant _ _) => .error .notFound
  | result => result

/-- A path leads to a directory. -/
def isDirectory (t : Tree) (path : String) : Bool :=
  match t.resolve path .read with
  | .ok (.found _ (.directory _)) => true
  | .ok .outside => true
  | _ => false

/-- The bytes of the file that a path leads to. -/
def read (t : Tree) (path : String) : Except OsError ByteArray :=
  match t.resolve path .read with
  | .error e => .error e
  | .ok (.found _ (.file content _)) => .ok content
  | .ok (.found _ (.directory _)) => .error .isDirectory
  | .ok (.found _ (.link _)) => .error .notFound
  | .ok (.vacant _ _) => .error .notFound
  | .ok .outside => .error .isDirectory
  | .ok .null => .ok ByteArray.empty

/-- The mode of the file or directory of the tree that a path leads to. -/
def mode? (t : Tree) (path : String) : Option Nat :=
  match t.resolve path .read with
  | .ok (.found _ (.file _ mode)) => some mode
  | .ok (.found _ (.directory mode)) => some mode
  | _ => none

/-- The tree with another mode for the file or directory that a path leads to. -/
def setMode (t : Tree) (path : String) (mode : Nat) : Tree :=
  let bits := mode % 0o1000
  match t.resolve path .read with
  | .ok (.found l (.file content _)) => t.put l (.file content bits)
  | .ok (.found [] (.directory _)) => { t with rootMode := bits }
  | .ok (.found l (.directory _)) => t.put l (.directory bits)
  | _ => t

/-- The directory of the tree that names lead to. -/
def directoryAt (t : Tree) (start : Directory) (names : List String) : Except OsError Location :=
  match t.follow .read linkLimit start names with
  | .error e => .error e
  | .ok (.found l (.directory _)) => .ok l
  | .ok (.found _ _) => .error .notDirectory
  | .ok .null => .error .notDirectory
  | .ok _ => .error .notFound

/-- Writes bytes to the file that a path leads to, which is made if its directory is there. -/
def write (t : Tree) (path : String) (content : ByteArray) : Except OsError Tree :=
  match t.resolve path .write with
  | .error e => .error e
  | .ok (.vacant directory name) => .ok (t.put (directory ++ [name]) (.file content Node.fileMode))
  | .ok (.found l (.file _ mode)) => .ok (t.put l (.file content mode))
  | .ok (.found _ _) => .error .isDirectory
  | .ok .outside => .error .isDirectory
  | .ok .null => .ok t

/-- Makes a temporary file beside the file at a path.  It has a name that nothing else has, and it
is gone when the commit that makes it has ended; so it is not put in the tree. -/
def makeTemporary (t : Tree) (path : String) : Except OsError Unit :=
  let directory := Path.directory path
  if Path.isTooLong (t.system.temporaryPath path) then .error .nameTooLong
  else
    match t.directoryAt (origin (.inside []) directory) (Path.names directory) with
    | .error e => .error e
    | .ok _ => t.system.allow path .makeTemporary

/-- Puts a new file in the place that a path names.  A file or a link there is replaced. -/
def replace (t : Tree) (path : String) (content : ByteArray) (mode : Nat) :
    Except OsError Tree := do
  if Path.holdsNul path then .error .nulInPath
  else if path.isEmpty then .error .notFound
  else if Path.isTooLong path then .error .nameTooLong
  else
    let names := (Path.names path).filter (· != "")
    match names.getLast? with
    | none => .error .busy
    | some name =>
      if name = "." ∨ name = ".." then .error .busy
      else
        let directory ← t.directoryAt (origin (.inside []) path) names.dropLast
        if Path.isNameTooLong name then .error .nameTooLong
        else if Path.endsInSlash path then .error .notDirectory
        else
          match t.node? (directory ++ [name]) with
          | some (.directory _) => .error .isDirectory
          | _ => .ok (t.put (directory ++ [name]) (.file content mode))

end Tree
end ThemeRepair

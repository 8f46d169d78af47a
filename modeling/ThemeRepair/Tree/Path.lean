/-!
# Path texts

A path is kept as it was given, and read as the names between its slashes where it has to be
followed.  A slash at the end stands for one more name, the empty one: what stands before it has
to be a directory.
-/

namespace ThemeRepair
namespace Path

/-- The path begins at the root of all files. -/
def isAbsolute (path : String) : Bool := path.toList.head? == some '/'

/-- The path ends with a slash. -/
def endsInSlash (path : String) : Bool := path.toList.getLast? == some '/'

/-- The names that a path goes through, one after the other. -/
def names (path : String) : List String :=
  ((path.toList.splitOn '/').filter (!·.isEmpty)).map String.ofList
    ++ (if endsInSlash path then [""] else [])

/-- The path is longer than the system takes. -/
def isTooLong (path : String) : Bool := 4095 < path.utf8ByteSize

/-- The name is longer than a directory takes. -/
def isNameTooLong (name : String) : Bool := 255 < name.utf8ByteSize

/-- The path holds a NUL, which no path of the system can. -/
def holdsNul (path : String) : Bool := path.toList.contains '\x00'

/-- The path of a name below another path. -/
def join (base name : String) : String :=
  if base.isEmpty || endsInSlash base then base ++ name else base ++ "/" ++ name

/-- The path of names below another path. -/
def joinAll (base : String) (relative : List String) : String := relative.foldl join base

/-- A path read backwards, without the slashes at its end and the dots that stand for no step. -/
def trimBackwards : List Char → List Char
  | '/' :: rest => trimBackwards rest
  | '.' :: '/' :: rest => trimBackwards rest
  | rest => rest

/-- The directory that the last name of a path is in, as far as the text tells. -/
def directory (path : String) : String :=
  let named := trimBackwards path.toList.reverse
  let above := trimBackwards (named.dropWhile (· != '/'))
  if above.isEmpty then
    if isAbsolute path && !named.isEmpty then "/" else "."
  else String.ofList above.reverse

/-- The text of a relative path. -/
def ofNames (names : List String) : String := "/".intercalate names

/-- Names in the order of their characters, the first difference deciding; a path stands before
those that go on from it. -/
def namesLe : List String → List String → Bool
  | [], _ => true
  | _ :: _, [] => false
  | a :: as, b :: bs => a < b || (a == b && namesLe as bs)

end Path
end ThemeRepair

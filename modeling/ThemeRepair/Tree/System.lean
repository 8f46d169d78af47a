import ThemeRepair.Tree.Path

/-!
# The system that keeps a tree

An operation can be refused for what there is in the tree, and it can be refused by the system: a
disk is full, a directory must not be written to, a device fails.  Nothing in a tree tells when, so
the refusals are told beside it, by the file that is dealt with and the step that is refused.
-/

namespace ThemeRepair

/-- Why the system refuses an operation on a path. -/
inductive OsError where
  | notFound
  | busy
  | notDirectory
  | isDirectory
  | nameTooLong
  | tooManyLinks
  /-- The path cannot even be handed to the system. -/
  | nulInPath
  /-- Any other reason, in the words of the system. -/
  | other (wording : String)
deriving DecidableEq, Repr

/-- The wording of a refusal, with its number where the system gave one. -/
def OsError.message : OsError → String
  | notFound => "No such file or directory (os error 2)"
  | busy => "Device or resource busy (os error 16)"
  | notDirectory => "Not a directory (os error 20)"
  | isDirectory => "Is a directory (os error 21)"
  | nameTooLong => "File name too long (os error 36)"
  | tooManyLinks => "Too many levels of symbolic links (os error 40)"
  | nulInPath => "file name contained an unexpected NUL byte"
  | other wording => wording

/-- The steps in which a new text takes the place of a file, in their order. -/
inductive CommitStep where
  | openBackup
  | fillBackup
  | readBackup
  | makeTemporary
  | fillTemporary
  | syncTemporary
  | setMode
  | rename
deriving DecidableEq, Repr

/-- A step that the system refuses for the file at a path.  Where bytes are written in the step,
the first `written` of them have been written when it is refused. -/
structure Refusal where
  path : String
  step : CommitStep
  error : OsError
  written : Nat := 0
deriving DecidableEq, Repr

/-- What a system adds to a tree: the path of the tree's root, the name that a temporary file gets,
and the steps that are refused. -/
structure System where
  rootPath : String := "/"
  temporaryName : String := ".tmp000000"
  refusals : List Refusal := []
deriving DecidableEq, Repr

namespace System

/-- The refusal that a step meets with. -/
def refusal? (s : System) (path : String) (step : CommitStep) : Option Refusal :=
  s.refusals.find? fun r => r.path = path ∧ r.step = step

/-- Takes a step, if it is not refused. -/
def allow (s : System) (path : String) (step : CommitStep) : Except OsError Unit :=
  match s.refusal? path step with
  | some r => .error r.error
  | none => .ok ()

/-- The bytes of a content that a step gets written. -/
def written (s : System) (path : String) (step : CommitStep) (content : ByteArray) : ByteArray :=
  match s.refusal? path step with
  | some r => content.extract 0 r.written
  | none => content

/-- The path of a temporary file beside the file at a path, from the root of all files. -/
def temporaryPath (s : System) (path : String) : String :=
  let directory := Path.directory path
  let base :=
    if Path.isAbsolute directory then directory else Path.join s.rootPath directory
  Path.join base s.temporaryName

end System
end ThemeRepair

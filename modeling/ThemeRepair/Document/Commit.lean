import ThemeRepair.Document.Basic
import ThemeRepair.Text.Quoted

/-!
# Committing a new text

A new text takes the place of a file in steps: the bytes of the old one are written to a backup
beside it, the backup is read back and compared, the new text is written to a temporary file, and
that is put in the old one's place.  The system may refuse each of them, and a backup may be left
half written.  A refusal before the last step leaves the file as it was, unless the backup leads
to the file itself.
-/

namespace ThemeRepair

/-- Why a backup is not relied on. -/
inductive BackupFault where
  | os (e : OsError)
  /-- The backup does not hold what was written to it. -/
  | differs
deriving DecidableEq, Repr

/-- The wording of a fault. -/
def BackupFault.message : BackupFault → String
  | os e => e.message
  | differs => "backup content does not match the original"

/-- Why a new text is not put in the place of a file. -/
inductive WriteFault where
  | os (e : OsError)
  /-- The temporary file cannot be made or filled. -/
  | temporary (path : String) (e : OsError)
deriving DecidableEq, Repr

/-- The wording of a fault, which quotes the path of the temporary file. -/
def WriteFault.message : WriteFault → String
  | os e => e.message
  | temporary path e => e.message ++ " at path " ++ String.ofList (Text.quoted path.toList)

/-- Why an operation on a file is refused. -/
inductive FileError where
  | unreadable (path : String) (reason : ReadError)
  | backup (path : String) (fault : BackupFault)
  | write (path : String) (fault : WriteFault)
deriving DecidableEq, Repr

/-- The wording of a refusal. -/
def FileError.message : FileError → String
  | unreadable path reason => "unreadable file " ++ path ++ ": " ++ reason.message
  | backup path fault => "backup failed for " ++ path ++ ": " ++ fault.message
  | write path fault => "write failed for " ++ path ++ ": " ++ fault.message

/-- The path of a file's backup. -/
def backupPath (path suffix : String) : String := path ++ suffix

/-- The mode of a temporary file, and of a file that takes no other file's place. -/
def privateFileMode : Nat := 0o600

/-- The mode that a new file gets in the place of the one at a path.  That it cannot be set stops
nothing. -/
def Tree.newMode (t : Tree) (path : String) : Nat :=
  match t.system.allow path .setMode with
  | .ok () => (t.mode? path).getD privateFileMode
  | .error _ => privateFileMode

namespace Document

/-- Checks the backup that was written: all of it was, it can be read back, and it holds the
document. -/
def checkBackup (doc : Document) (suffix : String) (tree : Tree) : Except BackupFault Unit := do
  (tree.system.allow doc.path .fillBackup).mapError .os
  (tree.system.allow doc.path .readBackup).mapError .os
  let written ← (tree.read (backupPath doc.path suffix)).mapError .os
  if written = doc.encode doc.text then .ok () else .error .differs

/-- Writes the backup of a document and reads it back: the tree that then is, and whether the
backup holds the document.  A backup that is opened loses what it held before. -/
def writeBackup (doc : Document) (suffix : String) (tree : Tree) : Except BackupFault Unit × Tree :=
  let bytes := tree.system.written doc.path .fillBackup (doc.encode doc.text)
  match tree.system.allow doc.path .openBackup with
  | .error e => (.error (.os e), tree)
  | .ok () =>
    match tree.write (backupPath doc.path suffix) bytes with
    | .error e => (.error (.os e), tree)
    | .ok tree => (doc.checkBackup suffix tree, tree)

/-- Writes a new text to a temporary file, and puts this in the place of a document. -/
def replace (doc : Document) (text : Text) (tree : Tree) : Except WriteFault Tree := do
  let temporary := tree.system.temporaryPath doc.path
  (tree.makeTemporary doc.path).mapError (.temporary temporary)
  (tree.system.allow doc.path .fillTemporary).mapError (.temporary temporary)
  (tree.system.allow doc.path .syncTemporary).mapError .os
  (tree.system.allow doc.path .rename).mapError .os
  (tree.replace doc.path (doc.encode text) (tree.newMode doc.path)).mapError .os

/-- Puts a new text in the place of a document, keeping a backup.  The result tells whether that
was done, and the tree that then is. -/
def commit (doc : Document) (text : Text) (suffix : String) (tree : Tree) :
    Except FileError Unit × Tree :=
  match doc.writeBackup suffix tree with
  | (.error fault, tree) => (.error (.backup (backupPath doc.path suffix) fault), tree)
  | (.ok (), tree) =>
    match doc.replace text tree with
    | .error fault => (.error (.write doc.path fault), tree)
    | .ok tree => (.ok (), tree)

end Document
end ThemeRepair

import ThemeRepair.CommandLine.Execution

/-!
# The program

Reads the tree below the working directory, carries out the command line on it, and writes what
has changed.  New files are written first, so that a backup is complete before the file it backs
up is touched.
-/

namespace ThemeRepair
namespace Main

/-- The path of a location. -/
def pathOf (l : Location) : String := Path.ofNames ("." :: l)

/-- The target of a link, told from the directory of the link; empty where the link leads out of
the tree or nowhere. -/
def linkTarget (root : String) (l : Location) : IO String := do
  try
    let target ← IO.FS.realPath (pathOf l)
    let names := (Path.names target.toString).filter (· != "")
    let rootNames := (Path.names root).filter (· != "")
    if rootNames.isPrefixOf names then
      return Path.ofNames
        (List.replicate (l.length - 1) ".." ++ "." :: names.drop rootNames.length)
    else return ""
  catch _ => return ""

/-- Reads what is below a directory into a tree. -/
partial def readDirectory (root : String) (directory : Location) (tree : Tree) : IO Tree := do
  let mut tree := tree
  for entry in (← (System.mkFilePath ["."] / Path.ofNames directory).readDir) do
    let l := directory ++ [entry.fileName]
    match (← entry.path.symlinkMetadata).type with
    | .dir => tree ← readDirectory root l (tree.put l (.directory Node.directoryMode))
    | .symlink => tree := tree.put l (.link (← linkTarget root l))
    | .file => tree := tree.put l (.file (← IO.FS.readBinFile entry.path) Node.fileMode)
    | .other => pure ()
  return tree

/-- Writes the file at a location of a tree. -/
def writeFile (before after : Tree) (l : Location) : IO Unit := do
  match after.node? l with
  | some (.file content _) =>
    match before.node? l with
    | some (.link _) => IO.FS.removeFile (pathOf l)
    | _ => pure ()
    IO.FS.writeBinFile (pathOf l) content
  | _ => pure ()

/-- Writes the files in which a tree differs from what was read, the new ones first. -/
def writeChanges (before after : Tree) : IO Unit := do
  let changed := (after.entries.map Prod.fst).filter fun l => after.node? l != before.node? l
  let (old, new) := changed.partition fun l => (before.node? l).isSome
  for l in new ++ old do
    writeFile before after l

end Main
end ThemeRepair

/-- Carries out the command line on the working directory. -/
def main (arguments : List String) : IO UInt32 := do
  let root ← IO.FS.realPath "."
  let tree ← ThemeRepair.Main.readDirectory root.toString []
    { ThemeRepair.Tree.empty with system := { rootPath := root.toString } }
  let execution := ThemeRepair.CommandLine.execute arguments tree
  ThemeRepair.Main.writeChanges tree execution.tree
  IO.eprint execution.diagnostics
  IO.print execution.output
  return UInt32.ofNat execution.exitCode

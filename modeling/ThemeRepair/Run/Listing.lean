import ThemeRepair.Run.Basic

/-!
# The listing at the end of a run

The listing names the command, then every file there is something to say about, then what could
not be visited, and ends with the totals.
-/

namespace ThemeRepair
namespace Summary

/-- A line below a file: what it is about, and what there is to say. -/
def entry (label text : String) : String := "    " ++ Event.padded 12 label ++ " " ++ text ++ "\n"

/-- The word for a fix, which a run that does not write only announces. -/
def fixVerb (s : Summary) : String := if s.write then "fixed" else "would fix"

/-- The lines about a file. -/
def fileLines (s : Summary) (r : Report) : List String :=
  ["  " ++ r.path ++ "\n"]
    ++ r.fixedLines.map (entry s.fixVerb)
    ++ r.manualLines.map (entry "manual")
    ++ r.skippedLines.map (entry "skipped")
    ++ r.failure.toList.map (fun failure => entry "error" failure.message)
    ++ r.backup.toList.map (entry "backup")

/-- The line about something that could not be visited. -/
def walkErrorLine (message : String) : String :=
  "  " ++ Event.padded 14 "unreadable" ++ " " ++ message ++ "\n"

/-- A line of the totals. -/
def totalLine (label : String) (count : Nat) : String :=
  "  " ++ label ++ ": " ++ toString count ++ "\n"

/-- The totals. -/
def totalLines (s : Summary) : List String :=
  [totalLine "files scanned" s.reports.length, totalLine "files changed" s.changedCount,
    totalLine "fixes" s.fixCount, totalLine "manual actions" s.manualCount,
    totalLine "skipped regions" s.skippedCount, totalLine "failed files" s.failedCount]

/-- The line that names the command. -/
def titleLine (s : Summary) (command : String) : String :=
  (if s.write then command else command ++ " (dry-run)") ++ "\n"

/-- The listing, under the name of the command that asked for the run. -/
def listing (s : Summary) (command : String) : String :=
  String.join
    ([s.titleLine command]
      ++ (s.reports.filter Report.isNoteworthy).flatMap s.fileLines
      ++ s.walkErrors.map walkErrorLine
      ++ s.totalLines
      ++ ["ok\n"])

end Summary
end ThemeRepair

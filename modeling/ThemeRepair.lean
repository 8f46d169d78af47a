import ThemeRepair.Text.Basic
import ThemeRepair.Text.Quoted
import ThemeRepair.Text.JsonQuoted
import ThemeRepair.Text.Utf8
import ThemeRepair.Component.Repair
import ThemeRepair.Template.Heading
import ThemeRepair.Session
import ThemeRepair.Toml.Document
import ThemeRepair.Glob.Group
import ThemeRepair.Tree.Walk
import ThemeRepair.Document.Commit
import ThemeRepair.Document.Repair
import ThemeRepair.Settings.Check
import ThemeRepair.Settings.Read
import ThemeRepair.Discovery
import ThemeRepair.Run.Basic
import ThemeRepair.Run.Listing
import ThemeRepair.CommandLine.Execution
import ThemeRepair.Main
import ThemeRepair.Proofs.Text.Cut
import ThemeRepair.Proofs.Text.White
import ThemeRepair.Proofs.Text.Edit
import ThemeRepair.Proofs.Line.Reading
import ThemeRepair.Proofs.Line.Key
import ThemeRepair.Proofs.Line.Nesting
import ThemeRepair.Proofs.Line.Placement
import ThemeRepair.Proofs.Region.Location
import ThemeRepair.Proofs.Region.Header
import ThemeRepair.Proofs.Region.Edit
import ThemeRepair.Proofs.Region.Opening
import ThemeRepair.Proofs.Region.Walk
import ThemeRepair.Proofs.Region.Extent
import ThemeRepair.Proofs.Region.Descent
import ThemeRepair.Proofs.Region.Coverage
import ThemeRepair.Proofs.Declaration.Block
import ThemeRepair.Proofs.Declaration.Partition
import ThemeRepair.Proofs.Declaration.Names
import ThemeRepair.Proofs.Component.Conflict
import ThemeRepair.Proofs.Component.Change
import ThemeRepair.Proofs.Component.Passes
import ThemeRepair.Proofs.Component.Rewriting
import ThemeRepair.Proofs.Component.SectionHeader
import ThemeRepair.Proofs.Component.Checks
import ThemeRepair.Proofs.Component.Resolution
import ThemeRepair.Proofs.Component.Variants
import ThemeRepair.Proofs.Component.Frame
import ThemeRepair.Proofs.Component.SequenceCount
import ThemeRepair.Proofs.Component.Identity
import ThemeRepair.Proofs.Component.Exposure
import ThemeRepair.Proofs.Component.Refusal
import ThemeRepair.Proofs.Component.Collapse
import ThemeRepair.Proofs.Component.Separation
import ThemeRepair.Proofs.Component.Convergence
import ThemeRepair.Proofs.Component.Budget
import ThemeRepair.Proofs.Component.Realignment
import ThemeRepair.Proofs.Template.Balance
import ThemeRepair.Proofs.Template.Spelling
import ThemeRepair.Proofs.Template.Search
import ThemeRepair.Proofs.Template.Written
import ThemeRepair.Proofs.Template.Replacement
import ThemeRepair.Proofs.Template.Nesting
import ThemeRepair.Proofs.Template.Rendering
import ThemeRepair.Proofs.Template.Settling
import ThemeRepair.Proofs.Template.Recognition
import ThemeRepair.Proofs.Template.ReadBack
import ThemeRepair.Proofs.Template.Literal
import ThemeRepair.Proofs.Template.Splitting
import ThemeRepair.Proofs.Template.Pairing
import ThemeRepair.Proofs.Template.Requoting
import ThemeRepair.Proofs.Component.Place
import ThemeRepair.Proofs.Finding.Diff
import ThemeRepair.Proofs.Finding.Staleness
import ThemeRepair.Proofs.Finding.AnyText
import ThemeRepair.Proofs.Finding.Batch
import ThemeRepair.Proofs.Document.Below
import ThemeRepair.Proofs.Document.Traces
import ThemeRepair.Proofs.Document.Rereading
import ThemeRepair.Proofs.Document.Encoding
import ThemeRepair.Proofs.Run.Isolation
import ThemeRepair.Proofs.Run.Edits
import ThemeRepair.Proofs.Run.Rerun
import ThemeRepair.Proofs.Run.DryRun
import ThemeRepair.Proofs.Run.Totals
import ThemeRepair.Proofs.Run.Selection

import Checklist.Calendar.DateCache
import Checklist.Main
import Checklist.Proofs.Index.Session
import Checklist.Proofs.Index.Freshness
import Checklist.Proofs.Value.Suits
import Checklist.Proofs.Markup.Reading
import Checklist.Proofs.Note.Tasks
import Checklist.Proofs.Calendar.Date
import Checklist.Proofs.Calendar.DateText
import Checklist.Proofs.Recurrence
import Checklist.Proofs.Markup.Consume
import Checklist.Proofs.Markup.Marks
import Checklist.Proofs.Markup.Symbols
import Checklist.Proofs.Markup.Cells
import Checklist.Proofs.Markup.Item
import Checklist.Proofs.Task.Items
import Checklist.Proofs.Markup.Numbering
import Checklist.Proofs.Task.Fields
import Checklist.Proofs.Markup.OnLine
import Checklist.Proofs.Task.OfLine
import Checklist.Proofs.Line
import Checklist.Proofs.Task.RoundTrip
import Checklist.Proofs.Note.Lines
import Checklist.Proofs.Note.Hierarchy
import Checklist.Proofs.Value.JsonString
import Checklist.Proofs.Index.Unchanged
import Checklist.Proofs.Index.Incremental
import Checklist.Proofs.Inheritance
import Checklist.Proofs.Inheritance.Gaps
import Checklist.Proofs.Note.Projects
import Checklist.Proofs.Note.Switches
import Checklist.Proofs.Value.Entries
import Checklist.Proofs.Value.Keys
import Checklist.Proofs.Note.Precedence
import Checklist.Proofs.Index.Independence
import Checklist.Proofs.Value.Writing
import Checklist.Proofs.Index.Report
import Checklist.Proofs.Note.Stability
import Checklist.Proofs.Note.Locality
import Checklist.Proofs.Markup.Flat
import Checklist.Proofs.Note.Lead
import Checklist.Proofs.Task.Clean
import Checklist.Proofs.Markup.Segments
import Checklist.Proofs.Markup.Removal
import Checklist.Proofs.Note.ByteOrderMark
import Checklist.Proofs.Note.Blocks
import Checklist.Proofs.Header
import Checklist.Proofs.Note.Authorship
import Checklist.Proofs.Filter.Groups
import Checklist.Proofs.Filter.Verdict
import Checklist.Proofs.Workflow.Definition
import Checklist.Proofs.Workflow.Traversal
import Checklist.Proofs.Workflow.Marker
import Checklist.Proofs.Workflow.Onward
import Checklist.Proofs.Directory
import Checklist.Proofs.Project.Nearest
import Checklist.Proofs.Command.ProjectFiles
import Checklist.Proofs.Index.Jobs
import Checklist.Proofs.Index.Accounts
import Checklist.Proofs.Markup.Foremost
import Checklist.Proofs.Markup.Budget
import Checklist.Proofs.LowerCase
import Checklist.Proofs.Value.JsonReading
import Checklist.Proofs.Settings.Reload
import Checklist.Proofs.Markup.Naming
import Checklist.Proofs.Markup.Remainder
import Checklist.Proofs.Markup.Verdicts
import Checklist.Proofs.Markup.Recognition
import Checklist.Proofs.Markup.Unmasked
import Checklist.Proofs.Markup.Sense
import Checklist.Proofs.Note.Heeded
import Checklist.Proofs.Project.Mappings
import Checklist.Proofs.Project.Reader
import Checklist.Proofs.Calendar.TimestampText
import Checklist.Proofs.Calendar.Order
import Checklist.Proofs.Calendar.Literal
import Checklist.Proofs.Calendar.Keyword
import Checklist.Proofs.Calendar.NotePath
import Checklist.Proofs.Filter.Order
import Checklist.Proofs.Filter.Unknown
import Checklist.Proofs.View.Selection
import Checklist.Proofs.View.Tree
import Checklist.Proofs.Outline.Walk
import Checklist.Proofs.Markup.Placeholders
import Checklist.Proofs.Line.Assembly

import SymbolGraph.Comment.Group
import SymbolGraph.Comment.Html
import SymbolGraph.Json.GlobalRecords
import SymbolGraph.Json.Settings
import SymbolGraph.Json.Text
import SymbolGraph.Program.Assembly
import SymbolGraph.Program.TypeExpr
import SymbolGraph.Proofs.Keys.Agreement
import SymbolGraph.Proofs.Placement.Distinct
import SymbolGraph.Proofs.Placement.Termination
import SymbolGraph.Proofs.Program.WellFormed
import SymbolGraph.Proofs.Run.Consistency
import SymbolGraph.Proofs.Run.References
import SymbolGraph.Proofs.Run.Replay
import SymbolGraph.Proofs.Syntax.Descendants
import SymbolGraph.Session
import SymbolGraph.Source.Directories
import SymbolGraph.Proofs.Run.Progress
import SymbolGraph.Proofs.Run.Outcome
import SymbolGraph.Proofs.Placement.Fields
import SymbolGraph.Proofs.Placement.ManyFiles
import SymbolGraph.Proofs.Placement.AcrossFiles
import SymbolGraph.Proofs.Resolve.Repetition
import SymbolGraph.Proofs.Run.Documented
import SymbolGraph.Proofs.Run.FileOrder
import SymbolGraph.Proofs.Resolve.Locality
import SymbolGraph.Proofs.Global.Policies
import SymbolGraph.Proofs.Resolve.Lookups
import SymbolGraph.Proofs.Json.RoundTrip
import SymbolGraph.Proofs.Run.Visibility
import SymbolGraph.Proofs.Placement.PositionTags
import SymbolGraph.Proofs.Run.Texts
import SymbolGraph.Proofs.Resolve.Vendored
import SymbolGraph.Proofs.Resolve.Matching
import SymbolGraph.Proofs.Resolve.Repositories
import SymbolGraph.Proofs.Run.FirstSelections
import SymbolGraph.Proofs.Program.Promotion
import SymbolGraph.Proofs.Resolve.ImportTags
import SymbolGraph.Proofs.Comment.Blocks
import SymbolGraph.Proofs.Comment.Headings
import SymbolGraph.Proofs.Comment.Rendering
import SymbolGraph.Proofs.Comment.Tokens
import SymbolGraph.Proofs.Config.Applying
import SymbolGraph.Proofs.Program.TypeStrings
import SymbolGraph.Proofs.Text.Finding
import SymbolGraph.Proofs.Syntax.Traversals
import SymbolGraph.Proofs.Placement.Moments

import SourcePages.FileTree.Seen
import SourcePages.Filter.Alignment
import SourcePages.Main
import SourcePages.Unit.Segment
import SourcePages.Proofs.Unit.Block
import SourcePages.Proofs.Unit.Segmentation
import SourcePages.Proofs.Text.Split
import SourcePages.Proofs.Unit.Legible
import SourcePages.Proofs.Text.Utf8
import SourcePages.Proofs.Unit.Span
import SourcePages.Proofs.Page
import SourcePages.Proofs.FileTree.Walk
import SourcePages.Proofs.Path.Parent
import SourcePages.Proofs.Path.Page
import SourcePages.Proofs.FileTree.Directories
import SourcePages.Proofs.Project.Sources
import SourcePages.Proofs.Project.Process
import SourcePages.Proofs.Project.Collisions
import SourcePages.Proofs.Project.Generate
import SourcePages.Proofs.Project.Order
import SourcePages.Proofs.Project.Accounts
import SourcePages.Proofs.Project.Links
import SourcePages.Proofs.Text.Order
import SourcePages.Proofs.FileTree.Resolve
import SourcePages.Proofs.Project.Selection
import SourcePages.Proofs.Project.Rerun
import SourcePages.Proofs.FileTree.Growth
import SourcePages.Proofs.Project.DryRun
import SourcePages.Proofs.Project.OwnPages
import SourcePages.Proofs.FileTree.Budget
import SourcePages.Proofs.Project.Spelling
import SourcePages.Proofs.Json.Scalar
import SourcePages.Proofs.Json.Token
import SourcePages.Proofs.Json.Read
import SourcePages.Proofs.Json.Decode
import SourcePages.Proofs.Report.Json
import SourcePages.Proofs.Command.Status
import SourcePages.Proofs.Text.Encode
import SourcePages.Proofs.Filter.Alignment
import SourcePages.Proofs.Filter.Hidden
import SourcePages.Proofs.Json5.Read
import SourcePages.Proofs.Project.Manifest
import SourcePages.Proofs.Unit.Continuation
import SourcePages.Proofs.Project.Ownership
import SourcePages.Proofs.Project.Failure
import SourcePages.Proofs.Path.Mirror
import SourcePages.Proofs.Unit.Naming
import SourcePages.Proofs.Project.LeftOut
import SourcePages.Proofs.Filter.Refusal

import Scaffold.Definition.Field.Parts
import Scaffold.Disk.Listing
import Scaffold.Main
import Scaffold.Moment.Iso
import Scaffold.Proofs.Dependency.Order
import Scaffold.Proofs.Manifest.Cleanup
import Scaffold.Proofs.Manifest.Change
import Scaffold.Proofs.Manifest.RoundTrip
import Scaffold.Proofs.Disk.Writing
import Scaffold.Proofs.Generation.Emissions
import Scaffold.Proofs.Generation.Running
import Scaffold.Proofs.Generation.Stamping
import Scaffold.Proofs.Json.Shapes
import Scaffold.Proofs.Schema.Parts
import Scaffold.Proofs.Schema.Documents
import Scaffold.Proofs.Schema.Rendering
import Scaffold.Proofs.Schema.Unchanged
import Scaffold.Proofs.Generation.PlainNames
import Scaffold.Proofs.Generation.Tracked
import Scaffold.Proofs.Generation.Settling
import Scaffold.Proofs.Generation.Stranding
import Scaffold.Proofs.Definition.Decimals
import Scaffold.Proofs.Definition.Reading
import Scaffold.Proofs.Manifest.History
import Scaffold.Proofs.Text.Trimming
import Scaffold.Proofs.Disk.Fitting
import Scaffold.Proofs.Generation.Keeping
import Scaffold.Proofs.Schema.Building
import Scaffold.Proofs.Section.Finding
import Scaffold.Proofs.Section.Merging
import Scaffold.Proofs.Section.Inserting
import Scaffold.Proofs.Validation.Violations
import Scaffold.Proofs.Generation.Delivery
import Scaffold.Proofs.Generation.Migrations
import Scaffold.Proofs.Generation.Completing
import Scaffold.Proofs.Generation.Failing
import Scaffold.Proofs.Generation.Confining
import Scaffold.Proofs.Generation.Previewing
import Scaffold.Proofs.Manifest.Buckets
import Scaffold.Proofs.Reconciliation.Calls
import Scaffold.Proofs.Generation.Sequence
import Scaffold.Proofs.Render.Pages
import Scaffold.Proofs.Render.Guarding
import Scaffold.Proofs.Render.References
import Scaffold.Proofs.Render.MethodNames
import Scaffold.Proofs.Dependency.Warnings
import Scaffold.Proofs.Dependency.Displacement
import Scaffold.Proofs.Environment.Updating
import Scaffold.Proofs.Environment.Repeating
import Scaffold.Proofs.Render.Fresh
import Scaffold.Proofs.Generation.Covering
import Scaffold.Proofs.Generation.ExitCodes
import Scaffold.Proofs.Php.Scalars
import Scaffold.Proofs.Render.Undoing
import Scaffold.Proofs.Naming.Plurals

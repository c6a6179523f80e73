import MaterialGraph.Description.Writer
import MaterialGraph.Files.Watch
import MaterialGraph.Main
import MaterialGraph.Proofs.Graph.Path
import MaterialGraph.Proofs.Graph.Peeling
import MaterialGraph.Proofs.Graph.Scheduling
import MaterialGraph.Proofs.Graph.Feeding
import MaterialGraph.Proofs.Graph.Layout
import MaterialGraph.Proofs.Graph.Wiring
import MaterialGraph.Proofs.Graph.Typing
import MaterialGraph.Proofs.Callable.Formals
import MaterialGraph.Proofs.Callable.Body
import MaterialGraph.Proofs.Lowering.Represents
import MaterialGraph.Proofs.Lowering.Steps
import MaterialGraph.Proofs.Lowering.Run
import MaterialGraph.Proofs.Compile.Classification
import MaterialGraph.Proofs.Lowering.Evaluation
import MaterialGraph.Proofs.Expr.Typing
import MaterialGraph.Proofs.Lowering.Typing
import MaterialGraph.Proofs.Wgsl.Emission
import MaterialGraph.Proofs.Wgsl.Code
import MaterialGraph.Proofs.Compile.WellTyped
import MaterialGraph.Proofs.Digest.Encoding
import MaterialGraph.Proofs.Digest.Records
import MaterialGraph.Proofs.Digest.Stream
import MaterialGraph.Proofs.Wgsl.Sharing
import MaterialGraph.Proofs.Wgsl.Run
import MaterialGraph.Proofs.Compile.Parameters
import MaterialGraph.Proofs.Shader.Functions
import MaterialGraph.Proofs.Shader.Sharing
import MaterialGraph.Proofs.Lowering.Expressible
import MaterialGraph.Proofs.Wgsl.Typing
import MaterialGraph.Proofs.Wgsl.WellTyped
import MaterialGraph.Proofs.Shader.Typing
import MaterialGraph.Proofs.Graph.Locality
import MaterialGraph.Proofs.Lowering.Locality
import MaterialGraph.Proofs.Compile.Locality
import MaterialGraph.Proofs.Shader.CacheKey
import MaterialGraph.Proofs.Digest.Presentation
import MaterialGraph.Proofs.Texts
import MaterialGraph.Proofs.Compile.Conflicts
import MaterialGraph.Proofs.Shader.Assembly
import MaterialGraph.Proofs.Lowering.Invariant
import MaterialGraph.Proofs.Compile.Scopes
import MaterialGraph.Proofs.Wgsl.Declarations
import MaterialGraph.Proofs.Shader.Declarations
import MaterialGraph.Proofs.Library.Calls
import MaterialGraph.Proofs.Library.Steps
import MaterialGraph.Proofs.Library.Loading
import MaterialGraph.Proofs.Library.History
import MaterialGraph.Proofs.Library.Acceptance
import MaterialGraph.Proofs.Compile.DeadNodes
import MaterialGraph.Proofs.Shader.Identifiers
import MaterialGraph.Proofs.Graph.Diagnostics
import MaterialGraph.Proofs.Graph.Reordering
import MaterialGraph.Proofs.Callable.Storage
import MaterialGraph.Proofs.Description.Reload
import MaterialGraph.Proofs.Decimal.Digits
import MaterialGraph.Proofs.Text.Json.Scanning
import MaterialGraph.Proofs.Text.Json.Reading
import MaterialGraph.Proofs.Text.Json.Record
import MaterialGraph.Proofs.Description.RoundTrip
import MaterialGraph.Proofs.Library.Reloading
import MaterialGraph.Proofs.Graph.Faults
import MaterialGraph.Proofs.Shader.Previews
import MaterialGraph.Proofs.Compile.Sharing
import MaterialGraph.Proofs.Shader.Rendering
import MaterialGraph.Proofs.Graph.Discovery
import MaterialGraph.Proofs.Graph.Levels
import MaterialGraph.Proofs.Graph.Cycles
import MaterialGraph.Proofs.Compile.Planning
import MaterialGraph.Proofs.Compile.Policies
import MaterialGraph.Proofs.Compile.Reports
import MaterialGraph.Proofs.Graph.Edits
import MaterialGraph.Proofs.Decimal.Rounding
import MaterialGraph.Proofs.Text.Json.Numerals
import MaterialGraph.Proofs.Description.Overflow
import MaterialGraph.Proofs.Compile.Constants
import MaterialGraph.Proofs.Graph.Adjacency
import MaterialGraph.Proofs.Graph.Counting

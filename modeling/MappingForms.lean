import MappingForms.Table
import MappingForms.TypeRef
import MappingForms.CallableId
import MappingForms.Binary64
import MappingForms.Binary64.Shortest
import MappingForms.Expr
import MappingForms.Expr.Traversal
import MappingForms.Expr.Names
import MappingForms.Expr.Substitution
import MappingForms.Marker
import MappingForms.CompilationUnit
import MappingForms.Diagnostic
import MappingForms.Callables
import MappingForms.Discovery
import MappingForms.CallGraph
import MappingForms.CallGraph.Components
import MappingForms.CallGraph.Cycles
import MappingForms.Inlining
import MappingForms.OptionalLinks
import MappingForms.Document
import MappingForms.Source.Expression
import MappingForms.PropertyPath
import MappingForms.Statement
import MappingForms.UpdatePlan
import MappingForms.Artifact
import MappingForms.Batch
import MappingForms.Json.Numeral
import MappingForms.Json
import MappingForms.Json.Token
import MappingForms.Json.Reader
import MappingForms.Json.Writer
import MappingForms.Json.Decoding
import MappingForms.Interchange.Types
import MappingForms.Interchange.Expression
import MappingForms.Interchange.Unit
import MappingForms.Toml
import MappingForms.Toml.Moment
import MappingForms.Toml.Reader
import MappingForms.Toml.Scan
import MappingForms.Toml.Scan.Moment
import MappingForms.Toml.Scan.Number
import MappingForms.Toml.Scan.Text
import MappingForms.Config
import MappingForms.TextDiff
import MappingForms.TextDiff.Search
import MappingForms.TextDiff.Compaction
import MappingForms.TextDiff.Unified
import MappingForms.FilePath
import MappingForms.Files
import MappingForms.FileTree
import MappingForms.Session
import MappingForms.OutputDirectory
import MappingForms.Command
import MappingForms.CommandLine
import MappingForms.Main
import MappingForms.Proofs.Table
import MappingForms.Proofs.Expr.Children
import MappingForms.Proofs.Expr.Scope
import MappingForms.Proofs.Expr.Nameless
import MappingForms.Proofs.Expr.Capture
import MappingForms.Proofs.Expr.FreshNames
import MappingForms.Proofs.Expr.Traversal
import MappingForms.Proofs.Evaluation
import MappingForms.Proofs.LinkExpansion
import MappingForms.Proofs.LinkResolution
import MappingForms.Proofs.LinkStability
import MappingForms.Proofs.StrictLinks
import MappingForms.Proofs.Objects
import MappingForms.Proofs.UpdatePlan.Execution
import MappingForms.Proofs.UpdatePlan.Stored
import MappingForms.Proofs.UpdatePlan.Typing
import MappingForms.Proofs.UpdatePlan.Writes
import MappingForms.Proofs.UpdatePlan.Agreement
import MappingForms.Proofs.UpdatePlan.Run
import MappingForms.Proofs.UpdatePlan.Shape
import MappingForms.Proofs.UpdatePlan.Classification
import MappingForms.Proofs.UpdatePlan.Collections
import MappingForms.Proofs.CallGraph.Reachability
import MappingForms.Proofs.CallGraph.Walk
import MappingForms.Proofs.CallGraph.Components
import MappingForms.Proofs.CallGraph.CycleReport
import MappingForms.Proofs.CallGraph.SafeCalls
import MappingForms.Proofs.Inlining.Expansion
import MappingForms.Proofs.Inlining.Termination
import MappingForms.Proofs.Inlining.NormalForm
import MappingForms.Proofs.Inlining.KeptBodies
import MappingForms.Proofs.Discovery
import MappingForms.Proofs.Discovery.Partition
import MappingForms.Proofs.ArtifactNames
import MappingForms.Proofs.Document
import MappingForms.Proofs.Document.Lines
import MappingForms.Proofs.Binary64.Rounding
import MappingForms.Proofs.Source.Lexis
import MappingForms.Proofs.Source.Numeral
import MappingForms.Proofs.Source.Surface
import MappingForms.Proofs.Source.Text
import MappingForms.Proofs.Source.Reader
import MappingForms.Proofs.Source.Operands
import MappingForms.Proofs.Source.Places
import MappingForms.Proofs.Source.RoundTrip
import MappingForms.Proofs.Source.StringLiteral
import MappingForms.Proofs.Batch.WorkerPool
import MappingForms.Proofs.Batch.FormAccount
import MappingForms.Proofs.CallGraph.Restriction
import MappingForms.Proofs.CallGraph.EdgeOrder
import MappingForms.Proofs.CallGraph.ShortestWay
import MappingForms.Proofs.CallGraph.Decomposition
import MappingForms.Proofs.CallGraph.FirstCalls
import MappingForms.Proofs.Batch.Locality
import MappingForms.Proofs.FilePath
import MappingForms.Proofs.FileTree
import MappingForms.Proofs.OutputDirectory
import MappingForms.Proofs.GuardHygiene
import MappingForms.Proofs.TransformedNames
import MappingForms.Proofs.Binary64.Range
import MappingForms.Proofs.Json.Depth
import MappingForms.Proofs.Json.Decoding
import MappingForms.Proofs.Json.Numeral
import MappingForms.Proofs.Json.Text
import MappingForms.Proofs.Interchange.Types
import MappingForms.Proofs.Interchange.Expression
import MappingForms.Proofs.Interchange.Unit

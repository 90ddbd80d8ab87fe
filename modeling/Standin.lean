import Standin.Abstraction
import Standin.Body
import Standin.Body.Codec
import Standin.Body.Printer
import Standin.Body.Tidy
import Standin.CallGraph
import Standin.CallGraph.Build
import Standin.CallGraph.Gxl
import Standin.CallGraph.Hierarchy
import Standin.Command.Arguments
import Standin.Command.Help
import Standin.Command.Run
import Standin.Command.Summary
import Standin.Decimal.Binary
import Standin.Decimal.Layout
import Standin.Decimal.Shortest
import Standin.Distinct
import Standin.Draft
import Standin.Effects
import Standin.Effects.Reflective
import Standin.FileTree
import Standin.FileTree.Folder
import Standin.Host
import Standin.Json.Basic
import Standin.Json.Decoder
import Standin.Json.Reader
import Standin.Json.Token
import Standin.Json.Writer
import Standin.Library
import Standin.MethodRef
import Standin.MethodRef.Codec
import Standin.MethodRef.Parser
import Standin.Path
import Standin.Program
import Standin.Program.Codec
import Standin.Program.Index
import Standin.ReflectionLog
import Standin.Settings
import Standin.Settings.Parser
import Standin.StandIn
import Standin.StandIn.Step
import Standin.SynthesisError
import Standin.Text.Blank
import Standin.Text.Extenders
import Standin.Text.Hex
import Standin.Text.Ignorable
import Standin.Text.Quoted
import Standin.Text.Ranges
import Standin.Text.Split
import Standin.Text.Unprintable
import Standin.Toml.Basic
import Standin.Toml.Document
import Standin.Toml.Scalar
import Standin.Toml.Text
import Standin.Toml.Value
import Standin.ValueType
import Standin.ValueType.Codec
import Standin.ValueType.Parser
import Standin.Main
import Standin.Proofs.Code
import Standin.Proofs.Draft
import Standin.Proofs.Blocks
import Standin.Proofs.Plan
import Standin.Proofs.Reflection
import Standin.Proofs.Calls
import Standin.Proofs.Trace
import Standin.Proofs.Replacement
import Standin.Proofs.Scan
import Standin.Proofs.Findings
import Standin.Proofs.CallEdges
import Standin.Proofs.Hierarchy
import Standin.Proofs.Closure
import Standin.Proofs.Typing
import Standin.Proofs.Straight
import Standin.Proofs.Order
import Standin.Proofs.Flows
import Standin.Proofs.Independence
import Standin.Proofs.Batch
import Standin.Proofs.FlowReport
import Standin.Proofs.Alike
import Standin.Proofs.EitherPlace
import Standin.Proofs.Feasibility
import Standin.Proofs.SecondRun
import Standin.Proofs.JsonText
import Standin.Proofs.Rounding
import Standin.Proofs.NumberReading
import Standin.Proofs.NumberWriting
import Standin.Proofs.Reread
import Standin.Proofs.BodyRoundTrip
import Standin.Proofs.RoundTrip
import Standin.Proofs.Overrides
import Standin.Proofs.Execution
import Standin.Proofs.Renumbering
import Standin.Proofs.Creations
import Standin.Proofs.Guard
import Standin.Proofs.Tidied
import Standin.Proofs.TypeText
import Standin.Proofs.Signatures
import Standin.Proofs.Legible
import Standin.Proofs.GraphText
import Standin.Proofs.Names
import Standin.Proofs.OperandText
import Standin.Proofs.ExprText
import Standin.Proofs.Listing
import Standin.Proofs.LogText
import Standin.Proofs.Operations

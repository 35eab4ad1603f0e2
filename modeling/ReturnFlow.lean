import ReturnFlow.Analysis
import ReturnFlow.Config
import ReturnFlow.Depth
import ReturnFlow.Descriptor
import ReturnFlow.Double
import ReturnFlow.Double.Print
import ReturnFlow.Double.Read
import ReturnFlow.Element
import ReturnFlow.Event
import ReturnFlow.Failure
import ReturnFlow.Frame
import ReturnFlow.Instruction
import ReturnFlow.Json
import ReturnFlow.Keyed
import ReturnFlow.Literal
import ReturnFlow.Locals
import ReturnFlow.Method
import ReturnFlow.Metrics
import ReturnFlow.Pool
import ReturnFlow.Proofs.Answer
import ReturnFlow.Proofs.BoxText
import ReturnFlow.Proofs.Branch
import ReturnFlow.Proofs.CallStack
import ReturnFlow.Proofs.Chain
import ReturnFlow.Proofs.Closure
import ReturnFlow.Proofs.Construction
import ReturnFlow.Proofs.DepthSum
import ReturnFlow.Proofs.Discarded
import ReturnFlow.Proofs.Effect
import ReturnFlow.Proofs.Everywhere
import ReturnFlow.Proofs.Fault
import ReturnFlow.Proofs.FieldType
import ReturnFlow.Proofs.FrameLayout
import ReturnFlow.Proofs.HandedOut
import ReturnFlow.Proofs.HandleCall
import ReturnFlow.Proofs.Join
import ReturnFlow.Proofs.KeptDepth
import ReturnFlow.Proofs.Lookup
import ReturnFlow.Proofs.Machine
import ReturnFlow.Proofs.MethodType
import ReturnFlow.Proofs.Namespace
import ReturnFlow.Proofs.Numeral
import ReturnFlow.Proofs.ObjectBuilder
import ReturnFlow.Proofs.Occurrence
import ReturnFlow.Proofs.Order
import ReturnFlow.Proofs.Origin
import ReturnFlow.Proofs.Overlay
import ReturnFlow.Proofs.Preservation
import ReturnFlow.Proofs.Rank
import ReturnFlow.Proofs.Reduced
import ReturnFlow.Proofs.Relocation
import ReturnFlow.Proofs.Requests
import ReturnFlow.Proofs.ResponseChain
import ReturnFlow.Proofs.RuleAnswer
import ReturnFlow.Proofs.RuleClass
import ReturnFlow.Proofs.Sharing
import ReturnFlow.Proofs.Signature
import ReturnFlow.Proofs.Sorting
import ReturnFlow.Proofs.Statement
import ReturnFlow.Proofs.StatusRange
import ReturnFlow.Proofs.Supply
import ReturnFlow.Proofs.Typed
import ReturnFlow.Proofs.Underflow
import ReturnFlow.Proofs.UpToLog
import ReturnFlow.Proofs.Worklist
import ReturnFlow.Response
import ReturnFlow.Rule
import ReturnFlow.Rule.Basic
import ReturnFlow.Rule.Boxing
import ReturnFlow.Rule.JsonBuilder
import ReturnFlow.Rule.Rest
import ReturnFlow.Simulation
import ReturnFlow.Slice
import ReturnFlow.Sorted
import ReturnFlow.Text.Blank
import ReturnFlow.Text.Integer
import ReturnFlow.Text.Lines
import ReturnFlow.Value

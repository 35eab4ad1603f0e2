import ReturnFlow.Element
import ReturnFlow.Failure
import ReturnFlow.Slice

/-!
The log of an analysis: what happened, how important it is, and how it is written.
-/

namespace ReturnFlow

/-- How important an event is. -/
inductive Level where
  | trace
  | debug
  | info
  | warn
  deriving DecidableEq

def Level.name : Level → String
  | .trace => "TRACE"
  | .debug => "DEBUG"
  | .info => "INFO"
  | .warn => "WARN"

/-- A piece of data that an event carries. -/
inductive Field where
  | number (n : Nat)
  | text (s : String)
  deriving DecidableEq

/-- Something worth reporting. -/
inductive Event where
  | depthsComputed (instructions : Nat)
  | following (follow : Follow)
  | sliceComplete (iterations : Nat)
  | reduced (instructions relevant : Nat)
  | unresolvable (method : Method)
  | pooled (method : Method) (instructions relevant : Nat)
  | reductionFailed (method : Method) (error : FlowError)
  | step (index : Nat) (instruction : Instruction) (depth : Nat)
  | ruleApplied (method : Method)
  | callNotFollowed (cause : Failure)
  | calleeFailed (method : Method) (cause : Failure)
  | simulated (result : Element)
  | methodReduced (instructions relevant : Nat)
  | analysisFailed (error : AnalysisError)
  | analysisComplete (methods failed pooled threads : Nat)

namespace Event

def level : Event → Level
  | .depthsComputed _ | .following _ | .sliceComplete _ | .pooled .. | .step .. | .ruleApplied _ =>
    .trace
  | .reduced .. | .unresolvable _ | .callNotFollowed _ | .simulated _ | .methodReduced .. => .debug
  | .analysisComplete .. => .info
  | .reductionFailed .. | .calleeFailed .. | .analysisFailed _ => .warn

def message : Event → String
  | .depthsComputed _ => "stack depths computed"
  | .following _ => "following local variable"
  | .sliceComplete _ => "slice complete"
  | .reduced .. => "instructions reduced"
  | .unresolvable _ => "method not resolvable, treating as unknown"
  | .pooled .. => "method added to pool"
  | .reductionFailed .. => "failed to reduce method body"
  | .step .. => "step"
  | .ruleApplied _ => "built-in rule applied"
  | .callNotFollowed _ => "call not followed"
  | .calleeFailed .. => "callee simulation failed"
  | .simulated _ => "method simulated"
  | .methodReduced .. => "method reduced"
  | .analysisFailed _ => "method analysis failed"
  | .analysisComplete .. => "analysis complete"

def fields : Event → List (String × Field)
  | .depthsComputed n => [("instructions", .number n)]
  | .following v => [("slot", .number v.slot), ("statement_end", .number v.stop)]
  | .sliceComplete n => [("iterations", .number n)]
  | .reduced n relevant => [("instructions", .number n), ("relevant", .number relevant)]
  | .unresolvable m => [("method", .text m.display)]
  | .pooled m n relevant =>
    [("method", .text m.display), ("instructions", .number n), ("relevant", .number relevant)]
  | .reductionFailed m error => [("method", .text m.display), ("error", .text error.message)]
  | .step index i depth =>
    [("index", .number index), ("instruction", .text i.display), ("depth", .number depth)]
  | .ruleApplied m => [("method", .text m.display)]
  | .callNotFollowed cause => [("error", .text cause.message)]
  | .calleeFailed m cause => [("method", .text m.display), ("error", .text cause.message)]
  | .simulated result => [("result", .text result.display)]
  | .methodReduced n relevant => [("instructions", .number n), ("relevant", .number relevant)]
  | .analysisFailed error => [("error", .text error.message)]
  | .analysisComplete methods failed known threads =>
    [("methods", .number methods), ("failed", .number failed), ("pooled", .number known),
      ("threads", .number threads)]

end Event

/-- The events of computing depths. -/
def StackDepths.events (d : StackDepths) : List Event :=
  [.depthsComputed d.size]

/-- The events of reducing a body. -/
def Reduction.events (r : Reduction) : List Event :=
  [.depthsComputed r.size] ++ r.slice.followed.reverse.map .following ++
    [.sliceComplete r.slice.iterations, .reduced r.size r.code.length]

end ReturnFlow

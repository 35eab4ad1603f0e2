import ReturnFlow.Depth

/-!
What can go wrong with a method: its body cannot be followed, or a call out of it is not followed.
Only the first kind ends an analysis; the second is reported and answered by an unknown value.
-/

namespace ReturnFlow

/-- Why a method body or a call is given up. -/
inductive Failure where
  | flow (error : FlowError)
  /-- An instruction needs more operands than are on the stack. -/
  | underflow (index : Nat)
  | unresolvable (method : Method)
  /-- The call would go too deep, or back to a method that is being followed. -/
  | callLimit (method : Method) (depth : Nat)
  deriving DecidableEq

def Failure.message : Failure → String
  | .flow error => error.message
  | .underflow index =>
    "invalid bytecode at instruction " ++ index.repr ++ ": operand stack underflow"
  | .unresolvable m => "method " ++ m.display ++ " has no body to simulate"
  | .callLimit m depth =>
    "call to " ++ m.display ++ " exceeds the call depth of " ++ depth.repr

/-- The failed analysis of a method. -/
structure AnalysisError where
  method : Method
  cause : Failure
  deriving DecidableEq

def AnalysisError.message (e : AnalysisError) : String :=
  "analysis of " ++ e.method.display ++ " failed: " ++ e.cause.message

end ReturnFlow

import ReturnFlow.Element

/-!
Calls of library methods whose effect is built in: what a rule sees of a call, and what it answers.
-/

namespace ReturnFlow

/-- A call as it is seen at an instruction: the method, the receiver if there is one, and the
arguments that were passed, whatever the method declares. -/
structure Call where
  method : Method
  receiver : Option Element
  args : List Element

/-- The answer of a rule. -/
structure Known where
  result : Element
  /-- Did the call change its receiver into the result? -/
  updatesReceiver : Bool

namespace Known

/-- A call that leaves its receiver alone. -/
def value (result : Element) : Known := ⟨result, false⟩

/-- A call that changes its receiver. -/
def update (result : Element) : Known := ⟨result, true⟩

end Known

end ReturnFlow

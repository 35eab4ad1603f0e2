import ReturnFlow.Event

/-!
The pool of project methods: each method that a call asks for is resolved and reduced once, and
every later request gets the first answer, a failure as well.
-/

namespace ReturnFlow

/-- Where the bodies of project methods come from; abstract and foreign methods have none. -/
abbrev Resolver := Method → Option (List Instruction)

/-- The resolver that knows no method. -/
def Resolver.none : Resolver := fun _ => Option.none

/-- The resolver of a list of bodies, the first one of a method counting. -/
def Resolver.ofList (bodies : List (Method × List Instruction)) : Resolver :=
  fun m => bodies.lookup m

/-- A project method with its reduced body. -/
structure ReducedMethod where
  method : Method
  code : List Instruction

/-- The answers given so far, and the number of resolutions made. -/
structure Pool where
  entries : List (Method × Except Failure ReducedMethod)
  resolutions : Nat

namespace Pool

def empty : Pool := ⟨[], 0⟩

def size (p : Pool) : Nat := p.entries.length

/-- What is known of a method that was asked for. -/
def answer? (p : Pool) (m : Method) : Option (Except Failure ReducedMethod) :=
  p.entries.lookup m

/-- The reduced body of a method that was asked for and could be reduced. -/
def get? (p : Pool) (m : Method) : Option ReducedMethod :=
  (p.answer? m).bind Except.toOption

/-- Resolves and reduces a method, with the events of doing so. -/
def resolve (resolver : Resolver) (ignored : List String) (m : Method) :
    Except Failure ReducedMethod × List Event :=
  match resolver m with
  | none => (.error (.unresolvable m), [.unresolvable m])
  | some code =>
    match reduce ignored code with
    | .ok r => (.ok ⟨m, r.code⟩, r.events ++ [.pooled m r.size r.code.length])
    | .error e => (.error (.flow e), [.reductionFailed m e])

/-- The answer for a method: the one given before, or a new one that stays in the pool. -/
def lookup (p : Pool) (resolver : Resolver) (ignored : List String) (m : Method) :
    Except Failure ReducedMethod × Pool × List Event :=
  match p.answer? m with
  | some answer => (answer, p, [])
  | none =>
    let (answer, events) := resolve resolver ignored m
    (answer, ⟨p.entries ++ [(m, answer)], p.resolutions + 1⟩, events)

/-- The reduced body of a method, if it has one, by way of `lookup`. -/
def getOrResolve (p : Pool) (resolver : Resolver) (ignored : List String) (m : Method) :
    Option ReducedMethod × Pool × List Event :=
  let (answer, pool, events) := p.lookup resolver ignored m
  (answer.toOption, pool, events)

/-- Forgets all answers. -/
def clear (_ : Pool) : Pool := empty

end Pool

end ReturnFlow

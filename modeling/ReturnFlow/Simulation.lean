import ReturnFlow.Config
import ReturnFlow.Frame

/-!
Symbolic execution of method bodies.

Instructions are executed in order; jumps are not followed, and every exit that is reached adds an
outcome. A call into the project runs the reduced body of the callee, except when that would go
deeper than allowed or back into a method that is being followed. A session carries the pool of
methods and the log from one step to the next.
-/

namespace ReturnFlow

/-- The state that is kept across instructions and calls. -/
structure Session where
  pool : Pool
  log : Array Event

namespace Session

/-- Nothing resolved and nothing logged. -/
def empty : Session := ⟨Pool.empty, #[]⟩

def emit (e : Event) : StateM Session Unit :=
  modify fun s => { s with log := s.log.push e }

/-- Asks the pool for a method. -/
def lookup (env : Setting) (m : Method) : StateM Session (Except Failure ReducedMethod) := do
  let s ← get
  let (answer, pool, events) := s.pool.lookup env.resolver env.ignored m
  set { s with pool := pool, log := s.log ++ events }
  return answer

end Session

namespace Simulation

open Session

/-- The answer of a target, where `follow` runs calls into the project. -/
def answer (follow : Call → StateM Session Element) : Target → StateM Session Element
  | .known result => pure result
  | .project call => follow call

/-- The joint answer of targets, or some value of the type if they have none. -/
def joined (type : String) (answers : List Element) : Element :=
  let e := Element.join answers
  if e.isEmpty then .unknown type else e

/-- Completes an instruction by following its calls. Their answers are joined even if there is but
one: a call that is followed answers with a join that is not empty, so that its answer is pushed as
it is (`Simulation.complete_project`). -/
def complete (follow : Call → StateM Session Element) : Step → StateM Session Frame
  | .done f => pure f
  | .ruled m f => do
    emit (.ruleApplied m)
    return f
  | .calls targets type f => do
    let answers ← targets.mapM (answer follow)
    return f.push (joined type answers)

/-- Executes instructions, the first of which has the given index. -/
def execute (follow : Call → StateM Session Element) (index : Nat) (f : Frame) :
    List Instruction → StateM Session (Except Failure Frame)
  | [] => pure (.ok f)
  | i :: rest => do
    emit (.step index i f.stack.length)
    match f.step index i.op with
    | .error cause => return .error cause
    | .ok s =>
      let f ← complete follow s
      execute follow (index + 1) f rest

/-- Runs a body and merges its outcomes. -/
def runBody (follow : Call → StateM Session Element) (code : List Instruction) (locals : Locals) :
    StateM Session (Except Failure Element) := do
  return (← execute follow 0 (.init locals) code).map Frame.result

/-- The result of a call that ended, which is some value of the type if the callee handed out
nothing or failed. -/
def returned (m : Method) : Except Failure Element → StateM Session Element
  | .ok e => return if e.isEmpty then .unknown m.returnType else e
  | .error cause => do
    emit (.calleeFailed m cause)
    return .unknown m.returnType

/-- A call that is not followed. -/
def cutOff (m : Method) (depth : Nat) : StateM Session Element := do
  emit (.callNotFollowed (.callLimit m depth))
  return .unknown m.returnType

/-- Follows a call into the project. At most `remaining` more calls may be nested, and none into the
methods of `active`, which are being followed. -/
def follow (env : Setting) (remaining : Nat) (active : List Method) (c : Call) :
    StateM Session Element := do
  match ← lookup env c.method with
  | .error _ => return .unknown c.method.returnType
  | .ok callee =>
    match remaining with
    | 0 => cutOff c.method active.length
    | remaining + 1 =>
      if c.method ∈ active then cutOff c.method active.length
      else
        let deeper := follow env remaining (c.method :: active)
        let locals := Locals.ofCall c.method c.receiver c.args
        returned c.method (← runBody deeper callee.code locals)

end Simulation

/-- Executes instructions symbolically; the result is the merge of what they return or throw. -/
def simulate (env : Setting) (code : List Instruction) (locals : Locals) :
    StateM Session (Except Failure Element) :=
  Simulation.runBody (Simulation.follow env env.maxCallDepth []) code locals

/-- Executes the body of a method and logs its result. -/
def simulateMethod (env : Setting) (code : List Instruction) (locals : Locals) :
    StateM Session (Except Failure Element) := do
  let result ← simulate env code locals
  if let .ok e := result then Session.emit (.simulated e)
  return result

end ReturnFlow

import ReturnFlow.Failure
import ReturnFlow.Locals
import ReturnFlow.Rule

/-!
One method activation, and what each instruction does to it.

`Frame.step` is the meaning of an instruction apart from calls into the project: those it leaves
open as targets to be followed, together with the frame in which their joint answer is to be
pushed. An operand remembers where it came from, so that a builder call can put its result back.
-/

namespace ReturnFlow

/-- Where an operand came from: a local variable, or the instruction that created the object. -/
inductive Source where
  | slot (slot : Nat)
  | new (index : Nat)
  deriving DecidableEq

structure Operand where
  element : Element
  source : Option Source

/-- The operands, the top of the stack first, the local variables, and the values that were
returned or thrown, the latest first. -/
structure Frame where
  stack : List Operand
  locals : Locals
  outcomes : List Element

/-- What a call into the project or through a handle leads to. -/
inductive Target where
  /-- A rule or the kind of the method settles the result. -/
  | known (result : Element)
  /-- The body of the method, if the project has one, is to be followed. -/
  | project (call : Call)

/-- The state after an instruction. -/
inductive Step where
  | done (frame : Frame)
  /-- A built-in rule settled a call of the method. -/
  | ruled (method : Method) (frame : Frame)
  /-- The answers of the targets are to be joined and pushed, as an element of the type if there
  is none. -/
  | calls (targets : List Target) (type : String) (frame : Frame)

namespace Target

/-- The target of a handle that is applied to arguments. The captured arguments come first; a method
with a receiver takes it from the front of them. -/
def ofHandle (args : List Element) (h : Handle) : Target :=
  let all := h.captured ++ args
  let receiver := if h.target.isStatic then none else all.head?
  let rest := if h.target.isStatic then all else all.tail
  match Rule.call? ⟨h.target, receiver, rest⟩ with
  | some k => .known k.result
  | none =>
    if h.target.isConstructor then .known (.unknown (Descriptor.ofClass h.target.owner))
    else .project ⟨h.target, receiver, rest⟩

/-- The targets of a call that no rule settles: those of the handles that the receiver may be, or
the method itself. -/
def ofCall (c : Call) : List Target :=
  match c.receiver.elim [] Element.handles with
  | [] => [.project c]
  | handles => handles.map (ofHandle c.args)

end Target

namespace Frame

def init (locals : Locals) : Frame := ⟨[], locals, []⟩

/-- The alternatives of all that was returned or thrown. -/
def result (f : Frame) : Element := Element.join f.outcomes

def pushOperand (f : Frame) (o : Operand) : Frame := { f with stack := o :: f.stack }

/-- Pushes an element that came from no variable and is no fresh object. -/
def push (f : Frame) (e : Element) : Frame := f.pushOperand ⟨e, none⟩

/-- Takes operands off the stack; they are listed in the order in which they were pushed. -/
def pop (f : Frame) (index count : Nat) : Except Failure (List Operand × Frame) :=
  if count ≤ f.stack.length then
    .ok ((f.stack.take count).reverse, { f with stack := f.stack.drop count })
  else .error (.underflow index)

/-- Takes one operand off the stack. -/
def popOne (f : Frame) (index : Nat) : Except Failure (Operand × Frame) :=
  match f.stack with
  | o :: rest => .ok (o, { f with stack := rest })
  | [] => .error (.underflow index)

/-- Records an outcome and clears the stack. -/
def exitWith (f : Frame) (e : Element) : Frame :=
  { f with stack := [], outcomes := e :: f.outcomes }

/-- Puts the changed receiver of a call back where the receiver came from: into its variable, and
into every operand of the same source. -/
def rebind (f : Frame) (receiver : Operand) (updated : Element) : Frame :=
  match receiver.source with
  | none => f
  | some source =>
    { f with
      locals :=
        match source with
        | .slot slot => f.locals.bind slot updated
        | .new _ => f.locals
      stack := f.stack.map fun o =>
        if o.source = some source then { o with element := updated } else o }

/-- The frame after a call that a rule settled. -/
def settle (f : Frame) (m : Method) (receiver : Option Operand) (known : Known) : Frame :=
  let f :=
    match receiver with
    | some r => if known.updatesReceiver then f.rebind r known.result else f
    | none => f
  if m.returnsValue then f.push known.result else f

/-- A call, with its operands off the stack. -/
def invoke (f : Frame) (m : Method) (receiver : Option Operand) (args : List Element) : Step :=
  let c : Call := ⟨m, receiver.map Operand.element, args⟩
  match Rule.call? c with
  | some known => .ruled m (f.settle m receiver known)
  | none => if m.returnsValue then .calls (Target.ofCall c) m.returnType f else .done f

/-- The value of a static field. -/
def staticValue (owner name type : String) (constant : Option Literal) : Element :=
  match constant with
  | some l => .literal type l
  | none => (Rule.field? owner name type).getD (.unknown type)

/-- Does a call site put strings together? -/
def isConcat (handle site : Method) : Bool :=
  handle.isOwnedBy "java/lang/invoke/StringConcatFactory" ||
    "makeConcat".toList.isPrefixOf site.name.toList

/-- What a linked call site leaves: some string, or a handle with what it captured. -/
def linked (handle site : Method) (captured : List Element) : Element :=
  if isConcat handle site then .unknown site.returnType
  else .ofValue site.returnType (.handle ⟨handle, captured⟩)

/-- What the instruction at an index does. -/
def step (f : Frame) (index : Nat) : Operation → Except Failure Step
  | .push value type => .ok (.done (f.push (.literal type value)))
  | .load slot type _ =>
    .ok (.done (f.pushOperand ⟨(f.locals.get? slot).getD (.unknown type), some (.slot slot)⟩))
  | .store slot _ _ =>
    (f.popOne index).map fun (o, f) => .done { f with locals := f.locals.bind slot o.element }
  | .dup => (f.popOne index).map fun (o, _) => .done (f.pushOperand o)
  | .return =>
    match f.stack with
    | o :: _ => .ok (.done (f.exitWith o.element))
    | [] => .ok (.done f)
  | .throw => (f.popOne index).map fun (o, f) => .done (f.exitWith o.element)
  | .getField _ _ type => (f.popOne index).map fun (_, f) => .done (f.push (.unknown type))
  | .getStatic owner name type constant =>
    .ok (.done (f.push (staticValue owner name type constant)))
  | .new type => .ok (.done (f.pushOperand ⟨.unknown type, some (.new index)⟩))
  | .invoke m => do
    let (args, f) ← f.pop index m.arity
    let args := args.map Operand.element
    if m.isStatic then return f.invoke m none args
    else
      let (receiver, f) ← f.popOne index
      return f.invoke m (some receiver) args
  | .invokeDynamic handle site =>
    (f.pop index site.arity).map fun (captured, f) =>
      .done (f.push (linked handle site (captured.map Operand.element)))
  | .handlerEntry => .ok (.done (f.push (.unknown Descriptor.throwable)))
  | .resize _ pushes pops =>
    (f.pop index pops).map fun (_, f) =>
      .done { f with stack := List.replicate pushes ⟨.object, none⟩ ++ f.stack }
  | .other _ => .ok (.done f)

end Frame

end ReturnFlow

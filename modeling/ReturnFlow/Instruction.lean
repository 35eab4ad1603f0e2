import ReturnFlow.Literal
import ReturnFlow.Method

/-!
Decoded instructions of a method body: what they do to the depth of the operand stack, and how
they are shown in messages.
-/

namespace ReturnFlow

/-- What an instruction does. -/
inductive Operation where
  | push (value : Literal) (type : String)
  | load (slot : Nat) (type : String) (name : Option String)
  | store (slot : Nat) (type : String) (name : Option String)
  | dup
  | return
  | throw
  | getField (owner name type : String)
  | getStatic (owner name type : String) (constant : Option Literal)
  | new (type : String)
  | invoke (target : Method)
  /-- Links a call site to a method: takes the captured arguments and leaves a handle. -/
  | invokeDynamic (handle site : Method)
  /-- The entry of an exception handler, where the exception lies on the stack. -/
  | handlerEntry
  /-- Any instruction of which only the effect on the stack depth is modelled. -/
  | resize (opcode : String) (pushes pops : Nat)
  /-- Any instruction that leaves the stack as it is. -/
  | other (opcode : String)
  deriving DecidableEq

namespace Operation

/-- The change of the stack depth. -/
def stackDelta : Operation → Int
  | .push .. | .load .. | .dup | .getStatic .. | .new _ | .handlerEntry => 1
  | .store .. | .return | .throw => -1
  | .getField .. | .other _ => 0
  | .invoke m => m.stackDelta
  | .invokeDynamic _ site => 1 - (site.arity : Int)
  | .resize _ pushes pops => (pushes : Int) - (pops : Int)

def opcode : Operation → String
  | .push .. => "PUSH"
  | .load .. => "LOAD"
  | .store .. => "STORE"
  | .dup => "DUP"
  | .return => "RETURN"
  | .throw => "ATHROW"
  | .getField .. => "GETFIELD"
  | .getStatic .. => "GETSTATIC"
  | .new _ => "NEW"
  | .invoke _ => "INVOKE"
  | .invokeDynamic .. => "INVOKEDYNAMIC"
  | .handlerEntry => "EXCEPTION_HANDLER"
  | .resize opcode .. => opcode
  | .other opcode => opcode

/-- Does control leave the method here? -/
def isExit : Operation → Bool
  | .return | .throw => true
  | _ => false

/-- The slot of a load or a store. -/
def slot? : Operation → Option Nat
  | .load slot .. | .store slot .. => some slot
  | _ => none

/-- The variable name of a load or a store, if debug data gave one. -/
def name? : Operation → Option String
  | .load _ _ name | .store _ _ name => name
  | _ => none

def display : Operation → String
  | .push value _ => "PUSH " ++ value.display
  | .load slot .. => "LOAD " ++ slot.repr
  | .store slot .. => "STORE " ++ slot.repr
  | .getField owner name _ => "GETFIELD " ++ owner ++ "." ++ name
  | .getStatic owner name .. => "GETSTATIC " ++ owner ++ "." ++ name
  | .new type => "NEW " ++ type
  | .invoke m => "INVOKE " ++ m.display
  | .invokeDynamic handle _ => "INVOKEDYNAMIC " ++ handle.display
  | op => op.opcode

end Operation

/-- A jump target. -/
structure Label where
  index : Nat
  deriving DecidableEq

instance : Ord Label where
  compare a b := compare a.index b.index

def Label.display (l : Label) : String :=
  "L" ++ l.index.repr

/-- An operation of a method body, with its label if it is a jump target. -/
structure Instruction where
  op : Operation
  label : Option Label := none
  deriving DecidableEq

namespace Instruction

def stackDelta (i : Instruction) : Int := i.op.stackDelta

def isExit (i : Instruction) : Bool := i.op.isExit

def slot? (i : Instruction) : Option Nat := i.op.slot?

def display (i : Instruction) : String :=
  match i.label with
  | some l => l.display ++ ": " ++ i.op.display
  | none => i.op.display

end Instruction

end ReturnFlow

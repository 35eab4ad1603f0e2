import ReturnFlow.Instruction

/-!
The depth of the operand stack before and after each instruction, and the statements that it
marks off.

Bytecode has no mark at the end of a statement; the points where the stack is empty stand in for
it. `StackDepths.compute` follows the code from top to bottom, starting afresh after each exit, and
refuses code that takes more than it put. `StackDepths.start?` and `StackDepths.stop?` give the
bounds of the statement around an instruction.
-/

namespace ReturnFlow

/-- Why the depths of a method body cannot be computed. -/
inductive FlowError where
  /-- The instruction would leave fewer than no operands. -/
  | underflow (index depth : Nat) (opcode : String) (delta : Int)
  /-- Nothing is on the stack to be thrown. -/
  | emptyThrow (index : Nat)
  /-- Subroutine instructions have no model. -/
  | unsupported (index : Nat) (opcode : String)
  deriving DecidableEq, Repr

namespace FlowError

/-- The position of the instruction at fault. -/
def index : FlowError → Nat
  | .underflow i .. => i
  | .emptyThrow i => i
  | .unsupported i _ => i

def message : FlowError → String
  | .underflow i depth opcode delta =>
    "invalid bytecode at instruction " ++ i.repr ++ ": stack underflow: depth " ++ depth.repr ++
      ", " ++ opcode ++ " changes it by " ++ Text.writeInt delta
  | .emptyThrow i => "invalid bytecode at instruction " ++ i.repr ++ ": throw on an empty stack"
  | .unsupported i opcode => "unsupported opcode " ++ opcode ++ " at instruction " ++ i.repr

end FlowError

/-- The stack depth before and after an instruction. -/
structure StackDepth where
  before : Nat
  after : Nat
  deriving DecidableEq, Repr

/-- The depths along a method body, one entry for each instruction. -/
structure StackDepths where
  entries : List StackDepth
  deriving DecidableEq, Repr

namespace StackDepths

/-- The instructions of subroutines, which are not modelled. -/
def isUnsupported (opcode : String) : Bool :=
  opcode = "JSR" || opcode = "JSR_W" || opcode = "RET"

/-- The depth after an operation. An exit empties the stack, and a return may find it empty. -/
def step (index before : Nat) (op : Operation) : Except FlowError Nat :=
  match op with
  | .return => .ok 0
  | .throw => if before = 0 then .error (.emptyThrow index) else .ok 0
  | .other opcode =>
    if isUnsupported opcode then .error (.unsupported index opcode) else .ok before
  | op =>
    let after := (before : Int) + op.stackDelta
    if after < 0 then .error (.underflow index before op.opcode op.stackDelta)
    else .ok after.toNat

/-- Depths are kept in 32 bits; a deeper stack counts as the deepest. -/
def cap (depth : Nat) : Nat :=
  min depth 4294967295

/-- The depths of the instructions from `index` on, entered at the given depth. -/
def computeFrom (index depth : Nat) : List Instruction → Except FlowError (List StackDepth)
  | [] => .ok []
  | i :: rest =>
    match step index depth i.op with
    | .error e => .error e
    | .ok after =>
      (computeFrom (index + 1) after rest).map (⟨cap depth, cap after⟩ :: ·)

/-- The depths along a method body. -/
def compute (code : List Instruction) : Except FlowError StackDepths :=
  (computeFrom 0 0 code).map StackDepths.mk

def size (d : StackDepths) : Nat := d.entries.length

def get? (d : StackDepths) (i : Nat) : Option StackDepth := d.entries[i]?

/-- The depth before an instruction; an index outside the code has none. -/
def before (d : StackDepths) (i : Nat) : Nat :=
  (d.get? i).elim 0 StackDepth.before

/-- The first instruction of the statement around an instruction of the code: the last one up to
it that is entered with an empty stack. -/
def start (d : StackDepths) : Nat → Nat
  | 0 => 0
  | i + 1 => if d.before (i + 1) = 0 then i + 1 else d.start i

theorem start_le (d : StackDepths) (i : Nat) : d.start i ≤ i := by
  induction i with
  | zero => exact Nat.le_refl 0
  | succ i ih =>
    simp only [start]
    split
    · exact Nat.le_refl _
    · exact Nat.le_succ_of_le ih

/-- The first instruction of the statement around an index; outside the code there is none, except
that the first statement always begins at 0. -/
def start? (d : StackDepths) (i : Nat) : Option Nat :=
  if i = 0 ∨ i < d.size then some (d.start i) else none

/-- The last instruction of the statement around an index: the first one from it on that leaves
the stack empty. -/
def stop? (d : StackDepths) (i : Nat) : Option Nat :=
  ((d.entries.drop i).findIdx? (·.after = 0)).map (· + i)

end StackDepths

end ReturnFlow

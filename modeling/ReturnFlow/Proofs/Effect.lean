import ReturnFlow.Simulation

/-!
What an instruction does, apart from whether it can.

`Frame.step` finds out on the way whether the operands are there. `Frame.step_of_need_le` and
`Frame.step_of_lt_need` take the two apart: an operation succeeds exactly if the stack holds the
operands that it needs (`Operation.need`), and then does what `Frame.effect` says, which is total.
-/

namespace ReturnFlow

/-- The operands that an operation takes or looks at. -/
def Operation.need : Operation → Nat
  | .store .. | .dup | .throw | .getField .. => 1
  | .invoke m => m.arity + if m.isStatic then 0 else 1
  | .invokeDynamic _ site => site.arity
  | .resize _ _ pops => pops
  | _ => 0

namespace Frame

/-- The frame without the operands on top of the stack. -/
def drop (f : Frame) (count : Nat) : Frame := { f with stack := f.stack.drop count }

/-- The topmost operands, in the order in which they were pushed. -/
def args (f : Frame) (count : Nat) : List Element :=
  (f.stack.take count).reverse.map Operand.element

/-- The receiver of a call whose arguments lie on the stack. -/
def receiver (f : Frame) (m : Method) : Option Operand :=
  if m.isStatic then none else f.stack[m.arity]?

/-- The element on top of the stack. -/
def top (f : Frame) : Element := (f.stack.head?.map Operand.element).getD .empty

/-- What the instruction at an index does, given that its operands are on the stack. -/
def effect (f : Frame) (index : Nat) : Operation → Step
  | .push value type => .done (f.push (.literal type value))
  | .load slot type _ =>
    .done (f.pushOperand ⟨(f.locals.get? slot).getD (.unknown type), some (.slot slot)⟩)
  | .store slot _ _ => .done { f.drop 1 with locals := f.locals.bind slot f.top }
  | .dup => .done { f with stack := f.stack.take 1 ++ f.stack }
  | .return => .done (if f.stack = [] then f else f.exitWith f.top)
  | .throw => .done (f.exitWith f.top)
  | .getField _ _ type => .done ((f.drop 1).push (.unknown type))
  | .getStatic owner name type constant => .done (f.push (staticValue owner name type constant))
  | .new type => .done (f.pushOperand ⟨.unknown type, some (.new index)⟩)
  | .invoke m =>
    (f.drop (Operation.invoke m).need).invoke m (f.receiver m) (f.args m.arity)
  | .invokeDynamic handle site =>
    .done ((f.drop site.arity).push (linked handle site (f.args site.arity)))
  | .handlerEntry => .done (f.push (.unknown Descriptor.throwable))
  | .resize _ pushes pops =>
    .done { f with stack := List.replicate pushes ⟨.object, none⟩ ++ f.stack.drop pops }
  | .other _ => .done f

theorem pop_of_le {f : Frame} {index count : Nat} (h : count ≤ f.stack.length) :
    f.pop index count = .ok ((f.stack.take count).reverse, f.drop count) :=
  if_pos h

theorem pop_of_lt {f : Frame} {index count : Nat} (h : f.stack.length < count) :
    f.pop index count = .error (.underflow index) :=
  if_neg (Nat.not_le.2 h)

theorem popOne_drop_of_lt {f : Frame} {index count : Nat} (h : count < f.stack.length) :
    (f.drop count).popOne index = .ok (f.stack.get ⟨count, h⟩, f.drop (count + 1)) := by
  simp only [popOne, drop]
  rw [List.drop_eq_getElem_cons h]
  rfl

theorem popOne_drop_of_le {f : Frame} {index count : Nat} (h : f.stack.length ≤ count) :
    (f.drop count).popOne index = .error (.underflow index) := by
  simp only [popOne, drop]
  rw [List.drop_eq_nil_of_le h]

theorem step_of_need_le {f : Frame} {op : Operation} (index : Nat)
    (h : op.need ≤ f.stack.length) : f.step index op = .ok (f.effect index op) := by
  cases op with
  | invoke m =>
    simp only [Operation.need] at h
    simp only [step, pop_of_le (Nat.le_trans (Nat.le_add_right ..) h), bind, Except.bind, pure,
      Except.pure]
    by_cases hstatic : m.isStatic = true
    · simp [effect, Operation.need, receiver, args, hstatic]
    · rw [if_neg hstatic] at h ⊢
      rw [popOne_drop_of_lt h]
      simp [effect, Operation.need, receiver, args, hstatic, List.getElem?_eq_getElem h]
  | invokeDynamic handle site =>
    simp only [Operation.need] at h
    rw [step, pop_of_le h]; rfl
  | resize opcode pushes pops =>
    simp only [Operation.need] at h
    rw [step, pop_of_le h]; rfl
  | store | dup | throw | getField =>
    rcases f with ⟨_ | ⟨o, rest⟩, locals, outcomes⟩
    · simp [Operation.need] at h
    · rfl
  | «return» => rcases f with ⟨_ | ⟨o, rest⟩, locals, outcomes⟩ <;> rfl
  | push | load | getStatic | new | handlerEntry | other => rfl

theorem step_of_lt_need {f : Frame} {op : Operation} (index : Nat)
    (h : f.stack.length < op.need) : f.step index op = .error (.underflow index) := by
  cases op with
  | invoke m =>
    simp only [Operation.need] at h
    by_cases harity : m.arity ≤ f.stack.length
    · have hstatic : ¬m.isStatic = true := by
        intro hstatic
        rw [if_pos hstatic] at h
        omega
      rw [if_neg hstatic] at h
      simp [step, pop_of_le harity, bind, Except.bind, hstatic,
        popOne_drop_of_le (Nat.le_of_lt_succ h)]
    · rw [step, pop_of_lt (Nat.not_le.1 harity)]; rfl
  | invokeDynamic handle site =>
    simp only [Operation.need] at h
    rw [step, pop_of_lt h]; rfl
  | resize opcode pushes pops =>
    simp only [Operation.need] at h
    rw [step, pop_of_lt h]; rfl
  | store | dup | throw | getField =>
    rcases f with ⟨_ | ⟨o, rest⟩, locals, outcomes⟩
    · rfl
    · simp [Operation.need] at h
  | _ => simp [Operation.need] at h

end Frame

/-! ## Depth -/

/-- The depth of the stack once the calls of an instruction are followed. -/
def Step.depth : Step → Nat
  | .done f | .ruled _ f => f.stack.length
  | .calls _ _ f => f.stack.length + 1

namespace Frame

theorem length_rebind (f : Frame) (receiver : Operand) (updated : Element) :
    (f.rebind receiver updated).stack.length = f.stack.length := by
  unfold rebind
  split
  · rfl
  · exact List.length_map _

/-- The frame after a rule settled a call, before its result is pushed. -/
def adjust (f : Frame) (receiver : Option Operand) (known : Known) : Frame :=
  match receiver with
  | some r => if known.updatesReceiver then f.rebind r known.result else f
  | none => f

theorem settle_eq (f : Frame) (m : Method) (receiver : Option Operand) (known : Known) :
    f.settle m receiver known =
      if m.returnsValue then (f.adjust receiver known).push known.result
      else f.adjust receiver known := rfl

theorem adjust_cases (f : Frame) (receiver : Option Operand) (known : Known) :
    f.adjust receiver known = f ∨
      ∃ o, receiver = some o ∧ f.adjust receiver known = f.rebind o known.result := by
  unfold adjust
  split
  · split
    · exact Or.inr ⟨_, rfl, rfl⟩
    · exact Or.inl rfl
  · exact Or.inl rfl

theorem length_settle (f : Frame) (m : Method) (receiver : Option Operand) (known : Known) :
    (f.settle m receiver known).stack.length =
      f.stack.length + if m.returnsValue then 1 else 0 := by
  have hlen : (f.adjust receiver known).stack.length = f.stack.length := by
    rcases f.adjust_cases receiver known with h | ⟨o, -, h⟩ <;> rw [h]
    exact length_rebind ..
  rw [settle_eq]
  split
  · rw [← hlen]; rfl
  · exact hlen

theorem depth_invoke (f : Frame) (m : Method) (receiver : Option Operand) (args : List Element) :
    (f.invoke m receiver args).depth = f.stack.length + if m.returnsValue then 1 else 0 := by
  simp only [invoke]
  split
  · exact length_settle ..
  · split <;> simp [Step.depth]

/-- **The depth table and the frame agree.** What an operation does to the length of the stack is
what its delta says, except that an exit clears it. -/
theorem depth_effect {f : Frame} {op : Operation} (index : Nat) (h : op.need ≤ f.stack.length) :
    ((f.effect index op).depth : Int) =
      if op.isExit then 0 else (f.stack.length : Int) + op.stackDelta := by
  cases op with
  | «return» =>
    simp only [effect, Step.depth, Operation.isExit, if_true]
    split
    · rename_i hnil; rw [hnil]; rfl
    · rfl
  | throw => rfl
  | invoke m =>
    simp only [Operation.need] at h
    simp only [effect, depth_invoke, Operation.isExit, Operation.stackDelta, Method.stackDelta,
      Method.operands, Operation.need, drop, List.length_drop, Bool.false_eq_true, if_false]
    by_cases hstatic : m.isStatic = true <;> by_cases hreturns : m.returnsValue = true <;>
      simp only [hstatic, hreturns, Bool.false_eq_true, if_true, if_false] at h ⊢ <;> omega
  | _ =>
    simp only [Operation.need] at h
    simp [effect, Step.depth, Operation.isExit, Operation.stackDelta, push, pushOperand, drop]
    try omega

end Frame

/-! ## Execution -/

namespace Simulation

open Session

variable {follow : Call → StateM Session Element} {index : Nat} {f : Frame} {i : Instruction}

theorem execute_cons_of_need_le (rest : List Instruction) (h : i.op.need ≤ f.stack.length) :
    execute follow index f (i :: rest) = (do
      emit (.step index i f.stack.length)
      let g ← complete follow (f.effect index i.op)
      execute follow (index + 1) g rest) := by
  rw [execute, Frame.step_of_need_le index h]

theorem execute_cons_of_lt_need (rest : List Instruction) (h : f.stack.length < i.op.need) :
    execute follow index f (i :: rest) = (do
      emit (.step index i f.stack.length)
      return .error (.underflow index)) := by
  rw [execute, Frame.step_of_lt_need index h]

/-- The frame in which the instruction at a position is executed: what the instructions before it
make of the frame at the entry. -/
def reach (env : Setting) (code : List Instruction) (locals : Locals) (p : Nat) :
    StateM Session (Except Failure Frame) :=
  execute (Simulation.follow env env.maxCallDepth []) 0 (.init locals) (code.take p)

theorem execute_append (follow : Call → StateM Session Element) (index : Nat) (f : Frame)
    (xs ys : List Instruction) :
    execute follow index f (xs ++ ys) = execute follow index f xs >>= fun
      | .error cause => pure (.error cause)
      | .ok g => execute follow (index + xs.length) g ys := by
  induction xs generalizing index f with
  | nil => rfl
  | cons i xs ih =>
    rw [List.cons_append]
    by_cases hneed : i.op.need ≤ f.stack.length
    · rw [execute_cons_of_need_le _ hneed, execute_cons_of_need_le _ hneed]
      simp only [ih, bind_assoc, List.length_cons, Nat.add_right_comm, Nat.add_assoc]
    · have hlt := Nat.not_le.1 hneed
      rw [execute_cons_of_lt_need _ hlt, execute_cons_of_lt_need _ hlt]
      rfl

/-- A simulation comes to each position in the frame that is reached there, and goes on from it. -/
theorem simulate_eq_reach_bind (env : Setting) (code : List Instruction) (locals : Locals)
    {p : Nat} (hp : p ≤ code.length) :
    simulate env code locals = reach env code locals p >>= fun
      | .error cause => pure (.error cause)
      | .ok f => Except.map Frame.result <$>
          execute (Simulation.follow env env.maxCallDepth []) p f (code.drop p) := by
  have hsplit := execute_append (Simulation.follow env env.maxCallDepth []) 0 (.init locals)
    (code.take p) (code.drop p)
  rw [List.take_append_drop, Nat.zero_add, List.length_take_of_le hp] at hsplit
  rw [simulate, runBody, hsplit, bind_assoc]
  refine bind_congr fun r => ?_
  cases r <;> rfl

end Simulation

end ReturnFlow

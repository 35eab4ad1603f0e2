import ReturnFlow.Proofs.UpToLog

/-!
Code that supplies operands: constants, loads and static fields.

Such code changes no variable and cannot fail, so what it puts on the stack is a function of the
variables alone (`Locals.supplied`), and executing it leads to the frame with these operands on top
(`Simulation.execute_supplies`). A call that comes after it then takes just these operands
(`Frame.effect_invoke_supply`, `Frame.effect_invoke_supply_static`), and so does a call site
(`Frame.effect_invokeDynamic_supply`).
-/

namespace ReturnFlow

/-- Does an operation put an operand on the stack and do nothing else? -/
def Operation.isSupply : Operation → Bool
  | .push .. | .load .. | .getStatic .. => true
  | _ => false

/-- The operand that such an operation puts on the stack. -/
def Operation.supply? (l : Locals) : Operation → Option Operand
  | .push value type => some ⟨.literal type value, none⟩
  | .load slot type _ => some ⟨(l.get? slot).getD (.unknown type), some (.slot slot)⟩
  | .getStatic owner name type constant =>
    some ⟨Frame.staticValue owner name type constant, none⟩
  | _ => none

theorem Operation.exists_supply? {op : Operation} (h : op.isSupply = true) (l : Locals) :
    ∃ o, op.supply? l = some o := by
  cases op with
  | push | load | getStatic => exact ⟨_, rfl⟩
  | _ => cases h

/-- Constants, loads and static fields only. -/
def Supplies (code : List Instruction) : Prop :=
  ∀ i ∈ code, i.op.isSupply = true

instance (code : List Instruction) : Decidable (Supplies code) :=
  inferInstanceAs (Decidable (∀ i ∈ code, i.op.isSupply = true))

namespace Locals

/-- The operands that code supplies, in the order in which they are pushed. -/
def supplied (l : Locals) (code : List Instruction) : List Operand :=
  code.filterMap fun i => i.op.supply? l

/-- The elements of these operands: what they are as arguments of a call. -/
def passed (l : Locals) (code : List Instruction) : List Element :=
  (l.supplied code).map Operand.element

variable {code : List Instruction}

theorem passed_append (l : Locals) (A B : List Instruction) :
    l.passed (A ++ B) = l.passed A ++ l.passed B := by
  simp [passed, supplied]

theorem length_supplied (l : Locals) (h : Supplies code) :
    (l.supplied code).length = code.length := by
  induction code with
  | nil => rfl
  | cons i rest ih =>
    obtain ⟨o, ho⟩ := Operation.exists_supply? (h i List.mem_cons_self) l
    have hrest := ih fun j hj => h j (List.mem_cons_of_mem i hj)
    simp only [supplied] at hrest ⊢
    simp [ho, hrest]

theorem length_reverse_supplied (l : Locals) (h : Supplies code) :
    (l.supplied code).reverse.length = code.length := by
  rw [List.length_reverse, l.length_supplied h]

end Locals

namespace Frame

/-- The frame with the operands on top that code supplies. -/
def supply (f : Frame) (code : List Instruction) : Frame :=
  { f with stack := (f.locals.supplied code).reverse ++ f.stack }

section
variable {f : Frame} {m : Method} {receiver : Option Operand} {args : List Element}

theorem invoke_of_rule {known : Known}
    (hrule : Rule.call? ⟨m, receiver.map Operand.element, args⟩ = some known) :
    f.invoke m receiver args = .ruled m (f.settle m receiver known) := by
  simp only [invoke, hrule]

theorem invoke_of_none (hrule : Rule.call? ⟨m, receiver.map Operand.element, args⟩ = none)
    (hreturns : m.returnsValue = true) :
    f.invoke m receiver args =
      .calls (Target.ofCall ⟨m, receiver.map Operand.element, args⟩) m.returnType f := by
  simp only [invoke, hrule, hreturns, if_true]

end

variable {f : Frame} {code : List Instruction} {m : Method}

theorem effect_of_supply? {op : Operation} {o : Operand} (ho : op.supply? f.locals = some o)
    (index : Nat) : f.effect index op = .done (f.pushOperand o) := by
  cases op <;> cases ho <;> rfl

theorem supply_cons {i : Instruction} {o : Operand} (ho : i.op.supply? f.locals = some o)
    (rest : List Instruction) : f.supply (i :: rest) = (f.pushOperand o).supply rest := by
  simp [supply, Locals.supplied, pushOperand, ho]

theorem args_supply (h : Supplies code) :
    (f.supply code).args code.length = f.locals.passed code := by
  simp only [args, supply, Locals.passed]
  rw [List.take_left' (f.locals.length_reverse_supplied h), List.reverse_reverse]

theorem drop_supply (h : Supplies code) (count : Nat) :
    (f.supply code).drop (code.length + count) = f.drop count := by
  simp only [drop, supply]
  rw [← List.drop_drop, List.drop_left' (f.locals.length_reverse_supplied h)]

/-- A call without a receiver takes what was supplied. -/
theorem effect_invoke_supply_static (h : Supplies code) (harity : m.arity = code.length)
    (hstatic : m.isStatic = true) (index : Nat) :
    (f.supply code).effect index (.invoke m) = f.invoke m none (f.locals.passed code) := by
  simp only [effect, receiver, Operation.need, if_pos hstatic]
  rw [harity, args_supply h, drop_supply h]
  rfl

theorem receiver_supply (h : Supplies code) (harity : m.arity = code.length)
    (hstatic : m.isStatic = false) (o : Operand) :
    ((f.pushOperand o).supply code).receiver m = some o := by
  have hlen := f.locals.length_reverse_supplied h
  simp only [receiver, hstatic, Bool.false_eq_true, if_false, harity]
  show ((f.locals.supplied code).reverse ++ o :: f.stack)[code.length]? = some o
  rw [List.getElem?_append_right (Nat.le_of_eq hlen), hlen, Nat.sub_self, List.getElem?_cons_zero]

/-- A call takes what was supplied, and the operand below it as its receiver. -/
theorem effect_invoke_supply (h : Supplies code) (harity : m.arity = code.length)
    (hstatic : m.isStatic = false) (o : Operand) (index : Nat) :
    ((f.pushOperand o).supply code).effect index (.invoke m) =
      f.invoke m (some o) (f.locals.passed code) := by
  have hdrop : ((f.pushOperand o).supply code).drop (code.length + 1) = f := by
    rw [drop_supply h]
    rfl
  simp only [effect, Operation.need, receiver_supply h harity hstatic, hstatic, Bool.false_eq_true,
    if_false]
  rw [harity, args_supply h, hdrop]
  rfl

/-- A call site captures what was supplied. -/
theorem effect_invokeDynamic_supply {site : Method} (h : Supplies code)
    (harity : site.arity = code.length) (index : Nat) :
    (f.supply code).effect index (.invokeDynamic m site) =
      .done (f.push (linked m site (f.locals.passed code))) := by
  have hdrop : (f.supply code).drop code.length = f := drop_supply h 0
  simp only [effect]
  rw [harity, args_supply h, hdrop]

theorem length_supply (h : Supplies code) :
    (f.supply code).stack.length = code.length + f.stack.length := by
  simp [supply, f.locals.length_supplied h]

end Frame

namespace Simulation

/-- Executing code that supplies operands leads to the frame that has them on top. -/
theorem execute_supplies {follow : Call → StateM Session Element}
    (hfollow : ∀ c, SameUpToLog (follow c) (follow c)) {code : List Instruction}
    (h : Supplies code) (index : Nat) (f : Frame) (rest : List Instruction) :
    SameUpToLog (execute follow index f (code ++ rest))
      (execute follow (index + code.length) (f.supply code) rest) := by
  induction code generalizing index f with
  | nil => exact sameUpToLog_execute hfollow rest index f
  | cons i code ih =>
    obtain ⟨o, ho⟩ := Operation.exists_supply? (h i List.mem_cons_self) f.locals
    have hneed : i.op.need ≤ f.stack.length := by
      have hop := h i List.mem_cons_self
      revert hop
      cases i.op <;> simp [Operation.isSupply, Operation.need]
    have hfirst := execute_cons_of_settled hfollow (code ++ rest) hneed
      (congrArg Step.settled? (Frame.effect_of_supply? ho index))
    rw [Frame.supply_cons ho, List.length_cons, Nat.add_comm code.length 1, ← Nat.add_assoc]
    exact hfirst.trans (ih (fun j hj => h j (List.mem_cons_of_mem i hj)) _ _)

end Simulation

end ReturnFlow

import ReturnFlow.Proofs.Order
import ReturnFlow.Proofs.Supply

/-!
A builder call whose result is discarded.

A call that updates its receiver puts the result back where the receiver was loaded from. So it
makes no difference whether code then stores the result in that variable or takes it off the stack:
both lead to the same frame (`Simulation.execute_updating`), with every copy of the variable on the
stack changed as well, and whatever comes after that does the same
(`Simulation.simulate_append_congr`).
-/

namespace ReturnFlow

theorem Locals.bind_bind (l : Locals) (slot : Nat) (e e' : Element) :
    (l.bind slot e).bind slot e' = l.bind slot e' := by
  simp [bind]

namespace Frame

/-- A rule settles a call of the method in the frame and updates its receiver. -/
def Updates (f : Frame) (m : Method) : Prop :=
  ∃ known, Rule.call? ⟨m, (f.receiver m).map Operand.element, f.args m.arity⟩ = some known ∧
    known.updatesReceiver = true

instance (f : Frame) (m : Method) : Decidable (f.Updates m) :=
  decidable_of_iff
    ((Rule.call? ⟨m, (f.receiver m).map Operand.element, f.args m.arity⟩).any
      Known.updatesReceiver = true)
    (by simp [Updates, Option.any_eq_true])

end Frame

namespace Simulation

/-- Two ways to go on after some code make no difference to a simulation if they make none to the
execution from the frame that the code leads to. -/
theorem simulate_append_congr {env : Setting} {P R R' : List Instruction} {locals : Locals}
    {σ : Session}
    (h : ∀ g, ((reach env P locals P.length).run σ).1 = .ok g →
      SameUpToLog (execute (follow env env.maxCallDepth []) P.length g R)
        (execute (follow env env.maxCallDepth []) P.length g R')) :
    ((simulate env (P ++ R) locals).run σ).1 = ((simulate env (P ++ R') locals).run σ).1 ∧
      ((simulate env (P ++ R) locals).run σ).2.pool =
        ((simulate env (P ++ R') locals).run σ).2.pool := by
  have hreach : ∀ S, reach env (P ++ S) locals P.length = reach env P locals P.length := by
    intro S
    simp only [reach, List.take_left, List.take_length]
  have hsplit : ∀ S, P.length ≤ (P ++ S).length := by simp
  rw [simulate_eq_reach_bind env (P ++ R) locals (hsplit R),
    simulate_eq_reach_bind env (P ++ R') locals (hsplit R'), hreach, hreach, List.drop_left,
    List.drop_left]
  refine SameUpToLog.run_bind ?_
  cases hg : ((reach env P locals P.length).run σ).1 with
  | error cause => exact .pure _
  | ok g => exact (h g hg).map _

/-- A simulation that comes to the end of some code goes on to the frame that operands are supplied
in. -/
theorem fst_reach_supplies {env : Setting} {P B : List Instruction} {locals : Locals} {σ : Session}
    {g : Frame} (hB : Supplies B) (hg : ((reach env P locals P.length).run σ).1 = .ok g) :
    ((reach env (P ++ B) locals (P ++ B).length).run σ).1 = .ok (g.supply B) := by
  have hfollow := sameUpToLog_follow env env.maxCallDepth []
  have hsupply := execute_supplies hfollow hB P.length g []
  rw [List.append_nil] at hsupply
  simp only [reach, List.take_length] at hg ⊢
  rw [execute_append, Session.run_bind_of_fst hg, Nat.zero_add]
  exact hsupply.fst_run _

/-- If a simulation comes to the end of some code, then a call of the method in that place is
settled by a rule that updates its receiver. -/
def UpdatesAfter (env : Setting) (code : List Instruction) (locals : Locals) (σ : Session)
    (m : Method) : Prop :=
  ∀ f, ((reach env code locals code.length).run σ).1 = .ok f → f.Updates m

instance (env : Setting) (code : List Instruction) (locals : Locals) (σ : Session) (m : Method) :
    Decidable (UpdatesAfter env code locals σ m) :=
  match h : ((reach env code locals code.length).run σ).1 with
  | .error _ => .isTrue fun f hf => by cases h.symm.trans hf
  | .ok f =>
    decidable_of_iff (f.Updates m)
      ⟨fun hf g hg => by cases h.symm.trans hg; exact hf, fun hall => hall f h⟩

section
variable {follow : Call → StateM Session Element}
  (hfollow : ∀ c, SameUpToLog (follow c) (follow c))
include hfollow

/-- An updating call on a variable leads to the frame in which the operand was put back, with the
result on top. -/
theorem execute_updating {slot : Nat} {g : Frame} {type : String} {name : Option String}
    {A : List Instruction} {m : Method} {label : Option Label} (hA : Supplies A)
    (harity : m.arity = A.length) (hstatic : m.isStatic = false) (hreturns : m.returnsValue = true)
    (hupdates : (g.supply (⟨.load slot type name, label⟩ :: A)).Updates m) (index : Nat)
    (label' : Option Label) :
    ∃ o e, o.source = some (.slot slot) ∧ ∀ rest, SameUpToLog
      (execute follow index g
        (⟨.load slot type name, label⟩ :: A ++ ⟨.invoke m, label'⟩ :: rest))
      (execute follow (index + (A.length + 1) + 1) ((g.rebind o e).push e) rest) := by
  let o : Operand := ⟨(g.locals.get? slot).getD (.unknown type), some (.slot slot)⟩
  have hload : Supplies (⟨.load slot type name, label⟩ :: A) := by
    rintro i (_ | ⟨_, hi⟩)
    · rfl
    · exact hA i hi
  have hsupply : g.supply (⟨.load slot type name, label⟩ :: A) = (g.pushOperand o).supply A :=
    Frame.supply_cons rfl A
  obtain ⟨known, hrule, hupdate⟩ := hupdates
  rw [hsupply, Frame.receiver_supply hA harity hstatic, harity, Frame.args_supply hA] at hrule
  change Rule.call? ⟨m, (some o).map Operand.element, g.locals.passed A⟩ = some known at hrule
  have hsettled : ((g.supply (⟨.load slot type name, label⟩ :: A)).effect
      (index + (A.length + 1)) (.invoke m)).settled? =
        some ((g.rebind o known.result).push known.result) := by
    rw [hsupply, Frame.effect_invoke_supply hA harity hstatic, Frame.invoke_of_rule hrule,
      Frame.settle_eq, if_pos hreturns]
    simp only [Frame.adjust, if_pos hupdate]
    rfl
  have hneed : (Operation.invoke m).need ≤
      (g.supply (⟨.load slot type name, label⟩ :: A)).stack.length := by
    rw [Frame.length_supply hload, List.length_cons, ← harity]
    simp [Operation.need, hstatic]
  refine ⟨o, known.result, rfl, fun rest => ?_⟩
  exact (execute_supplies hfollow hload index g _).trans
    (execute_cons_of_settled hfollow rest hneed hsettled)

theorem execute_discard (index : Nat) (f : Frame) (e : Element) (opcode : String)
    (label : Option Label) (rest : List Instruction) :
    SameUpToLog (execute follow index (f.push e) (⟨.resize opcode 0 1, label⟩ :: rest))
      (execute follow (index + 1) f rest) :=
  execute_cons_of_settled hfollow rest (by simp [Operation.need, Frame.push, Frame.pushOperand]) rfl

/-- To store the result where the operand was put back changes nothing. -/
theorem execute_storeBack {slot : Nat} {o : Operand} (index : Nat) (f : Frame) (e : Element)
    (ho : o.source = some (.slot slot)) (type : String) (name : Option String)
    (label : Option Label) (rest : List Instruction) :
    SameUpToLog
      (execute follow index ((f.rebind o e).push e) (⟨.store slot type name, label⟩ :: rest))
      (execute follow (index + 1) (f.rebind o e) rest) := by
  refine execute_cons_of_settled hfollow rest
    (by simp [Operation.need, Frame.push, Frame.pushOperand]) (congrArg some ?_)
  show { f.rebind o e with locals := (f.rebind o e).locals.bind slot e } = f.rebind o e
  simp only [Frame.rebind, ho, Locals.bind_bind]

end

end Simulation

open Simulation in
/-- **A discarded builder result is not lost.** Let code load a variable, supply the arguments of a
method that returns a value, and call it, and let a rule settle the call and update its receiver.
Then to take the result off the stack is the same as to store it in the variable: whatever comes
before and after, and however often the variable lies on the stack already, both listings have the
same result or fail alike, and ask for the same methods. -/
theorem simulate_discard_eq_store (env : Setting) (P A Q : List Instruction) (slot : Nat)
    (type type' opcode : String) (name name' : Option String) (m : Method)
    (label₁ label₂ label₃ label₄ : Option Label) (locals : Locals) (σ : Session)
    (hA : Supplies A) (harity : m.arity = A.length) (hstatic : m.isStatic = false)
    (hreturns : m.returnsValue = true)
    (hupdates : UpdatesAfter env (P ++ [⟨.load slot type name, label₁⟩] ++ A) locals σ m) :
    let code := P ++ [⟨.load slot type name, label₁⟩] ++ A
    let discarding := code ++ [⟨.invoke m, label₂⟩, ⟨.resize opcode 0 1, label₃⟩] ++ Q
    let storing := code ++ [⟨.invoke m, label₂⟩, ⟨.store slot type' name', label₄⟩] ++ Q
    ((simulate env discarding locals).run σ).1 = ((simulate env storing locals).run σ).1 ∧
      ((simulate env discarding locals).run σ).2.pool =
        ((simulate env storing locals).run σ).2.pool := by
  intro code discarding storing
  have hfollow := sameUpToLog_follow env env.maxCallDepth []
  have hdiscarding : discarding = P ++ (⟨.load slot type name, label₁⟩ :: A ++
      ⟨.invoke m, label₂⟩ :: ⟨.resize opcode 0 1, label₃⟩ :: Q) := by
    simp [discarding, code]
  have hstoring : storing = P ++ (⟨.load slot type name, label₁⟩ :: A ++
      ⟨.invoke m, label₂⟩ :: ⟨.store slot type' name', label₄⟩ :: Q) := by
    simp [storing, code]
  rw [hdiscarding, hstoring]
  refine simulate_append_congr fun g hg => ?_
  have hload : Supplies ([⟨.load slot type name, label₁⟩] ++ A) := by
    rintro i (_ | ⟨_, hi⟩)
    · rfl
    · exact hA i hi
  have hreached := fst_reach_supplies hload hg
  rw [← List.append_assoc] at hreached
  obtain ⟨o, e, ho, hexecute⟩ := execute_updating hfollow hA harity hstatic hreturns
    (hupdates _ hreached) P.length label₂
  have hdiscard := execute_discard hfollow (P.length + (A.length + 1) + 1) (g.rebind o e) e opcode
    label₃ Q
  have hstore := execute_storeBack hfollow (P.length + (A.length + 1) + 1) g e ho type' name'
    label₄ Q
  exact ((hexecute _).trans hdiscard).trans ((hexecute _).trans hstore).symm

open Simulation in
/-- A response builder lies on the stack when a header is added to it by way of its variable, and is
built only after that. -/
theorem simulate_discard_eq_store_location :
    let builder := "javax/ws/rs/core/Response$ResponseBuilder"
    let type := Descriptor.ofClass builder
    let env : Setting := { resolver := Resolver.none }
    let P : List Instruction :=
      [⟨.invoke ⟨"javax/ws/rs/core/Response", "ok", type, true, []⟩, none⟩,
       ⟨.store 1 type none, none⟩, ⟨.load 1 type none, none⟩]
    let A : List Instruction := [⟨.push .null "Ljava/net/URI;", none⟩]
    let m : Method := ⟨builder, "location", type, false, ["Ljava/net/URI;"]⟩
    let Q : List Instruction :=
      [⟨.invoke ⟨builder, "build", "Ljavax/ws/rs/core/Response;", false, []⟩, none⟩,
       ⟨.return, none⟩]
    let code := P ++ [⟨.load 1 type none, none⟩] ++ A
    let run := fun i => ((simulate env (code ++ [⟨.invoke m, none⟩, i] ++ Q) .empty).run .empty).1
    UpdatesAfter env code .empty .empty m ∧
      run ⟨.resize "POP" 0 1, none⟩ = run ⟨.store 1 type none, none⟩ ∧
      run ⟨.resize "POP" 0 1, none⟩ =
        .ok (.ofValue "Ljavax/ws/rs/core/Response;"
          (.response ⟨[200], ["Location"], [], [], []⟩)) := by
  intro builder type env P A m Q code run
  have hupdates : UpdatesAfter env code .empty .empty m := by decide +kernel
  exact ⟨hupdates, (simulate_discard_eq_store env P A Q 1 type type "POP" none none m none none none
    none .empty .empty (by decide) rfl rfl (by decide) hupdates).1, by decide +kernel⟩

end ReturnFlow

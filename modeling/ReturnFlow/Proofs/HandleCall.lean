import ReturnFlow.Proofs.Supply
import ReturnFlow.Proofs.Typed

/-!
A call through a handle is a call of the method that the handle is bound to.

A call of a method directly and a call through a handle take different ways: the one finds a rule
for the method itself and pushes what the rule answers; the other one finds no rule for the
functional method, takes the captured arguments out of the handle (`Handle.call`), and only then
looks for a rule or a body, whose answer it joins. They meet in the answer of one target
(`Simulation.execute_calls_return`), which is never empty (`Simulation.isEmpty_follow`,
`Rule.Makes.types_ne_nil`), so that joining it once more changes nothing (`Simulation.join_joined`).
A direct call into the project even pushes the answer as it is (`Simulation.complete_project`).
-/

namespace ReturnFlow

/-! ## The call that a handle stands for -/

/-- The call of the target of a handle: the captured arguments come first, and a method with a
receiver takes it from the front. -/
def Handle.call (h : Handle) (args : List Element) : Call where
  method := h.target
  receiver := if h.target.isStatic then none else (h.captured ++ args).head?
  args := if h.target.isStatic then h.captured ++ args else (h.captured ++ args).tail

namespace Target

variable {h : Handle} {args : List Element}

theorem ofHandle_of_rule {known : Known} (hrule : Rule.call? (h.call args) = some known) :
    ofHandle args h = .known known.result := by
  simp only [Handle.call] at hrule
  simp only [ofHandle, hrule]

theorem ofHandle_of_none (hrule : Rule.call? (h.call args) = none)
    (hinit : h.target.isConstructor = false) : ofHandle args h = .project (h.call args) := by
  simp only [Handle.call] at hrule ⊢
  simp only [ofHandle, hrule, hinit, Bool.false_eq_true, if_false]

end Target

/-! ## Answers are never empty -/

theorem Element.isEmpty_of_types {e : Element} (h : e.types ≠ []) : e.isEmpty = false := by
  simp [isEmpty, h]

/-- What a rule makes of operands that have types has a type. -/
theorem Rule.Makes.types_ne_nil {c : Call} {e : Element} (h : Rule.Makes c e)
    (hc : c.All fun e => e.types ≠ []) : e.types ≠ [] := by
  cases h with
  | operand he => exact hc.of_passes he
  | retyped he type => exact List.cons_ne_nil type []
  | values type hvs => exact List.cons_ne_nil type []

theorem Element.join_join (es : List Element) : join [join es] = join es := by
  simp only [join, List.flatMap_cons, List.flatMap_nil, List.append_nil]
  rw [Sorted.ofList_eq_self_iff.2 (Sorted.increasing_ofList _),
    Sorted.ofList_eq_self_iff.2 (Sorted.increasing_ofList _)]

theorem Element.isEmpty_join_singleton (e : Element) : (join [e]).isEmpty = e.isEmpty := by
  have hnil : ∀ {α : Type} [Ord α] [Std.LawfulEqOrd α] (xs : List α),
      (Sorted.ofList xs).isEmpty = xs.isEmpty := by
    intro α _ _ xs
    rw [Bool.eq_iff_iff, List.isEmpty_iff, List.isEmpty_iff]
    simp only [List.eq_nil_iff_forall_not_mem, Sorted.mem_ofList]
  simp [isEmpty, join, hnil]

theorem Locals.types_passed {l : Locals} (hl : l.All fun e => e.types ≠ [])
    (code : List Instruction) : ∀ e ∈ l.passed code, e.types ≠ [] := by
  intro e he
  obtain ⟨o, ho, rfl⟩ := List.mem_map.1 he
  obtain ⟨i, -, hi⟩ := List.mem_filterMap.1 ho
  revert hi
  cases i.op with
  | push value type => rintro ⟨⟩; exact List.cons_ne_nil type []
  | load slot type name =>
    rintro ⟨⟩
    show ((l.get? slot).getD (.unknown type)).types ≠ []
    cases hslot : l.get? slot with
    | none => exact List.cons_ne_nil type []
    | some e => exact hl slot e hslot
  | getStatic owner name type constant =>
    rintro ⟨⟩
    show (Frame.staticValue owner name type constant).types ≠ []
    rcases Frame.staticValue_cases owner name type constant with ⟨v, heq⟩ | heq <;> rw [heq] <;>
      exact List.cons_ne_nil type []
  | _ => rintro ⟨⟩

namespace Simulation

open Session

/-- A call that ended answers with what the callee handed out, or with some value of the type. -/
theorem returned_cases (m : Method) (r : Except Failure Element) (σ : Session) :
    ((returned m r).run σ).1 = .unknown m.returnType ∨
      ∃ e, r = .ok e ∧ e.isEmpty = false ∧ ((returned m r).run σ).1 = e := by
  cases r with
  | error cause => exact Or.inl rfl
  | ok e =>
    have hanswer : ((returned m (.ok e)).run σ).1 =
        if e.isEmpty then .unknown m.returnType else e := rfl
    cases he : e.isEmpty with
    | true => exact Or.inl (by rw [hanswer, he, if_pos rfl])
    | false => exact Or.inr ⟨e, rfl, he, by rw [hanswer, he, if_neg Bool.false_ne_true]⟩

/-- A call that is followed answers with the result of a body, or with some value of the type. -/
theorem follow_cases (env : Setting) (remaining : Nat) (active : List Method) (c : Call)
    (σ : Session) :
    ((follow env remaining active c).run σ).1 = .unknown c.method.returnType ∨
      ∃ f : Frame, f.result.isEmpty = false ∧
        ((follow env remaining active c).run σ).1 = f.result := by
  rw [follow, Machine.run_lookup_bind]
  cases ((lookup env c.method).run σ).1 with
  | error cause => exact Or.inl rfl
  | ok callee =>
    cases remaining with
    | zero => exact Or.inl rfl
    | succ remaining =>
      by_cases hactive : c.method ∈ active
      · simp only [if_pos hactive]
        exact Or.inl rfl
      · simp only [if_neg hactive]
        refine (returned_cases c.method _ _).imp_right ?_
        rintro ⟨e, hrun, he, hanswer⟩
        obtain ⟨f, -, rfl⟩ := exists_ok_of_map hrun
        exact ⟨f, he, hanswer⟩

theorem isEmpty_follow (env : Setting) (remaining : Nat) (active : List Method) (c : Call)
    (σ : Session) : ((follow env remaining active c).run σ).1.isEmpty = false := by
  rcases follow_cases env remaining active c σ with heq | ⟨f, hf, heq⟩
  · rw [heq]
    rfl
  · rw [heq, hf]

theorem join_follow (env : Setting) (remaining : Nat) (active : List Method) (c : Call)
    (σ : Session) :
    Element.join [((follow env remaining active c).run σ).1] =
      ((follow env remaining active c).run σ).1 := by
  rcases follow_cases env remaining active c σ with heq | ⟨f, -, heq⟩
  · rw [heq]
    rfl
  · rw [heq, Frame.result, Element.join_join]

theorem joined_singleton (type : String) {e : Element} (he : e.isEmpty = false) :
    joined type [e] = Element.join [e] := by
  simp only [joined, Element.isEmpty_join_singleton, he, Bool.false_eq_true, if_false]

/-- What is not empty stays the same when it is joined once more. -/
theorem join_joined (type : String) {e : Element} (he : e.isEmpty = false) :
    Element.join [joined type [e]] = Element.join [e] := by
  rw [joined_singleton type he, Element.join_join]

/-- The answer of a call into the project is pushed as it is: joining it alone changes nothing. -/
theorem complete_project (env : Setting) (remaining : Nat) (active : List Method) (c : Call)
    (type : String) (f : Frame) :
    complete (follow env remaining active) (.calls [.project c] type f) =
      (follow env remaining active c >>= fun e => pure (f.push e)) := by
  funext σ
  have hanswer : joined type [((follow env remaining active c).run σ).1] =
      ((follow env remaining active c).run σ).1 := by
    rw [joined_singleton type (isEmpty_follow env remaining active c σ), join_follow]
  exact congrArg (fun e => (f.push e, ((follow env remaining active c).run σ).2)) hanswer

/-! ## A call and the return of its answer -/

section
variable {follow : Call → StateM Session Element}
  (hfollow : ∀ c, SameUpToLog (follow c) (follow c))
include hfollow

theorem execute_return (index : Nat) (f : Frame) (e : Element) (label : Option Label) :
    SameUpToLog (execute follow index (f.push e) [⟨.return, label⟩])
      (pure (.ok (f.exitWith e))) :=
  execute_cons_of_settled hfollow [] (Nat.zero_le _) rfl

/-- A call with one target hands out the answer of the target. -/
theorem execute_calls_return {index : Nat} {f g : Frame} {i : Instruction} {t : Target}
    {type : String} (hneed : i.op.need ≤ f.stack.length)
    (hcalls : f.effect index i.op = .calls [t] type g) (label : Option Label) :
    SameUpToLog (execute follow index f [i, ⟨.return, label⟩])
      (answer follow t >>= fun e => pure (.ok (g.exitWith (joined type [e])))) := by
  have hanswer : SameUpToLog (answer follow t) (answer follow t) := by
    cases t with
    | known e => exact .pure e
    | project c => exact hfollow c
  rw [execute_cons_of_need_le _ hneed, hcalls]
  refine .emit_bind _ ?_
  simp only [complete, List.mapM_cons, List.mapM_nil, bind_assoc, pure_bind]
  exact hanswer.bind fun e => execute_return hfollow (index + 1) g _ label

/-- A call that a rule settles hands out what the rule answers. -/
theorem execute_ruled_return {index : Nat} {f g : Frame} {m : Method} {label : Option Label}
    {receiver : Option Operand} {args : List Element} {known : Known}
    (hneed : (Operation.invoke m).need ≤ f.stack.length)
    (heffect : f.effect index (.invoke m) = g.invoke m receiver args)
    (hrule : Rule.call? ⟨m, receiver.map Operand.element, args⟩ = some known)
    (hreturns : m.returnsValue = true) (label' : Option Label) :
    SameUpToLog (execute follow index f [⟨.invoke m, label⟩, ⟨.return, label'⟩])
      (pure (.ok ((g.adjust receiver known).exitWith known.result))) := by
  have hsettled : (f.effect index (.invoke m)).settled? =
      some ((g.adjust receiver known).push known.result) := by
    rw [heffect, Frame.invoke_of_rule hrule, Frame.settle_eq, if_pos hreturns]
    rfl
  exact (execute_cons_of_settled hfollow _ hneed hsettled).trans
    (execute_return hfollow (index + 1) _ _ label')

end

/-- What is known of the execution of a body gives the result of simulating it. -/
theorem simulate_of_execute {env : Setting} {code : List Instruction} {locals : Locals}
    {x : StateM Session Element} {g : Element → Frame}
    (h : SameUpToLog (execute (follow env env.maxCallDepth []) 0 (.init locals) code)
      (x >>= fun e => pure (.ok (g e)))) (σ : Session) :
    ((simulate env code locals).run σ).1 = .ok (g (x.run σ).1).result ∧
      ((simulate env code locals).run σ).2.pool = (x.run σ).2.pool := by
  constructor
  · show ((execute _ 0 (.init locals) code).run σ).1.map Frame.result = _
    rw [h.fst_run σ]
    rfl
  · exact h.pool_run σ

end Simulation

/-! ## Calls through handles -/

/-- Code `C` supplies what a call site captures for the method `m`, and code `A` the arguments of a
call of `f` on the handle, which are the other arguments of `m`. -/
structure HandleCall (locals : Locals) (C A : List Instruction) (m site f : Method) : Prop where
  captured : Supplies C
  site_arity : site.arity = C.length
  /-- The call site makes a handle and not a string. -/
  owner : m.owner ≠ "java/lang/invoke/StringConcatFactory"
  site_name : ¬"makeConcat".toList <+: site.name.toList
  args : Supplies A
  arity : f.arity = A.length
  virtual : f.isStatic = false
  returns : f.returnsValue = true
  no_rule : Rule.call? ⟨f, some (.ofValue site.returnType (.handle ⟨m, locals.passed C⟩)),
    locals.passed A⟩ = none
  target_returns : m.returnsValue = true
  target_init : m.isConstructor = false
  /-- The target takes all that was supplied, the first of it as its receiver if it has one. In a
  call of `m` itself, a receiver that is a handle would be called in place of `m`. -/
  operands : m.isStatic = true ∧ m.arity = C.length + A.length ∨
    m.isStatic = false ∧ m.arity + 1 = C.length + A.length ∧
      ∀ e, (locals.passed (C ++ A)).head? = some e → e.handles = []

namespace HandleCall

open Simulation

variable {locals : Locals} {C A : List Instruction} {m site f : Method}
  (h : HandleCall locals C A m site f)
include h

theorem supplies : Supplies (C ++ A) := by
  intro i hi
  rcases List.mem_append.1 hi with hi | hi
  · exact h.captured i hi
  · exact h.args i hi

/-- The call of the target takes the operands of the call that the handle stands for. -/
theorem effect_direct (index : Nat) :
    ∃ receiver args, ((Frame.init locals).supply (C ++ A)).effect index (.invoke m) =
        (Frame.init locals).invoke m receiver args ∧
      (⟨m, receiver.map Operand.element, args⟩ : Call) =
        Handle.call ⟨m, locals.passed C⟩ (locals.passed A) ∧
      ∀ o, receiver = some o → o.element.handles = [] := by
  rcases h.operands with ⟨hstatic, harity⟩ | ⟨hstatic, harity, hhandles⟩
  · refine ⟨none, locals.passed (C ++ A), ?_, ?_, by simp⟩
    · exact Frame.effect_invoke_supply_static h.supplies (by simp [harity]) hstatic index
    · simp [Handle.call, hstatic, Locals.passed_append]
  · have hall := h.supplies
    rw [← List.length_append] at harity
    rw [Locals.passed_append] at hhandles
    have hcall := Locals.passed_append locals C A
    -- the first operand is the receiver, and the others are the arguments
    cases hcode : C ++ A with
    | nil => simp [hcode] at harity
    | cons i rest =>
      rw [hcode] at hall harity hcall
      obtain ⟨o, ho⟩ := Operation.exists_supply? (hall i List.mem_cons_self) locals
      have hrest : Supplies rest := fun j hj => hall j (List.mem_cons_of_mem i hj)
      have hpassed : locals.passed C ++ locals.passed A = o.element :: locals.passed rest := by
        rw [← hcall]
        simp [Locals.passed, Locals.supplied, ho]
      refine ⟨some o, locals.passed rest, ?_, ?_, ?_⟩
      · rw [Frame.supply_cons (f := .init locals) ho]
        exact Frame.effect_invoke_supply hrest (Nat.succ.inj harity) hstatic o index
      · simp [Handle.call, hstatic, hpassed]
      · rintro _ ⟨⟩
        exact hhandles o.element (by rw [hpassed]; rfl)

theorem linked_eq : Frame.linked m site (locals.passed C) =
    .ofValue site.returnType (.handle ⟨m, locals.passed C⟩) := by
  have hname : "makeConcat".toList.isPrefixOf site.name.toList = false := by
    rw [Bool.eq_false_iff, ne_eq, List.isPrefixOf_iff_prefix]
    exact h.site_name
  have hconcat : Frame.isConcat m site = false := by
    rw [Frame.isConcat, hname]
    simp [Method.isOwnedBy, h.owner]
  simp only [Frame.linked, hconcat, Bool.false_eq_true, if_false]

section
variable {follow : Call → StateM Session Element}
  (hfollow : ∀ c, SameUpToLog (follow c) (follow c))
include hfollow

/-- The call through the handle hands out the answer of its target. -/
theorem execute_through (label₁ label₂ label₃ : Option Label) :
    SameUpToLog
      (execute follow 0 (.init locals)
        (C ++ [⟨.invokeDynamic m site, label₁⟩] ++ A ++ [⟨.invoke f, label₂⟩, ⟨.return, label₃⟩]))
      (answer follow (Target.ofHandle (locals.passed A) ⟨m, locals.passed C⟩) >>= fun e =>
        pure (.ok ((Frame.init locals).exitWith (joined f.returnType [e])))) := by
  let handle : Operand := ⟨.ofValue site.returnType (.handle ⟨m, locals.passed C⟩), none⟩
  have hsite : (((Frame.init locals).supply C).effect (0 + C.length)
      (.invokeDynamic m site)).settled? = some ((Frame.init locals).pushOperand handle) := by
    rw [Frame.effect_invokeDynamic_supply h.captured h.site_arity]
    show some ((Frame.init locals).push (Frame.linked m site (locals.passed C))) = _
    rw [h.linked_eq]
    rfl
  have hcall : (((Frame.init locals).pushOperand handle).supply A).effect
      (0 + C.length + 1 + A.length) (.invoke f) =
        .calls [Target.ofHandle (locals.passed A) ⟨m, locals.passed C⟩] f.returnType
          (.init locals) := by
    rw [Frame.effect_invoke_supply h.args h.arity h.virtual,
      Frame.invoke_of_none h.no_rule h.returns]
    rfl
  simp only [List.append_assoc, List.singleton_append]
  refine (execute_supplies hfollow h.captured 0 _ _).trans ?_
  refine (execute_cons_of_settled hfollow _ ?_ hsite).trans ?_
  · simp [Operation.need, Frame.length_supply h.captured, h.site_arity]
  · refine (execute_supplies hfollow h.args _ _ _).trans ?_
    refine execute_calls_return hfollow ?_ hcall label₃
    simp [Operation.need, Frame.length_supply h.args, h.arity, h.virtual, Frame.pushOperand]

/-- So does the call of the target itself. -/
theorem execute_direct (label₁ label₂ : Option Label) :
    ∃ g : Element → Frame, (∀ e, e.isEmpty = false → (g e).result = Element.join [e]) ∧
      SameUpToLog
        (execute follow 0 (.init locals) (C ++ A ++ [⟨.invoke m, label₁⟩, ⟨.return, label₂⟩]))
        (answer follow (Target.ofHandle (locals.passed A) ⟨m, locals.passed C⟩) >>= fun e =>
          pure (.ok (g e))) := by
  obtain ⟨receiver, args, heffect, hcall, hhandles⟩ := h.effect_direct (0 + (C ++ A).length)
  have hsupply := execute_supplies hfollow h.supplies 0 (.init locals)
    [⟨.invoke m, label₁⟩, ⟨.return, label₂⟩]
  have hneed : (Operation.invoke m).need ≤ ((Frame.init locals).supply (C ++ A)).stack.length := by
    rw [Frame.length_supply h.supplies, List.length_append]
    rcases h.operands with ⟨hstatic, harity⟩ | ⟨hstatic, harity, -⟩ <;>
      simp [Operation.need, hstatic] <;> omega
  cases hrule : Rule.call? ⟨m, receiver.map Operand.element, args⟩ with
  | some known =>
    rw [Target.ofHandle_of_rule (hcall ▸ hrule)]
    refine ⟨((Frame.init locals).adjust receiver known).exitWith, fun e he => ?_, ?_⟩
    · have houtcomes : ((Frame.init locals).adjust receiver known).outcomes = [] := by
        rcases (Frame.init locals).adjust_cases receiver known with heq | ⟨o, -, heq⟩ <;> rw [heq]
        · rfl
        · exact Frame.outcomes_rebind ..
      simp only [Frame.result, Frame.exitWith, houtcomes]
    · exact hsupply.trans
        (execute_ruled_return hfollow hneed heffect hrule h.target_returns label₂)
  | none =>
    have hofCall : Target.ofCall ⟨m, receiver.map Operand.element, args⟩ =
        [.project ⟨m, receiver.map Operand.element, args⟩] := by
      cases receiver with
      | none => rfl
      | some o => simp [Target.ofCall, hhandles o rfl]
    rw [Frame.invoke_of_none hrule h.target_returns, hofCall] at heffect
    rw [Target.ofHandle_of_none (hcall ▸ hrule) h.target_init, ← hcall]
    refine ⟨fun e => (Frame.init locals).exitWith (joined m.returnType [e]), fun e he => ?_, ?_⟩
    · exact join_joined m.returnType he
    · exact hsupply.trans (execute_calls_return hfollow hneed heffect label₂)

end

/-- The answer of the target is not empty. -/
theorem isEmpty_answer (htypes : locals.All fun e => e.types ≠ []) (env : Setting) (σ : Session) :
    ((answer (follow env env.maxCallDepth [])
      (Target.ofHandle (locals.passed A) ⟨m, locals.passed C⟩)).run σ).1.isEmpty = false := by
  have hpassed : ∀ e ∈ locals.passed C ++ locals.passed A, e.types ≠ [] := by
    rw [← Locals.passed_append]
    exact Locals.types_passed htypes (C ++ A)
  cases hrule : Rule.call? (Handle.call ⟨m, locals.passed C⟩ (locals.passed A)) with
  | some known =>
    rw [Target.ofHandle_of_rule hrule]
    refine Element.isEmpty_of_types ((Rule.makes_call? hrule).types_ne_nil ⟨?_, ?_⟩)
    · intro e he
      simp only [Handle.call] at he
      split at he
      · cases he
      · exact hpassed e (List.mem_of_head? he)
    · intro e he
      simp only [Handle.call] at he
      split at he
      · exact hpassed e he
      · exact hpassed e (List.mem_of_mem_tail he)
  | none =>
    rw [Target.ofHandle_of_none hrule h.target_init]
    exact isEmpty_follow env env.maxCallDepth [] _ σ

end HandleCall

/-- **A call through a handle is a call of its target.** Let a call site capture operands for a
method, and let a functional method be called on the handle with further operands. Then what is
returned is what a call of the method itself with all these operands returns, whether the method is
built in, has a body in the project, is being followed already or is unknown; and the same methods
are asked for. -/
theorem simulate_handleCall (env : Setting) {locals : Locals} {C A : List Instruction}
    {m site f : Method} (h : HandleCall locals C A m site f)
    (htypes : locals.All fun e => e.types ≠ []) (σ : Session)
    (label₁ label₂ label₃ label₄ label₅ : Option Label) :
    let through := C ++ [⟨.invokeDynamic m site, label₁⟩] ++ A ++
      [⟨.invoke f, label₂⟩, ⟨.return, label₃⟩]
    let direct := C ++ A ++ [⟨.invoke m, label₄⟩, ⟨.return, label₅⟩]
    ∃ e, ((simulate env through locals).run σ).1 = .ok e ∧
      ((simulate env direct locals).run σ).1 = .ok e ∧
      ((simulate env through locals).run σ).2.pool =
        ((simulate env direct locals).run σ).2.pool := by
  intro through direct
  have hfollow := Simulation.sameUpToLog_follow env env.maxCallDepth []
  have hthrough := Simulation.simulate_of_execute
    (h.execute_through hfollow label₁ label₂ label₃) σ
  obtain ⟨g, hg, hexecute⟩ := h.execute_direct hfollow label₄ label₅
  have hdirect := Simulation.simulate_of_execute hexecute σ
  have hempty := h.isEmpty_answer htypes env σ
  refine ⟨_, hthrough.1, ?_, hthrough.2.trans hdirect.2.symm⟩
  rw [hdirect.1, hg _ hempty]
  exact congrArg Except.ok (Simulation.join_joined f.returnType hempty).symm

/-- A response builder in a variable is captured for its own method `entity`, which changes the
builder when it is called directly. -/
theorem simulate_handleCall_entity :
    let builder := "jakarta/ws/rs/core/Response$ResponseBuilder"
    let type := Descriptor.ofClass builder
    let env : Setting := { resolver := Resolver.none }
    let locals := Locals.empty.bind 0 (.ofValue type (.response (.ofStatus 200)))
    let m : Method := ⟨builder, "entity", type, false, [Descriptor.object]⟩
    let site : Method := ⟨"shop/Shop", "apply", "Ljava/util/function/Function;", true, [type]⟩
    let f : Method :=
      ⟨"java/util/function/Function", "apply", Descriptor.object, false, [Descriptor.object]⟩
    let C : List Instruction := [⟨.load 0 type none, none⟩]
    let A : List Instruction := [⟨.push (.string "x") Descriptor.string, none⟩]
    HandleCall locals C A m site f ∧ (locals.All fun e => e.types ≠ []) ∧
      ∃ e, ((simulate env (C ++ [⟨.invokeDynamic m site, none⟩] ++ A ++
          [⟨.invoke f, none⟩, ⟨.return, none⟩]) locals).run .empty).1 = .ok e ∧
        ((simulate env (C ++ A ++ [⟨.invoke m, none⟩, ⟨.return, none⟩]) locals).run .empty).1 =
          .ok e ∧
        e = .ofValue type (.response ⟨[200], [], [], [Descriptor.string], []⟩) := by
  intro builder type env locals m site f C A
  have hcall : HandleCall locals C A m site f :=
    { captured := by decide
      site_arity := rfl
      owner := by decide
      site_name := by decide
      args := by decide
      arity := rfl
      virtual := rfl
      returns := by decide
      no_rule := by decide +kernel
      target_returns := by decide
      target_init := by decide
      operands := Or.inr ⟨rfl, rfl, by rintro e ⟨⟩; rfl⟩ }
  have htypes : locals.All fun e => e.types ≠ [] := by
    intro slot e he
    rw [Locals.get?_bind] at he
    split at he
    · cases he
      exact List.cons_ne_nil type []
    · cases he
  obtain ⟨e, hthrough, hdirect, -⟩ :=
    simulate_handleCall env hcall htypes .empty none none none none none
  have hresult : ((simulate env (C ++ A ++ [⟨.invoke m, none⟩, ⟨.return, none⟩]) locals).run
      .empty).1 = .ok (.ofValue type (.response ⟨[200], [], [], [Descriptor.string], []⟩)) := by
    decide +kernel
  exact ⟨hcall, htypes, e, hthrough, hdirect, Except.ok.inj (hdirect.symm.trans hresult)⟩

end ReturnFlow

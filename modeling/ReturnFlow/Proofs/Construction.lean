import ReturnFlow.Proofs.CallStack
import ReturnFlow.Proofs.Origin
import ReturnFlow.Proofs.RuleClass
import ReturnFlow.Proofs.Supply

/-!
How an object is built: it is created and copied, the arguments are supplied, and the constructor
takes them and the copy.

* `Rule.call?_constructor`: which constructors have a rule, and what they make of their arguments.
* `Frame.rebind_pushNew`: an update of the newest object changes no other operand, since none of
  them comes from the same instruction (`Frame.Created`).
* `Simulation.execute_construction`: so the object is left on the stack, and all else is as before.
-/

namespace ReturnFlow

/-! ## Constructors that have a rule -/

namespace Rule

/-- What a constructor makes of its arguments: a box or a string the argument converted to it, a
wrapped entity the entity. -/
def constructed? (m : Method) (args : List Element) : Option Element :=
  if m.owner ∈ valueClasses then
    if args.length = 1 then args.head?.map fun arg => arg.converted (Descriptor.ofClass m.owner)
    else none
  else if m.owner ∈ entityClasses then args.head?
  else none

section
variable {m : Method} (hstatic : m.isStatic = false) (hinit : m.isConstructor = true)
  (receiver : Element) (args : List Element)
include hstatic hinit

theorem Boxing.call?_constructor : Boxing.call? ⟨m, some receiver, args⟩ =
    if m.owner ∈ valueClasses ∧ args.length = 1 then
      args.head?.map fun arg => .update (arg.converted (Descriptor.ofClass m.owner))
    else none := by
  unfold Boxing.call?
  by_cases hclass : m.owner ∈ valueClasses
  · simp only [(isValueClass_iff m.owner).2 hclass, hstatic, hinit, hclass]
    rcases args with _ | ⟨arg, _ | ⟨_, _⟩⟩ <;> simp
  · simp [hclass, isValueClass_iff]

theorem Rest.call?_constructor (name : String) : Rest.call? name ⟨m, some receiver, args⟩ =
    if name = "ws/rs/core/GenericEntity" then args.head?.map .update else none := by
  have hname : m.name = "<init>" := by simpa [Method.isConstructor] using hinit
  have hdelta : Rest.builderDelta? "<init>" args = none := rfl
  unfold Rest.call?
  split
  · simp [hstatic, Rest.response?, hname]
  · simp [Rest.builder?, hdelta, hname]
  · simp [Rest.status?, hname]
  · simp [Rest.wrapped?, hinit]
  · rename_i hne
    rw [if_neg hne]

omit hstatic in
theorem JsonBuilder.call?_constructor (name : String) :
    JsonBuilder.call? name ⟨m, some receiver, args⟩ = none := by
  have hname : m.name = "<init>" := by simpa [Method.isConstructor] using hinit
  unfold JsonBuilder.call?
  split <;> simp [JsonBuilder.factory?, JsonBuilder.objectStep?, JsonBuilder.arrayStep?, hname]

/-- A constructor changes its receiver into what it makes, and nothing else decides what that is
than the class and the arguments. -/
theorem call?_constructor :
    call? ⟨m, some receiver, args⟩ = (constructed? m args).map .update := by
  unfold call? constructed?
  cases hapi : Descriptor.apiName? m.owner with
  | none =>
    have hentity : m.owner ∉ entityClasses := by
      rw [← apiName?_eq_entity_iff, hapi]
      nofun
    show Boxing.call? _ = _
    rw [Boxing.call?_constructor hstatic hinit]
    by_cases hvalue : m.owner ∈ valueClasses <;> by_cases hone : args.length = 1 <;>
      simp [hvalue, hone, hentity, Function.comp_def]
  | some name =>
    have hvalue : m.owner ∉ valueClasses := fun hmem => by
      rw [apiName?_of_mem_valueClasses _ hmem] at hapi
      cases hapi
    have hentity : m.owner ∈ entityClasses ↔ name = "ws/rs/core/GenericEntity" := by
      rw [← apiName?_eq_entity_iff, hapi, Option.some.injEq]
    have hrest : name = "ws/rs/core/GenericEntity" → isIn "ws/rs/" name = true := by
      rintro rfl
      decide
    simp only [Rest.call?_constructor hstatic hinit, JsonBuilder.call?_constructor hinit, hvalue,
      hentity, if_false]
    by_cases hname : name = "ws/rs/core/GenericEntity"
    · rw [if_pos (hrest hname), if_pos hname, if_pos hname]
    · simp [hname]

end

end Rule

/-- The constructors that have a rule: of boxes and strings with one parameter, and of wrapped
entities. -/
def Method.Constructs (m : Method) : Prop :=
  m.owner ∈ Rule.valueClasses ∧ m.arity = 1 ∨ m.owner ∈ Rule.entityClasses ∧ 1 ≤ m.arity

theorem Rule.isSome_constructed?_iff {m : Method} {args : List Element}
    (hargs : args.length = m.arity) : (constructed? m args).isSome = true ↔ m.Constructs := by
  have hdisjoint : ∀ name ∈ entityClasses, name ∉ valueClasses := by decide
  have hhead : args.head?.isSome = true ↔ 1 ≤ m.arity := by
    rw [← hargs]
    cases args <;> simp
  unfold constructed? Method.Constructs
  by_cases hvalue : m.owner ∈ valueClasses
  · have hentity : m.owner ∉ entityClasses := fun h => hdisjoint _ h hvalue
    by_cases hone : args.length = 1
    · have hsome : args.head?.isSome = true := hhead.2 (by omega)
      simp [hvalue, hone, ← hargs, hsome]
    · simp [hvalue, hentity, hone, ← hargs]
  · by_cases hentity : m.owner ∈ entityClasses
    · simp [hvalue, hentity, hhead]
    · simp [hvalue, hentity]

/-! ## The idiom -/

namespace Frame

variable {f : Frame} {index : Nat}

theorem Created.fresh (h : f.Created index) : ∀ o ∈ f.stack, o.source ≠ some (.new index) :=
  fun o ho hsource => Nat.lt_irrefl index (h.earlier o ho index hsource)

/-- An update of the newest object leaves all other operands as they are. -/
theorem rebind_pushNew (h : f.Created index) (e e' : Element) :
    (f.pushOperand ⟨e, some (.new index)⟩).rebind ⟨e, some (.new index)⟩ e' =
      f.pushOperand ⟨e', some (.new index)⟩ := by
  have hkept : f.stack.map (fun o =>
      if o.source = some (.new index) then { o with element := e' } else o) = f.stack := by
    rw [List.map_congr_left fun o ho => if_neg (h.fresh o ho), List.map_id']
  simp only [rebind, pushOperand, List.map_cons, if_true, hkept]

end Frame

/-- An object is created and copied, the arguments are supplied, and the constructor is called. -/
def construction (type : String) (A : List Instruction) (m : Method)
    (label₁ label₂ label₃ : Option Label) : List Instruction :=
  ⟨.new type, label₁⟩ :: ⟨.dup, label₂⟩ :: A ++ [⟨.invoke m, label₃⟩]

section
variable {type : String} {A : List Instruction} {m : Method} {f : Frame} {index : Nat}
  {known : Known} (h : f.Created index) (hA : Supplies A) (harity : m.arity = A.length)
  (hstatic : m.isStatic = false) (hvoid : m.returnsValue = false)
  (hrule : Rule.call? ⟨m, some (.unknown type), f.locals.passed A⟩ = some known)
  (hupdates : known.updatesReceiver = true)
include h hA harity hstatic hvoid hrule hupdates

/-- A constructor that is called on a copy of the newest object changes the other copy, too, and
leaves it on the stack. -/
theorem Frame.settled?_effect_constructor (position : Nat) :
    let o : Operand := ⟨.unknown type, some (.new index)⟩
    ((((f.pushOperand o).pushOperand o).supply A).effect position (.invoke m)).settled? =
      some (f.pushOperand ⟨known.result, some (.new index)⟩) := by
  intro o
  have hinvoke : (f.pushOperand o).invoke m (some o) (f.locals.passed A) =
      .ruled m ((f.pushOperand o).settle m (some o) known) := invoke_of_rule hrule
  have hsettle : (f.pushOperand o).settle m (some o) known =
      f.pushOperand ⟨known.result, some (.new index)⟩ := by
    rw [settle_eq, hvoid, adjust, hupdates]
    exact rebind_pushNew h _ _
  rw [effect_invoke_supply hA harity hstatic]
  show ((f.pushOperand o).invoke m (some o) (f.locals.passed A)).settled? = _
  rw [hinvoke, hsettle]
  rfl

theorem Simulation.execute_construction {follow : Call → StateM Session Element}
    (hfollow : ∀ c, SameUpToLog (follow c) (follow c)) (label₁ label₂ label₃ : Option Label) :
    SameUpToLog (execute follow index f (construction type A m label₁ label₂ label₃))
      (pure (.ok (f.pushOperand ⟨known.result, some (.new index)⟩))) := by
  let o : Operand := ⟨.unknown type, some (.new index)⟩
  let last : List Instruction := [⟨.invoke m, label₃⟩]
  let copying : List Instruction := ⟨.dup, label₂⟩ :: A ++ last
  have hnew : SameUpToLog (execute follow index f (construction type A m label₁ label₂ label₃))
      (execute follow (index + 1) (f.pushOperand o) copying) :=
    execute_cons_of_settled hfollow _ (Nat.zero_le _) rfl
  have hdup : SameUpToLog (execute follow (index + 1) (f.pushOperand o) copying)
      (execute follow (index + 1 + 1) ((f.pushOperand o).pushOperand o) (A ++ last)) :=
    execute_cons_of_settled hfollow _ (Nat.le_add_left 1 _) rfl
  have hargs := execute_supplies hfollow hA (index + 1 + 1) ((f.pushOperand o).pushOperand o) last
  have hneed : (Operation.invoke m).need ≤
      (((f.pushOperand o).pushOperand o).supply A).stack.length := by
    rw [Frame.length_supply hA, Operation.need, harity, hstatic]
    exact Nat.add_le_add_left (Nat.le_add_left 1 _) A.length
  have hsettled := Frame.settled?_effect_constructor h hA harity hstatic hvoid hrule hupdates
    (index + 1 + 1 + A.length)
  have hinit : SameUpToLog (execute follow _ (((f.pushOperand o).pushOperand o).supply A) last) _ :=
    execute_cons_of_settled hfollow [] hneed hsettled
  exact ((hnew.trans hdup).trans hargs).trans hinit

end

namespace Machine

/-- **Building an object adds one operand and touches nothing else.** Wherever in a run an object is
created, copied, and the copy handed to a constructor with the arguments that some code supplies: if
the constructor has a rule, which just those of boxes, strings and wrapped entities have, then the
code is executed to its end, the variables and all the operands are as before, and above them lies
the object that the rule made of the arguments. No method is asked for on the way. -/
theorem leads_construction {env : Setting} {code : List Instruction} {locals : Locals} {σ : Session}
    {s : Machine} (hs : Leads env [] (start code locals σ) s) {index : Nat} {f : Frame}
    {next : List Instruction} (hcontrol : s.control = .execute index f next) (type : String)
    (A : List Instruction) (hA : Supplies A) (m : Method) (harity : m.arity = A.length)
    (hstatic : m.isStatic = false) (hinit : m.isConstructor = true)
    (hvoid : m.returnsValue = false) (label₁ label₂ label₃ : Option Label)
    (rest : List Instruction) :
    let built := Rule.call? ⟨m, some (.unknown type), f.locals.passed A⟩
    let idiom := construction type A m label₁ label₂ label₃
    (built.isSome = true ↔ m.Constructs) ∧
    ∀ known, built = some known → ∃ σ', σ'.pool = s.session.pool ∧
      Leads env s.callers
        ⟨.execute index f (idiom ++ rest), s.callers, s.active, s.session⟩
        ⟨.execute (index + idiom.length) (f.pushOperand ⟨known.result, some (.new index)⟩) rest,
          s.callers, s.active, σ'⟩ := by
  intro built idiom
  have hbuilt : built = (Rule.constructed? m (f.locals.passed A)).map .update :=
    Rule.call?_constructor hstatic hinit _ _
  have hpassed : (f.locals.passed A).length = m.arity := by
    rw [Locals.passed, List.length_map, f.locals.length_supplied hA, harity]
  constructor
  · rw [hbuilt, Option.isSome_map, Rule.isSome_constructed?_iff hpassed]
  intro known hknown
  have hupdates : known.updatesReceiver = true := by
    rw [hbuilt, Option.map_eq_some_iff] at hknown
    obtain ⟨e, -, rfl⟩ := hknown
    rfl
  have hcreated := (created_of_leads hs).control
  have hinv := hs.preserves (fun _ _ => Inv.move) (inv_start env code locals σ)
  obtain ⟨control, K, active, τ⟩ := s
  cases hcontrol
  have hfollow := leads_follow (env.maxCallDepth - active.length) K active
    (Nat.sub_add_cancel hinv.length)
  have hexecute := Simulation.execute_construction hcreated hA harity hstatic hvoid hknown hupdates
    (Simulation.sameUpToLog_follow env (env.maxCallDepth - active.length) active) label₁ label₂
    label₃
  exact ⟨_, hexecute.pool_run τ, leads_upTo hfollow idiom rest (hexecute.fst_run τ)⟩

/-- A string is made while another one lies half made on the stack. -/
theorem leads_construction_nested :
    let type := Descriptor.string
    let env : Setting := { resolver := Resolver.none }
    let o : Operand := ⟨.unknown type, some (.new 0)⟩
    let f : Frame := { stack := [o, o], locals := .empty, outcomes := [] }
    let s := (step env)^[2] (start [⟨.new type, none⟩, ⟨.dup, none⟩] .empty .empty)
    let A : List Instruction := [⟨.push (.string "a") type, none⟩]
    let m : Method := ⟨"java/lang/String", "<init>", Descriptor.void, false, [type]⟩
    s.control = .execute 2 f [] ∧ m.Constructs ∧
      ∃ σ', Leads env [] ⟨.execute 2 f (construction type A m none none none), [], [], s.session⟩
        ⟨.execute 6 (f.pushOperand ⟨.literal type (.string "a"), some (.new 2)⟩) [], [], [],
          σ'⟩ := by
  intro type env o f s A m
  have hs : Leads env [] (start [⟨.new type, none⟩, ⟨.dup, none⟩] .empty .empty) s :=
    leads_iterate env _ 2
  have hcontrol : s.control = .execute 2 f [] := rfl
  obtain ⟨hiff, hleads⟩ := leads_construction hs hcontrol type A (by decide) m rfl rfl (by decide)
    (by decide) none none none []
  have hresult : (Rule.call? ⟨m, some (.unknown type), f.locals.passed A⟩).map Known.result =
      some (.literal type (.string "a")) := by
    decide +kernel
  obtain ⟨known, hknown, hliteral⟩ := Option.map_eq_some_iff.1 hresult
  obtain ⟨σ', -, hσ'⟩ := hleads known hknown
  rw [hliteral] at hσ'
  exact ⟨hcontrol, hiff.1 (by rw [hknown]; rfl), σ', hσ'⟩

end Machine

end ReturnFlow

import ReturnFlow.Proofs.KeptDepth
import ReturnFlow.Proofs.Machine
import ReturnFlow.Proofs.RuleAnswer

/-!
Properties of all the elements in a simulation.

Elements come into a simulation as constants, as unknown values of a type, as handles with what they
captured, and from the built-in rules. Otherwise they are only moved around, taken out of handles
and joined. `Inherited` says that a property goes along with all this. Such a property holds of
every element of a frame after an instruction if it did before (`Frame.All.effect`), hence after a
step of the machine (`Machine.All.step`), and in every state that a simulation comes to
(`Machine.All.leads`), also in the bodies that were left for a call.
-/

namespace ReturnFlow

/-! ## The elements of a state -/

section
variable (P : Element → Prop)

structure Call.All (c : Call) : Prop where
  receiver : ∀ e, c.receiver = some e → P e
  args : ∀ e ∈ c.args, P e

def Target.All : Target → Prop
  | .known e => P e
  | .project c => c.All P

def Locals.All (l : Locals) : Prop :=
  ∀ slot e, l.get? slot = some e → P e

structure Frame.All (f : Frame) : Prop where
  stack : ∀ o ∈ f.stack, P o.element
  locals : f.locals.All P
  outcomes : ∀ e ∈ f.outcomes, P e

def Step.All : Step → Prop
  | .done f | .ruled _ f => f.All P
  | .calls targets _ f => (∀ t ∈ targets, t.All P) ∧ f.All P

structure Pending.All (p : Pending) : Prop where
  frame : p.frame.All P
  targets : ∀ t ∈ p.targets, t.All P
  answers : ∀ e ∈ p.answers, P e

/-- A body that ended without an outcome has the empty element as its result, which goes nowhere. -/
def Control.All : Control → Prop
  | .execute _ f _ => f.All P
  | .answer p => p.All P
  | .finish result => ∀ e, result = .ok e → e.isEmpty = false → P e

structure Machine.All (s : Machine) : Prop where
  control : s.control.All P
  callers : ∀ caller ∈ s.callers, caller.pending.All P

/-- A property that an element has if those have it that it comes from. -/
structure Inherited : Prop where
  unknown : ∀ type, P (.unknown type)
  literal : ∀ type l, P (.literal type l)
  handle : ∀ type (h : Handle), (∀ e ∈ h.captured, P e) → P (.ofValue type (.handle h))
  captured : ∀ e, P e → ∀ h ∈ e.handles, ∀ e' ∈ h.captured, P e'
  join : ∀ es, (∀ e ∈ es, P e) → (Element.join es).isEmpty = false → P (.join es)
  rule : ∀ c k, Rule.call? c = some k → c.All P → P k.result

end

variable {P : Element → Prop}

theorem Call.All.of_passes {c : Call} (h : c.All P) {e : Element} (he : c.Passes e) : P e :=
  he.elim (h.receiver e) (h.args e)

/-! ## Variables -/

namespace Locals

theorem all_empty : empty.All P := by
  intro slot e h
  cases h

theorem All.bind {l : Locals} (h : l.All P) (slot : Nat) {e : Element} (he : P e) :
    (l.bind slot e).All P := by
  intro x e' hx
  rw [get?_bind] at hx
  split at hx
  · cases hx
    exact he
  · exact h x e' hx

theorem All.bindAll {l : Locals} (h : l.All P) (slots : List Nat) {es : List Element}
    (hes : ∀ e ∈ es, P e) : (l.bindAll slots es).All P := by
  unfold Locals.bindAll
  induction slots generalizing l es with
  | nil => exact h
  | cons slot slots ih =>
    cases es with
    | nil => exact h
    | cons e es =>
      exact ih (h.bind slot (hes e List.mem_cons_self)) fun e' he' =>
        hes e' (List.mem_cons_of_mem e he')

theorem all_ofCall (hP : Inherited P) {c : Call} (hc : c.All P) :
    (ofCall c.method c.receiver c.args).All P := by
  refine All.bindAll ?_ _ hc.args
  split
  · exact all_empty
  · refine all_empty.bind 0 ?_
    cases hreceiver : c.receiver with
    | none => exact hP.unknown _
    | some e => exact hc.receiver e hreceiver

theorem all_ofUnknown (hP : Inherited P) (m : Method) : (ofUnknown m).All P := by
  have hcall : Call.All P ⟨m, none, m.params.map .unknown⟩ := by
    refine ⟨by simp, fun e he => ?_⟩
    obtain ⟨type, -, rfl⟩ := List.mem_map.1 he
    exact hP.unknown type
  exact all_ofCall hP hcall

end Locals

/-! ## Instructions -/

namespace Target

theorem all_ofHandle (hP : Inherited P) {args : List Element} {h : Handle}
    (hargs : ∀ e ∈ args, P e) (hcaptured : ∀ e ∈ h.captured, P e) : (ofHandle args h).All P := by
  have hall : ∀ e ∈ h.captured ++ args, P e := by
    intro e he
    exact (List.mem_append.1 he).elim (hcaptured e) (hargs e)
  have hcall : Call.All P ⟨h.target, if h.target.isStatic then none else (h.captured ++ args).head?,
      if h.target.isStatic then h.captured ++ args else (h.captured ++ args).tail⟩ := by
    constructor
    · intro e he
      split at he
      · cases he
      · exact hall e (List.mem_of_head? he)
    · intro e he
      split at he
      · exact hall e he
      · exact hall e (List.mem_of_mem_tail he)
  unfold ofHandle
  simp only
  split
  · next k hk => exact hP.rule _ k hk hcall
  · split
    · exact hP.unknown _
    · exact hcall

theorem all_ofCall (hP : Inherited P) {c : Call} (hc : c.All P) : ∀ t ∈ ofCall c, t.All P := by
  intro t ht
  unfold ofCall at ht
  split at ht
  · rw [List.mem_singleton.1 ht]
    exact hc
  · obtain ⟨h, hh, rfl⟩ := List.mem_map.1 ht
    cases hreceiver : c.receiver with
    | none => simp [hreceiver] at hh
    | some e =>
      rw [hreceiver] at hh
      exact all_ofHandle hP hc.args (hP.captured e (hc.receiver e hreceiver) h hh)

end Target

/-- A static field has a constant of its type, or nothing is known of it. -/
theorem Frame.staticValue_cases (owner name type : String) (constant : Option Literal) :
    (∃ l, staticValue owner name type constant = .literal type l) ∨
      staticValue owner name type constant = .unknown type := by
  unfold staticValue
  cases constant with
  | some l => exact Or.inl ⟨l, rfl⟩
  | none =>
    cases hfield : Rule.field? owner name type with
    | none => exact Or.inr rfl
    | some e =>
      obtain ⟨className, -, hrest⟩ := Option.bind_eq_some_iff.1 hfield
      unfold Rule.Rest.field? at hrest
      split at hrest
      · obtain ⟨code, -, rfl⟩ := Option.map_eq_some_iff.1 hrest
        exact Or.inl ⟨_, rfl⟩
      · obtain ⟨mediaType, -, rfl⟩ := Option.map_eq_some_iff.1 hrest
        exact Or.inl ⟨_, rfl⟩
      · cases hrest

namespace Frame.All

variable {f : Frame} (h : f.All P)
include h

theorem drop (count : Nat) : (f.drop count).All P where
  stack o ho := h.stack o (List.mem_of_mem_drop ho)
  locals := h.locals
  outcomes := h.outcomes

theorem pushOperand {o : Operand} (ho : P o.element) : (f.pushOperand o).All P where
  stack o' ho' := by
    rcases List.mem_cons.1 ho' with rfl | ho'
    · exact ho
    · exact h.stack o' ho'
  locals := h.locals
  outcomes := h.outcomes

theorem push {e : Element} (he : P e) : (f.push e).All P := h.pushOperand he

theorem exitWith {e : Element} (he : P e) : (f.exitWith e).All P where
  stack o ho := by cases ho
  locals := h.locals
  outcomes e' he' := by
    rcases List.mem_cons.1 he' with rfl | he'
    · exact he
    · exact h.outcomes e' he'

theorem bind (slot : Nat) {e : Element} (he : P e) :
    Frame.All P { f with locals := f.locals.bind slot e } where
  stack := h.stack
  locals := h.locals.bind slot he
  outcomes := h.outcomes

theorem top (hpos : 0 < f.stack.length) : P f.top := by
  cases hstack : f.stack with
  | nil => simp [hstack] at hpos
  | cons o rest =>
    have ho := h.stack o (by simp [hstack])
    simpa [Frame.top, hstack] using ho

theorem args (count : Nat) : ∀ e ∈ f.args count, P e := by
  intro e he
  obtain ⟨o, ho, rfl⟩ := List.mem_map.1 he
  exact h.stack o (List.mem_of_mem_take (List.mem_reverse.1 ho))

theorem rebind (receiver : Operand) {updated : Element} (hupdated : P updated) :
    (f.rebind receiver updated).All P := by
  unfold Frame.rebind
  split
  · exact h
  · next source _ =>
    refine ⟨fun o ho => ?_, ?_, h.outcomes⟩
    · obtain ⟨o', ho', rfl⟩ := List.mem_map.1 ho
      split
      · exact hupdated
      · exact h.stack o' ho'
    · cases source with
      | slot slot => exact h.locals.bind slot hupdated
      | new index => exact h.locals

theorem settle (m : Method) (receiver : Option Operand) {known : Known} (hknown : P known.result) :
    (f.settle m receiver known).All P := by
  have hadjust : (f.adjust receiver known).All P := by
    rcases f.adjust_cases receiver known with heq | ⟨o, -, heq⟩ <;> rw [heq]
    · exact h
    · exact h.rebind o hknown
  rw [settle_eq]
  split
  · exact hadjust.push hknown
  · exact hadjust

theorem invoke (hP : Inherited P) (m : Method) (receiver : Option Operand) (args : List Element)
    (hreceiver : ∀ o, receiver = some o → P o.element) (hargs : ∀ e ∈ args, P e) :
    (f.invoke m receiver args).All P := by
  have hcall : Call.All P ⟨m, receiver.map Operand.element, args⟩ := by
    refine ⟨fun e he => ?_, hargs⟩
    obtain ⟨o, ho, rfl⟩ := Option.map_eq_some_iff.1 he
    exact hreceiver o ho
  simp only [Frame.invoke]
  split
  · next known hknown => exact h.settle m receiver (hP.rule _ known hknown hcall)
  · split
    · exact ⟨Target.all_ofCall hP hcall, h⟩
    · exact h

/-- An instruction keeps the property of all elements. -/
theorem effect (hP : Inherited P) (index : Nat) {op : Operation}
    (hneed : op.need ≤ f.stack.length) : (f.effect index op).All P := by
  cases op with
  | push value type => exact h.push (hP.literal type value)
  | load slot type name =>
    refine h.pushOperand ?_
    show P ((f.locals.get? slot).getD (.unknown type))
    cases hslot : f.locals.get? slot with
    | none => exact hP.unknown type
    | some e => exact h.locals slot e hslot
  | store slot type name => exact (h.drop 1).bind slot (h.top hneed)
  | dup =>
    refine ⟨fun o ho => ?_, h.locals, h.outcomes⟩
    rcases List.mem_append.1 ho with ho | ho
    · exact h.stack o (List.mem_of_mem_take ho)
    · exact h.stack o ho
  | «return» =>
    show Frame.All P (if f.stack = [] then f else f.exitWith f.top)
    split
    · exact h
    · next hne => exact h.exitWith (h.top (List.length_pos_iff.2 hne))
  | throw => exact h.exitWith (h.top hneed)
  | getField owner name type => exact (h.drop 1).push (hP.unknown type)
  | getStatic owner name type constant =>
    rcases staticValue_cases owner name type constant with ⟨l, heq⟩ | heq
    · exact h.push (heq ▸ hP.literal type l)
    · exact h.push (heq ▸ hP.unknown type)
  | new type => exact h.pushOperand (hP.unknown type)
  | invoke m =>
    refine (h.drop _).invoke hP m _ _ (fun o ho => ?_) (h.args m.arity)
    exact h.stack o (receiver_mem ho)
  | invokeDynamic handle site =>
    refine (h.drop site.arity).push ?_
    unfold linked
    split
    · exact hP.unknown _
    · exact hP.handle _ _ (h.args site.arity)
  | handlerEntry => exact h.push (hP.unknown _)
  | resize opcode pushes pops =>
    refine ⟨fun o ho => ?_, h.locals, h.outcomes⟩
    rcases List.mem_append.1 ho with ho | ho
    · rw [(List.mem_replicate.1 ho).2]
      exact hP.unknown _
    · exact h.stack o (List.mem_of_mem_drop ho)
  | other opcode => exact h

end Frame.All

/-! ## Steps of the machine -/

namespace Inherited

open Simulation

variable (hP : Inherited P)
include hP

theorem joined (type : String) {answers : List Element} (h : ∀ e ∈ answers, P e) :
    P (joined type answers) := by
  simp only [Simulation.joined]
  split
  · exact hP.unknown type
  · next hne => exact hP.join answers h (Bool.not_eq_true _ ▸ hne)

theorem returned (m : Method) {result : Except Failure Element}
    (h : ∀ e, result = .ok e → e.isEmpty = false → P e) (σ : Session) :
    P ((returned m result).run σ).1 := by
  cases result with
  | error cause => exact hP.unknown m.returnType
  | ok e =>
    show P (if e.isEmpty then .unknown m.returnType else e)
    split
    · exact hP.unknown m.returnType
    · next hne => exact h e rfl (Bool.not_eq_true _ ▸ hne)

end Inherited

theorem Pending.All.take {p : Pending} (h : p.All P) {e : Element} (he : P e) :
    (p.take e).All P where
  frame := h.frame
  targets t ht := h.targets t (List.mem_of_mem_tail ht)
  answers e' he' := by
    rcases List.mem_append.1 he' with he' | he'
    · exact h.answers e' he'
    · rw [List.mem_singleton.1 he']
      exact he

theorem Control.all_afterInstruction (hP : Inherited P) {f : Frame} (h : f.All P) (index : Nat)
    (i : Instruction) (rest : List Instruction) (σ : Session) :
    ((afterInstruction index f i rest).run σ).1.All P := by
  unfold afterInstruction
  by_cases hneed : i.op.need ≤ f.stack.length
  · rw [Frame.step_of_need_le index hneed]
    have hstep := h.effect hP index hneed
    revert hstep
    cases f.effect index i.op with
    | done g => exact id
    | ruled m g => exact id
    | calls targets type g => exact fun hstep => ⟨hstep.2, hstep.1, by simp⟩
  · rw [Frame.step_of_lt_need index (Nat.not_le.1 hneed)]
    intro e he
    cases he

namespace Machine.All

variable {env : Setting} {s : Machine}

theorem start (code : List Instruction) {locals : Locals} (h : locals.All P) (σ : Session) :
    (start code locals σ).All P where
  control := ⟨by simp [Frame.init], h, by simp [Frame.init]⟩
  callers := by simp [Machine.start]

theorem call (hP : Inherited P) {p : Pending} {c : Call} (hp : p.All P) (hc : c.All P)
    (h : ∀ caller ∈ s.callers, caller.pending.All P) : (s.call env p c).All P := by
  unfold Machine.call
  simp only
  split
  · exact ⟨hp.take (hP.unknown c.method.returnType), h⟩
  · split
    · exact ⟨hp.take (hP.unknown c.method.returnType), h⟩
    · refine ⟨⟨by simp [Frame.init], Locals.all_ofCall hP hc, by simp [Frame.init]⟩, ?_⟩
      intro caller hcaller
      rcases List.mem_cons.1 hcaller with rfl | hcaller
      · exact hp
      · exact h caller hcaller

/-- A step keeps the property of all elements. -/
theorem step (hP : Inherited P) (h : s.All P) : (s.step env).All P := by
  obtain ⟨control, callers, active, σ⟩ := s
  obtain ⟨hcontrol, hcallers⟩ := h
  cases control with
  | execute index f rest =>
    cases rest with
    | nil =>
      refine ⟨?_, hcallers⟩
      rintro e he hne
      cases he
      exact hP.join f.outcomes hcontrol.outcomes hne
    | cons i rest => exact ⟨Control.all_afterInstruction hP hcontrol index i rest σ, hcallers⟩
  | answer p =>
    obtain ⟨index, f, rest, type, targets, answers⟩ := p
    cases targets with
    | nil => exact ⟨hcontrol.frame.push (hP.joined type hcontrol.answers), hcallers⟩
    | cons t targets =>
      have ht := hcontrol.targets t List.mem_cons_self
      cases t with
      | known e => exact ⟨hcontrol.take ht, hcallers⟩
      | project c => exact call hP hcontrol ht hcallers
  | finish result =>
    cases callers with
    | nil => exact ⟨hcontrol, hcallers⟩
    | cons caller callers =>
      have hcaller := hcallers caller List.mem_cons_self
      exact ⟨hcaller.take (hP.returned caller.callee hcontrol σ),
        fun c hc => hcallers c (List.mem_cons_of_mem caller hc)⟩

/-- The elements of all states that a run comes to have the property. -/
theorem leads (hP : Inherited P) {base : List Caller} {t : Machine} (hst : Leads env base s t)
    (h : s.All P) : t.All P := by
  induction hst with
  | refl => exact h
  | tail _ hstep ih =>
    rw [hstep.2]
    exact ih.step hP

end Machine.All

/-- The result of a simulation has the property, unless it is empty. -/
theorem Inherited.simulate (hP : Inherited P) {env : Setting} {code : List Instruction}
    {locals : Locals} (hlocals : locals.All P) {σ : Session} {e : Element}
    (he : ((simulate env code locals).run σ).1 = .ok e) (hne : e.isEmpty = false) : P e :=
  have hstart := Machine.All.start code hlocals σ
  (hstart.leads hP (Machine.leads_halted env code locals σ)).control e he hne

/-- The result of an analysis has the property, unless it is empty. -/
theorem Inherited.analysis (hP : Inherited P) {env : Setting} {body : MethodBody} {σ : Session}
    {a : Analysis} (ha : ((Analysis.run env body).run σ).1 = .ok a)
    (hne : a.result.isEmpty = false) : P a.result := by
  obtain ⟨r, τ, -, -, hsim⟩ := Analysis.exists_simulate ha
  exact hP.simulate (Locals.all_ofUnknown hP body.method) hsim hne

end ReturnFlow

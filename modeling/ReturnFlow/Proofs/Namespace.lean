import ReturnFlow.Proofs.Answer
import ReturnFlow.Proofs.RuleClass

/-!
The two API namespaces are interchangeable.

The classes of the API are published under two namespaces. The rules see their names without the
namespace (`Rule.call?_moved`, `Rule.field?_moved`), and a project has no bodies for their methods, so
that a call that no rule settles is answered by its type alone
(`Simulation.callResult_of_unresolved`). So an instruction on the same class in the other namespace
leads to the same frame (`Frame.frame_effect_moved`), and a run goes the same way
(`Frame.run_moved`).
-/

namespace ReturnFlow

/-! ## The same class in the other namespace -/

namespace Descriptor

/-- A class in one of the two namespaces. -/
def IsApi (owner : String) : Prop :=
  ∃ name, owner = "javax/" ++ name ∨ owner = "jakarta/" ++ name

/-- The same class in one namespace and in the other. -/
inductive Moved : String → String → Prop
  | toJakarta (name : String) : Moved ("javax/" ++ name) ("jakarta/" ++ name)
  | toJavax (name : String) : Moved ("jakarta/" ++ name) ("javax/" ++ name)

variable {owner owner' : String}

theorem isApi_iff : IsApi owner ↔ ∃ name, apiName? owner = some name := by
  simp only [IsApi, apiName?_eq_some_iff]

theorem Moved.isApi (h : Moved owner owner') : IsApi owner ∧ IsApi owner' := by
  cases h with
  | toJakarta name => exact ⟨⟨name, Or.inl rfl⟩, ⟨name, Or.inr rfl⟩⟩
  | toJavax name => exact ⟨⟨name, Or.inr rfl⟩, ⟨name, Or.inl rfl⟩⟩

theorem Moved.apiName? (h : Moved owner owner') :
    ∃ name, apiName? owner = some name ∧ apiName? owner' = some name := by
  cases h with
  | toJakarta name =>
    exact ⟨name, apiName?_eq_some_iff.2 (Or.inl rfl), apiName?_eq_some_iff.2 (Or.inr rfl)⟩
  | toJavax name =>
    exact ⟨name, apiName?_eq_some_iff.2 (Or.inr rfl), apiName?_eq_some_iff.2 (Or.inl rfl)⟩

/-- A class of the API is given by its name, which is not taken for a descriptor. -/
theorem IsApi.ownerName_eq (h : IsApi owner) : ownerName owner = owner := by
  obtain ⟨name, rfl | rfl⟩ := h <;> simp [ownerName, className?, String.toList_append]

end Descriptor

open Descriptor

/-- The same method of the same class in the other namespace, with the types left as they are. -/
inductive Method.Moved : Method → Method → Prop
  | intro {owner owner' : String} (howner : Descriptor.Moved owner owner') (name returnType : String)
      (isStatic : Bool) (params : List String) :
      Method.Moved ⟨owner, name, returnType, isStatic, params⟩
        ⟨owner', name, returnType, isStatic, params⟩

theorem Method.Moved.isApi {m m' : Method} (h : m.Moved m') : IsApi m.owner ∧ IsApi m'.owner := by
  cases h with
  | intro howner => exact howner.isApi

theorem Method.Moved.returnType_eq {m m' : Method} (h : m.Moved m') :
    m.returnType = m'.returnType := by
  cases h
  rfl

/-- The same operation, but that a call or a static field may be of the same class in the other
namespace. -/
inductive Operation.Alike : Operation → Operation → Prop
  | refl (op : Operation) : Operation.Alike op op
  | invoke {m m' : Method} (h : m.Moved m') : Operation.Alike (.invoke m) (.invoke m')
  | getStatic {owner owner' : String} (h : Moved owner owner') (name type : String)
      (constant : Option Literal) :
      Operation.Alike (.getStatic owner name type constant) (.getStatic owner' name type constant)

/-- Instructions that differ at most in the namespaces of classes of the API. -/
structure Instruction.Alike (i j : Instruction) : Prop where
  op : i.op.Alike j.op
  label : i.label = j.label

/-! ## Rules -/

namespace Rule

/-- The rules treat the two namespaces alike. -/
theorem call?_moved {m m' : Method} (h : m.Moved m') (receiver : Option Element)
    (args : List Element) : call? ⟨m, receiver, args⟩ = call? ⟨m', receiver, args⟩ := by
  obtain ⟨howner, name, returnType, isStatic, params⟩ := h
  obtain ⟨className, hname, hname'⟩ := howner.apiName?
  rw [call?, call?, hname, hname']
  -- Past the choice by the name of the class, no rule looks at the owner.
  rfl

theorem field?_moved {owner owner' : String} (h : Moved owner owner') (name type : String) :
    field? owner name type = field? owner' name type := by
  obtain ⟨className, hname, hname'⟩ := h.apiName?
  rw [field?, field?, h.isApi.1.ownerName_eq, h.isApi.2.ownerName_eq, hname, hname']

end Rule

/-! ## Steps and runs -/

theorem Operation.Alike.need_eq {op op' : Operation} (h : op.Alike op') : op.need = op'.need := by
  cases h with
  | refl => rfl
  | invoke h => cases h; rfl
  | getStatic => rfl

namespace Frame

variable {ask : Call → Element}
  (hask : ∀ c : Call, IsApi c.method.owner → ask c = .unknown c.method.returnType)
include hask

theorem map_result_ofCall_moved {m m' : Method} (h : m.Moved m') (receiver : Option Element)
    (args : List Element) :
    (Target.ofCall ⟨m, receiver, args⟩).map (Target.result ask) =
      (Target.ofCall ⟨m', receiver, args⟩).map (Target.result ask) := by
  have hleft := hask ⟨m, receiver, args⟩ h.isApi.1
  have hright := hask ⟨m', receiver, args⟩ h.isApi.2
  simp only [Target.ofCall]
  cases receiver.elim [] Element.handles with
  | nil => simp only [List.map_cons, List.map_nil, Target.result, hleft, hright, h.returnType_eq]
  | cons handle handles => rfl

/-- A call of a method of the API comes to the same frame in both namespaces: a rule settles both, or
handles are called in the place of both, or both are answered by the type. -/
theorem frame_invoke_moved {m m' : Method} (h : m.Moved m') (f : Frame)
    (receiver : Option Operand) (args : List Element) :
    (f.invoke m receiver args).frame ask = (f.invoke m' receiver args).frame ask := by
  have hrule := Rule.call?_moved h (receiver.map Operand.element) args
  have htargets := map_result_ofCall_moved hask h (receiver.map Operand.element) args
  have hreturns : m.returnsValue = m'.returnsValue := by
    rw [Method.returnsValue, Method.returnsValue, h.returnType_eq]
  simp only [invoke, ← hrule, ← hreturns, ← h.returnType_eq]
  cases Rule.call? _ with
  | some known => simp only [Step.frame, settle_eq, hreturns]
  | none =>
    cases m.returnsValue with
    | false => rfl
    | true => simp only [if_true, Step.frame, htargets]

theorem frame_effect_moved {op op' : Operation} (h : op.Alike op') (f : Frame) (index : Nat) :
    (f.effect index op).frame ask = (f.effect index op').frame ask := by
  cases h with
  | refl => rfl
  | getStatic howner name type constant =>
    simp only [effect, staticValue, Rule.field?_moved howner]
  | invoke h =>
    have hinvoke := frame_invoke_moved hask h
    cases h
    exact hinvoke _ _ _

theorem run_moved {code code' : List Instruction} (h : List.Forall₂ Instruction.Alike code code')
    (index : Nat) (f : Frame) : f.run ask index code = f.run ask index code' := by
  induction h generalizing index f with
  | nil => rfl
  | cons hi _ ih =>
    simp only [run]
    rw [hi.op.need_eq, frame_effect_moved hask hi.op, ih]

end Frame

namespace Simulation

/-- A call of a method that the project has no body of is answered by its type. -/
theorem callResult_of_unresolved {env : Setting} {c : Call} (h : env.resolver c.method = none)
    (remaining : Nat) (active : List Method) :
    callResult env remaining active c = .unknown c.method.returnType := by
  have hresolve : (Pool.resolve env.resolver env.ignored c.method).1 =
      .error (.unresolvable c.method) := by
    rw [Pool.resolve, h]
  have hgives : Gives env (follow env remaining active c) (.unknown c.method.returnType) := by
    cases remaining <;>
    · rw [follow]
      refine (Gives.lookup c.method).bind ?_
      rw [hresolve]
      exact .pure _
  exact hgives.eq_run_empty.symm

end Simulation

/-- **The namespaces are interchangeable.** With no bodies for the methods of the API, a simulation
comes to the same result whichever namespace each of its calls and static fields names, from every
two sessions with sound pools. -/
theorem simulate_moved {env : Setting}
    (hresolver : ∀ m : Method, IsApi m.owner → env.resolver m = none)
    {code code' : List Instruction} (hcode : List.Forall₂ Instruction.Alike code code')
    (locals : Locals) {σ τ : Session} (hσ : σ.pool.Sound env) (hτ : τ.pool.Sound env) :
    ((simulate env code locals).run σ).1 = ((simulate env code' locals).run τ).1 := by
  have hask : ∀ c : Call, IsApi c.method.owner →
      Simulation.callResult env env.maxCallDepth [] c = .unknown c.method.returnType :=
    fun c hc => Simulation.callResult_of_unresolved (hresolver c.method hc) _ _
  rw [((Simulation.gives_simulate env code locals).run hσ).1,
    ((Simulation.gives_simulate env code' locals).run hτ).1, Frame.run_moved hask hcode]

/-- Builds a response in a variable, with what the project says of a cart as its body. The classes
of the response are in the two given namespaces. -/
def notFound (space space' : String) : List Instruction :=
  [⟨.getStatic (space ++ "ws/rs/core/Response$Status") "NOT_FOUND" "LStatus;" none, none⟩,
   ⟨.invoke ⟨space' ++ "ws/rs/core/Response", "status", "LBuilder;", true, ["LStatus;"]⟩, none⟩,
   ⟨.store 1 "LBuilder;" none, none⟩,
   ⟨.load 1 "LBuilder;" none, none⟩,
   ⟨.invoke ⟨"shop/Cart", "describe", Descriptor.object, true, []⟩, none⟩,
   ⟨.invoke ⟨space ++ "ws/rs/core/Response$ResponseBuilder", "entity", "LBuilder;", false,
     [Descriptor.object]⟩, none⟩,
   ⟨.resize "POP" 0 1, none⟩,
   ⟨.load 1 "LBuilder;" none, none⟩,
   ⟨.invoke ⟨space' ++ "ws/rs/core/Response$ResponseBuilder", "build", "LResponse;", false, []⟩,
     none⟩,
   ⟨.return, none⟩]

theorem simulate_moved_notFound :
    let describe : Method := ⟨"shop/Cart", "describe", Descriptor.object, true, []⟩
    let env : Setting :=
      { resolver := .ofList
          [(describe, [⟨.push (.string "empty") Descriptor.string, none⟩, ⟨.return, none⟩])] }
    let result := ((simulate env (notFound "jakarta/" "javax/") .empty).run .empty).1
    ((simulate env (notFound "javax/" "javax/") .empty).run .empty).1 = result ∧
      result.map (fun e => e.responses.map fun r => (r.statuses, r.entityTypes)) =
        .ok [([404], [Descriptor.string])] := by
  intro describe env result
  refine ⟨?_, by decide +kernel⟩
  have hresolver : ∀ m : Method, IsApi m.owner → env.resolver m = none := by
    intro m hm
    have hne : m ≠ describe := by
      rintro rfl
      obtain ⟨name, hname⟩ := isApi_iff.1 hm
      have hnone : apiName? describe.owner = none := by decide +kernel
      rw [hnone] at hname
      cases hname
    simp [env, Resolver.ofList, List.lookup_eq_none_iff, hne]
  have hcode : List.Forall₂ Instruction.Alike (notFound "javax/" "javax/")
      (notFound "jakarta/" "javax/") :=
    .cons ⟨.getStatic (.toJakarta _) _ _ _, rfl⟩ <| .cons ⟨.refl _, rfl⟩ <|
      .cons ⟨.refl _, rfl⟩ <| .cons ⟨.refl _, rfl⟩ <| .cons ⟨.refl _, rfl⟩ <|
      .cons ⟨.invoke (.intro (.toJakarta _) _ _ _ _), rfl⟩ <| .cons ⟨.refl _, rfl⟩ <|
      .cons ⟨.refl _, rfl⟩ <| .cons ⟨.refl _, rfl⟩ <| .cons ⟨.refl _, rfl⟩ .nil
  exact simulate_moved hresolver hcode .empty (Session.sound_empty env) (Session.sound_empty env)

end ReturnFlow

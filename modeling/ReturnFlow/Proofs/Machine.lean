import Mathlib.Data.List.Infix
import Mathlib.Logic.Relation
import ReturnFlow.Proofs.Effect

/-!
A simulation as a machine with a call stack.

`Simulation.follow` hands the methods that are being followed down to the calls it makes, and counts
down how many more may be nested. Here the methods are a stack in the state: a call is put on it
when its body is entered and taken off when the body has ended, with a result or a failure. A step
of the machine is one instruction, one answer to a call, or the end of one body; nothing bounds
their number.

* `Machine.step` is one step, and `Machine.Leads` any number of them, down to given callers.
* `Machine.leads_execute` and `Machine.leads_follow`: running a body and following a call lead to
  what `Simulation.execute` and `Simulation.follow` compute, with the call stack as it was.
* `Machine.leads_halted`: started on a body, the machine halts with what `simulate` computes.
-/

namespace ReturnFlow

/-- An instruction that waits for the answers of its calls. -/
structure Pending where
  /-- The index of the instruction after it. -/
  index : Nat
  /-- The frame in which the joint answer is to be pushed. -/
  frame : Frame
  rest : List Instruction
  type : String
  /-- The targets that are still to be answered. -/
  targets : List Target
  answers : List Element

/-- The answer of the first target is there. -/
def Pending.take (p : Pending) (e : Element) : Pending :=
  { p with targets := p.targets.tail, answers := p.answers ++ [e] }

/-- A body that was left for a call. -/
structure Caller where
  callee : Method
  pending : Pending

/-- What is to be done next. -/
inductive Control where
  | execute (index : Nat) (frame : Frame) (rest : List Instruction)
  | answer (pending : Pending)
  /-- The body has ended. -/
  | finish (result : Except Failure Element)

/-- The state of the machine: what is to be done in the present body, the bodies that were left for
it, the latest first, and the call stack. -/
structure Machine where
  control : Control
  callers : List Caller
  active : List Method
  session : Session

namespace Control

open Session

/-- What is to be done after an instruction that can be executed. -/
def afterStep (index : Nat) (rest : List Instruction) : Step → StateM Session Control
  | .done f => return .execute (index + 1) f rest
  | .ruled m f => do
    emit (.ruleApplied m)
    return .execute (index + 1) f rest
  | .calls targets type f => return .answer ⟨index + 1, f, rest, type, targets, []⟩

/-- What is to be done after an instruction. -/
def afterInstruction (index : Nat) (f : Frame) (i : Instruction) (rest : List Instruction) :
    StateM Session Control := do
  emit (.step index i f.stack.length)
  match f.step index i.op with
  | .error cause => return .finish (.error cause)
  | .ok s => afterStep index rest s

end Control

namespace Machine

open Simulation

/-- Goes on in the present body. -/
def proceed (s : Machine) (next : StateM Session Control) : Machine :=
  { s with control := (next.run s.session).1, session := (next.run s.session).2 }

/-- Does the call stack forbid to enter a method? It is full, or holds the method already. -/
def Forbids (env : Setting) (s : Machine) (m : Method) : Prop :=
  env.maxCallDepth ≤ s.active.length ∨ m ∈ s.active

instance (env : Setting) (s : Machine) (m : Method) : Decidable (s.Forbids env m) :=
  inferInstanceAs (Decidable (_ ∨ _))

/-- A call is answered from outside the project, or cut off by the call stack, or entered. -/
def call (env : Setting) (s : Machine) (p : Pending) (c : Call) : Machine :=
  let asked := (Session.lookup env c.method).run s.session
  match asked.1 with
  | .error _ =>
    { s with session := asked.2 }.proceed (return .answer (p.take (.unknown c.method.returnType)))
  | .ok callee =>
    if s.Forbids env c.method then
      { s with session := asked.2 }.proceed do
        return .answer (p.take (← cutOff c.method s.active.length))
    else
      { control := .execute 0 (.init (Locals.ofCall c.method c.receiver c.args)) callee.code
        callers := ⟨c.method, p⟩ :: s.callers
        active := c.method :: s.active
        session := asked.2 }

/-- One step. The machine halts when the first body has ended. -/
def step (env : Setting) (s : Machine) : Machine :=
  match s.control with
  | .execute _ f [] => s.proceed (return .finish (.ok f.result))
  | .execute index f (i :: rest) => s.proceed (Control.afterInstruction index f i rest)
  | .answer p =>
    match p.targets with
    | [] => s.proceed (return .execute p.index (p.frame.push (joined p.type p.answers)) p.rest)
    | .known e :: _ => s.proceed (return .answer (p.take e))
    | .project c :: _ => s.call env p c
  | .finish result =>
    match s.callers with
    | [] => s
    | ⟨callee, p⟩ :: callers =>
      { s with callers := callers, active := s.active.tail }.proceed do
        return .answer (p.take (← returned callee result))

/-- The machine before the first instruction of a body. -/
def start (code : List Instruction) (locals : Locals) (σ : Session) : Machine :=
  ⟨.execute 0 (.init locals) code, [], [], σ⟩

/-- The machine after the end of the first body. -/
def halted (outcome : Except Failure Element × Session) : Machine :=
  ⟨.finish outcome.1, [], [], outcome.2⟩

/-- Some steps lead from the one state to the other, none of them back into a body that was left
before `base`. -/
def Leads (env : Setting) (base : List Caller) : Machine → Machine → Prop :=
  Relation.ReflTransGen fun s t => base <:+ s.callers ∧ t = s.step env

namespace Leads

variable {env : Setting} {base base' : List Caller} {s t u : Machine}

theorem refl (s : Machine) : Leads env base s s := Relation.ReflTransGen.refl

theorem trans (h : Leads env base s t) (h' : Leads env base t u) : Leads env base s u :=
  Relation.ReflTransGen.trans h h'

theorem head (hs : base <:+ s.callers) (h : Leads env base (s.step env) u) :
    Leads env base s u :=
  Relation.ReflTransGen.head ⟨hs, rfl⟩ h

theorem of_step (hs : base <:+ s.callers) (h : s.step env = t) : Leads env base s t :=
  h ▸ head hs (refl _)

theorem mono (hbase : base' <:+ base) (h : Leads env base s t) : Leads env base' s t := by
  induction h with
  | refl => exact refl s
  | tail _ hstep ih => exact ih.trans (of_step (hbase.trans hstep.1) hstep.2.symm)

end Leads

/-! ## What the machine computes -/

section
variable {env : Setting} {K : List Caller} {A : List Method}
  {follow : Call → StateM Session Element}

/-- With the callers and the call stack given, the calls into the project are answered as by
`follow`. -/
def Follows (env : Setting) (K : List Caller) (A : List Method)
    (follow : Call → StateM Session Element) : Prop :=
  ∀ (p : Pending) (c : Call) (targets : List Target) (σ : Session),
    p.targets = .project c :: targets →
      Leads env K ⟨.answer p, K, A, σ⟩
        ⟨.answer (p.take ((follow c).run σ).1), K, A, ((follow c).run σ).2⟩

variable (hfollow : Follows env K A follow)
include hfollow

/-- A target is answered. -/
theorem leads_answer (p : Pending) {t : Target} {targets : List Target}
    (hp : p.targets = t :: targets) (σ : Session) :
    Leads env K ⟨.answer p, K, A, σ⟩
      ⟨.answer (p.take ((answer follow t).run σ).1), K, A, ((answer follow t).run σ).2⟩ := by
  cases t with
  | known e =>
    refine Leads.of_step (List.suffix_refl K) ?_
    simp only [step, hp]
    rfl
  | project c => exact hfollow p c targets σ hp

/-- The targets are answered one after the other. -/
theorem leads_answers (targets : List Target) (p : Pending) (hp : p.targets = targets)
    (σ : Session) :
    let r := (targets.mapM (answer follow)).run σ
    Leads env K ⟨.answer p, K, A, σ⟩
      ⟨.execute p.index (p.frame.push (joined p.type (p.answers ++ r.1))) p.rest, K, A, r.2⟩ := by
  induction targets generalizing p σ with
  | nil =>
    refine Leads.of_step (List.suffix_refl K) ?_
    simp only [step, hp]
    rw [List.mapM_nil]
    show _ =
      Machine.mk (.execute p.index (p.frame.push (joined p.type (p.answers ++ []))) p.rest) ..
    rw [List.append_nil]
    rfl
  | cons t targets ih =>
    let r := (answer follow t).run σ
    have hrest := ih (p.take r.1) (by simp [Pending.take, hp]) r.2
    simp only [Pending.take, List.append_assoc, List.singleton_append] at hrest
    rw [List.mapM_cons]
    exact (leads_answer hfollow p hp σ).trans hrest

/-- An instruction that can be executed is completed. -/
theorem leads_complete (index : Nat) (rest : List Instruction) (s : Step) (σ : Session) :
    let next := (Control.afterStep index rest s).run σ
    let done := (complete follow s).run σ
    Leads env K ⟨next.1, K, A, next.2⟩ ⟨.execute (index + 1) done.1 rest, K, A, done.2⟩ := by
  cases s with
  | done f => exact .refl _
  | ruled m f => exact .refl _
  | calls targets type f =>
    exact leads_answers hfollow targets ⟨index + 1, f, rest, type, targets, []⟩ rfl σ

/-- An instruction that finds its operands leads on to the next one. -/
theorem leads_instruction (index : Nat) (f : Frame) (i : Instruction) (rest : List Instruction)
    (σ : Session) (hneed : i.op.need ≤ f.stack.length) :
    let logged : Session := { σ with log := σ.log.push (.step index i f.stack.length) }
    let done := (complete follow (f.effect index i.op)).run logged
    Leads env K ⟨.execute index f (i :: rest), K, A, σ⟩
      ⟨.execute (index + 1) done.1 rest, K, A, done.2⟩ := by
  intro logged done
  refine Leads.head (List.suffix_refl K) ?_
  have hnext := leads_complete hfollow index rest (f.effect index i.op) logged
  simp only [step, proceed, Control.afterInstruction, Frame.step_of_need_le index hneed]
  exact hnext

omit hfollow in
/-- An instruction that lacks operands ends the body. -/
theorem step_of_lt_need (index : Nat) (f : Frame) (i : Instruction) (rest : List Instruction)
    (σ : Session) (hneed : f.stack.length < i.op.need) :
    step env ⟨.execute index f (i :: rest), K, A, σ⟩ =
      ⟨.finish (.error (.underflow index)), K, A,
        { σ with log := σ.log.push (.step index i f.stack.length) }⟩ := by
  simp only [step, proceed, Control.afterInstruction, Frame.step_of_lt_need index hneed]
  rfl

/-- A body runs up to any of its instructions. -/
theorem leads_upTo (xs ys : List Instruction) {index : Nat} {f g : Frame} {σ : Session}
    (h : ((execute follow index f xs).run σ).1 = .ok g) :
    Leads env K ⟨.execute index f (xs ++ ys), K, A, σ⟩
      ⟨.execute (index + xs.length) g ys, K, A, ((execute follow index f xs).run σ).2⟩ := by
  induction xs generalizing index f σ with
  | nil =>
    cases h
    exact .refl _
  | cons i xs ih =>
    by_cases hneed : i.op.need ≤ f.stack.length
    · rw [execute_cons_of_need_le xs hneed] at h ⊢
      rw [List.length_cons, Nat.add_comm xs.length 1, ← Nat.add_assoc]
      exact (leads_instruction hfollow index f i (xs ++ ys) σ hneed).trans (ih h)
    · rw [execute_cons_of_lt_need xs (Nat.not_le.1 hneed)] at h
      cases h

/-- A body runs to its end. -/
theorem leads_execute (code : List Instruction) (index : Nat) (f : Frame) (σ : Session) :
    let r := (execute follow index f code).run σ
    Leads env K ⟨.execute index f code, K, A, σ⟩ ⟨.finish (r.1.map Frame.result), K, A, r.2⟩ := by
  induction code generalizing index f σ with
  | nil => exact Leads.of_step (List.suffix_refl K) rfl
  | cons i rest ih =>
    by_cases hneed : i.op.need ≤ f.stack.length
    · rw [execute_cons_of_need_le rest hneed]
      exact (leads_instruction hfollow index f i rest σ hneed).trans (ih _ _ _)
    · have hlt := Nat.not_le.1 hneed
      rw [execute_cons_of_lt_need rest hlt]
      exact Leads.of_step (List.suffix_refl K) (step_of_lt_need index f i rest σ hlt)

end

/-! ## Calls -/

section
variable {env : Setting} {K : List Caller} {A : List Method} {σ : Session} {p : Pending} {c : Call}
  {remaining : Nat}

theorem step_project {targets : List Target} (hp : p.targets = .project c :: targets) :
    step env ⟨.answer p, K, A, σ⟩ = call env ⟨.answer p, K, A, σ⟩ p c := by
  simp only [step, hp]

theorem run_lookup_bind (env : Setting) (m : Method)
    (rest : Except Failure ReducedMethod → StateM Session Element) (σ : Session) :
    (Session.lookup env m >>= rest).run σ =
      (rest ((Session.lookup env m).run σ).1).run ((Session.lookup env m).run σ).2 := rfl

/-- A call is answered at once if no body is found, or if the call stack forbids to enter it. -/
theorem call_of_refused (hlen : remaining + A.length = env.maxCallDepth)
    (h : ∀ callee, ((Session.lookup env c.method).run σ).1 = .ok callee →
      Forbids env ⟨.answer p, K, A, σ⟩ c.method) :
    call env ⟨.answer p, K, A, σ⟩ p c =
      ⟨.answer (p.take ((follow env remaining A c).run σ).1), K, A,
        ((follow env remaining A c).run σ).2⟩ := by
  cases hasked : ((Session.lookup env c.method).run σ).1 with
  | error cause =>
    rw [follow, run_lookup_bind, hasked]
    simp only [call, hasked]
    rfl
  | ok callee =>
    have hguard := h callee hasked
    rw [follow, run_lookup_bind, hasked]
    simp only [call, hasked, if_pos hguard]
    cases remaining with
    | zero => rfl
    | succ remaining =>
      have hmem : c.method ∈ A := hguard.resolve_left (by simp only; omega)
      simp only [if_pos hmem]
      rfl

section
variable {callee : ReducedMethod} (hasked : ((Session.lookup env c.method).run σ).1 = .ok callee)
include hasked

theorem call_of_entered (hguard : ¬Forbids env ⟨.answer p, K, A, σ⟩ c.method) :
    call env ⟨.answer p, K, A, σ⟩ p c =
      ⟨.execute 0 (.init (Locals.ofCall c.method c.receiver c.args)) callee.code,
        ⟨c.method, p⟩ :: K, c.method :: A, ((Session.lookup env c.method).run σ).2⟩ := by
  simp only [call, hasked, if_neg hguard]

theorem run_follow_of_entered (hmem : c.method ∉ A) :
    (follow env (remaining + 1) A c).run σ =
      let r := (execute (follow env remaining (c.method :: A)) 0
        (.init (Locals.ofCall c.method c.receiver c.args)) callee.code).run
          ((Session.lookup env c.method).run σ).2
      (returned c.method (r.1.map Frame.result)).run r.2 := by
  rw [follow, run_lookup_bind, hasked]
  simp only [if_neg hmem]
  rfl

end

end

/-- As long as the call stack is not longer than allowed, calls are followed as by
`Simulation.follow`. -/
theorem leads_follow {env : Setting} (remaining : Nat) (K : List Caller) (A : List Method)
    (hlen : remaining + A.length = env.maxCallDepth) :
    Follows env K A (follow env remaining A) := by
  induction remaining generalizing K A with
  | zero =>
    intro p c targets σ hp
    refine Leads.of_step (List.suffix_refl K) ?_
    rw [step_project hp]
    exact call_of_refused hlen fun _ _ => Or.inl (by simp only; omega)
  | succ remaining ih =>
    intro p c targets σ hp
    by_cases henter : ∃ callee, ((Session.lookup env c.method).run σ).1 = .ok callee ∧
        ¬Forbids env ⟨.answer p, K, A, σ⟩ c.method
    · obtain ⟨callee, hasked, hguard⟩ := henter
      rw [run_follow_of_entered hasked fun hmem => hguard (Or.inr hmem)]
      refine Leads.head (List.suffix_refl K) ?_
      rw [step_project hp, call_of_entered hasked hguard]
      -- the body of the callee runs above the new caller, and its end takes the call off again
      have hbody := leads_execute
        (ih (⟨c.method, p⟩ :: K) (c.method :: A) (by rw [List.length_cons]; omega)) callee.code 0
        (.init (Locals.ofCall c.method c.receiver c.args)) ((Session.lookup env c.method).run σ).2
      refine (hbody.mono (List.suffix_cons _ K)).trans ?_
      exact Leads.of_step (List.suffix_cons _ K) rfl
    · refine Leads.of_step (List.suffix_refl K) ?_
      rw [step_project hp]
      refine call_of_refused hlen fun callee hasked => ?_
      by_contra hguard
      exact henter ⟨callee, hasked, hguard⟩

/-- Started on a body, the machine halts with what the simulation of the body computes. -/
theorem leads_halted (env : Setting) (code : List Instruction) (locals : Locals) (σ : Session) :
    Leads env [] (start code locals σ) (halted ((simulate env code locals).run σ)) :=
  leads_execute (leads_follow env.maxCallDepth [] [] rfl) code 0 (.init locals) σ

end Machine

end ReturnFlow

import Mathlib.Data.List.Nodup
import Mathlib.Data.Set.Basic
import ReturnFlow.Proofs.Effect

/-!
Runs whose answers do not depend on what the pool already holds.

* `Pool.Sound`: each answer of the pool is what resolving the method gives; `Pool.Sound.lookup`
  says that a request keeps it so, and is answered as if the pool were empty.
* `Gives`: a computation gives one value from every session with a sound pool, and asks for the
  same methods. It goes through the parts of a computation (`Gives.bind`, `Gives.mapM`).
* `Frame.run` is an execution without a session, where `ask` answers the calls into the project;
  `Simulation.gives_execute` says that executions give what it computes, and
  `Simulation.gives_follow` that following a call has such an answer.
-/

namespace ReturnFlow

/-! ## Sound pools -/

namespace Pool

/-- The methods that were asked for. -/
def methods (p : Pool) : List Method := p.entries.map Prod.fst

/-- Each answer is what resolving the method gives, and no method has two. -/
structure Sound (env : Setting) (p : Pool) : Prop where
  answers : ∀ m a, (m, a) ∈ p.entries → a = (resolve env.resolver env.ignored m).1
  nodup : p.methods.Nodup

variable {env : Setting} {p : Pool}

theorem mem_methods {m : Method} : m ∈ p.methods ↔ ∃ a, p.answer? m = some a := by
  rw [← Option.isSome_iff_exists, answer?, List.lookup_isSome_iff, methods, List.mem_map]
  simp

theorem Sound.answer (h : p.Sound env) {m : Method} {a : Except Failure ReducedMethod}
    (ha : p.answer? m = some a) : a = (resolve env.resolver env.ignored m).1 := by
  obtain ⟨l₁, l₂, hsplit, -⟩ := List.lookup_eq_some_iff.1 ha
  exact h.answers m a (by rw [hsplit]; simp)

/-- The pool with one more answer. -/
def add (p : Pool) (m : Method) (a : Except Failure ReducedMethod) : Pool :=
  ⟨p.entries ++ [(m, a)], p.resolutions + 1⟩

theorem methods_add (p : Pool) (m : Method) (a : Except Failure ReducedMethod) :
    (p.add m a).methods = p.methods ++ [m] := by
  simp [methods, add]

/-- A request is answered from the pool, or it adds the answer of resolving the method. -/
theorem lookup_cases (p : Pool) (resolver : Resolver) (ignored : List String) (m : Method) :
    (∃ a, p.answer? m = some a ∧ p.lookup resolver ignored m = (a, p, [])) ∨
      m ∉ p.methods ∧ p.lookup resolver ignored m =
        ((resolve resolver ignored m).1, p.add m (resolve resolver ignored m).1,
          (resolve resolver ignored m).2) := by
  unfold Pool.lookup
  cases ha : p.answer? m with
  | some a => exact Or.inl ⟨a, rfl, rfl⟩
  | none =>
    refine Or.inr ⟨fun hm => ?_, rfl⟩
    obtain ⟨a, ha'⟩ := mem_methods.1 hm
    rw [ha] at ha'
    cases ha'

theorem nodup_methods_lookup (h : p.methods.Nodup) (resolver : Resolver) (ignored : List String)
    (m : Method) : (p.lookup resolver ignored m).2.1.methods.Nodup := by
  rcases p.lookup_cases resolver ignored m with ⟨a, -, heq⟩ | ⟨hm, heq⟩ <;> rw [heq]
  · exact h
  · rw [methods_add, ← List.concat_eq_append]
    exact h.concat hm

/-- A request is answered as if the pool were empty, and adds at most the method asked for. -/
theorem Sound.lookup (h : p.Sound env) (m : Method) :
    (p.lookup env.resolver env.ignored m).1 = (resolve env.resolver env.ignored m).1 ∧
      (p.lookup env.resolver env.ignored m).2.1.Sound env ∧
      ∀ m', m' ∈ (p.lookup env.resolver env.ignored m).2.1.methods ↔ m' ∈ p.methods ∨ m' = m := by
  have hnodup := nodup_methods_lookup h.nodup env.resolver env.ignored m
  rcases p.lookup_cases env.resolver env.ignored m with ⟨a, ha, heq⟩ | ⟨hm, heq⟩ <;>
    rw [heq] at hnodup ⊢
  · refine ⟨h.answer ha, h, fun m' => ?_⟩
    constructor
    · exact Or.inl
    · rintro (hm' | rfl)
      · exact hm'
      · exact mem_methods.2 ⟨a, ha⟩
  · refine ⟨rfl, ⟨?_, hnodup⟩, fun m' => by simp [methods_add]⟩
    intro m' a hmem
    rcases List.mem_append.1 hmem with hmem | hmem
    · exact h.answers m' a hmem
    · cases List.mem_singleton.1 hmem
      rfl

end Pool

theorem Session.sound_empty (env : Setting) : Session.empty.pool.Sound env where
  answers m a h := by simp [Session.empty, Pool.empty] at h
  nodup := List.nodup_nil

/-! ## Answers -/

/-- From every session with a sound pool the computation gives the value, keeps the pool sound and
asks for the same methods. -/
def Gives {α : Type} (env : Setting) (x : StateM Session α) (a : α) : Prop :=
  ∃ asked : Set Method, ∀ σ : Session, σ.pool.Sound env →
    (x.run σ).1 = a ∧ (x.run σ).2.pool.Sound env ∧
      ∀ m, m ∈ (x.run σ).2.pool.methods ↔ m ∈ σ.pool.methods ∨ m ∈ asked

namespace Gives

variable {α β γ : Type} {env : Setting}

theorem pure (a : α) : Gives env (Pure.pure a : StateM Session α) a :=
  ⟨∅, fun _ hσ => ⟨rfl, hσ, fun m => (or_iff_left (Set.notMem_empty m)).symm⟩⟩

theorem bind {x : StateM Session α} {a : α} {f : α → StateM Session β} {b : β}
    (hx : Gives env x a) (hf : Gives env (f a) b) : Gives env (x >>= f) b := by
  obtain ⟨s, hx⟩ := hx
  obtain ⟨t, hf⟩ := hf
  refine ⟨s ∪ t, fun σ hσ => ?_⟩
  obtain ⟨hval, hsound, hasked⟩ := hx σ hσ
  obtain ⟨hval', hsound', hasked'⟩ := hf (x.run σ).2 hsound
  have hrun : (x >>= f).run σ = (f a).run (x.run σ).2 := by rw [← hval]; rfl
  rw [hrun]
  refine ⟨hval', hsound', fun m => ?_⟩
  rw [hasked' m, hasked m, or_assoc]
  rfl

theorem emit (e : Event) : Gives env (Session.emit e) () :=
  ⟨∅, fun _ hσ => ⟨rfl, hσ, fun m => (or_iff_left (Set.notMem_empty m)).symm⟩⟩

theorem lookup (m : Method) :
    Gives env (Session.lookup env m) (Pool.resolve env.resolver env.ignored m).1 :=
  ⟨{m}, fun _ hσ => hσ.lookup m⟩

theorem mapM {f : γ → StateM Session α} {g : γ → α} {l : List γ}
    (h : ∀ c ∈ l, Gives env (f c) (g c)) : Gives env (l.mapM f) (l.map g) := by
  induction l with
  | nil => exact pure []
  | cons c l ih =>
    rw [List.mapM_cons]
    refine (h c List.mem_cons_self).bind ?_
    exact (ih fun c' hc' => h c' (List.mem_cons_of_mem c hc')).bind (pure _)

theorem forM {f : γ → StateM Session Unit} {l : List γ} (h : ∀ c ∈ l, Gives env (f c) ()) :
    Gives env (l.forM f) () := by
  induction l with
  | nil => exact pure ()
  | cons c l ih =>
    exact (h c List.mem_cons_self).bind (ih fun c' hc' => h c' (List.mem_cons_of_mem c hc'))

/-- The value that is given is that of a session of its own. -/
theorem eq_run_empty {x : StateM Session α} {a : α} (h : Gives env x a) :
    a = (x.run .empty).1 := by
  obtain ⟨_, h⟩ := h
  exact (h .empty (Session.sound_empty env)).1.symm

/-- The methods that are asked for are those of a session of its own. -/
theorem run {x : StateM Session α} {a : α} (h : Gives env x a) {σ : Session}
    (hσ : σ.pool.Sound env) :
    (x.run σ).1 = a ∧ (x.run σ).2.pool.Sound env ∧
      ∀ m, m ∈ (x.run σ).2.pool.methods ↔
        m ∈ σ.pool.methods ∨ m ∈ (x.run .empty).2.pool.methods := by
  obtain ⟨asked, h⟩ := h
  obtain ⟨hval, hsound, hasked⟩ := h σ hσ
  refine ⟨hval, hsound, fun m => ?_⟩
  have hempty := (h .empty (Session.sound_empty env)).2.2 m
  rw [hasked m, hempty]
  simp [Session.empty, Pool.methods, Pool.empty]

end Gives

/-! ## Execution without a session -/

/-- The answer of a target, where `ask` answers calls into the project. -/
def Target.result (ask : Call → Element) : Target → Element
  | .known result => result
  | .project call => ask call

/-- The frame that an instruction leads to once its calls are answered. -/
def Step.frame (ask : Call → Element) : Step → Frame
  | .done f | .ruled _ f => f
  | .calls targets type f =>
    f.push (Simulation.joined type (targets.map (Target.result ask)))

theorem Step.length_frame (ask : Call → Element) (s : Step) :
    (s.frame ask).stack.length = s.depth := by
  cases s <;> rfl

/-- Executes instructions, the first of which has the given index. -/
def Frame.run (ask : Call → Element) (index : Nat) (f : Frame) :
    List Instruction → Except Failure Frame
  | [] => .ok f
  | i :: rest =>
    if i.op.need ≤ f.stack.length then
      Frame.run ask (index + 1) ((f.effect index i.op).frame ask) rest
    else .error (.underflow index)

namespace Frame

variable {ask : Call → Element} {index : Nat} {f g : Frame}

theorem run_cons_of_need_le {i : Instruction} (rest : List Instruction)
    (h : i.op.need ≤ f.stack.length) :
    f.run ask index (i :: rest) = ((f.effect index i.op).frame ask).run ask (index + 1) rest :=
  if_pos h

theorem run_cons_of_lt_need {i : Instruction} (rest : List Instruction)
    (h : f.stack.length < i.op.need) : f.run ask index (i :: rest) = .error (.underflow index) :=
  if_neg (Nat.not_le.2 h)

theorem run_append (xs ys : List Instruction) :
    f.run ask index (xs ++ ys) =
      (f.run ask index xs).bind fun g => g.run ask (index + xs.length) ys := by
  induction xs generalizing index f with
  | nil => rfl
  | cons i xs ih =>
    rw [List.cons_append]
    by_cases hneed : i.op.need ≤ f.stack.length
    · rw [run_cons_of_need_le _ hneed, run_cons_of_need_le _ hneed, ih, List.length_cons,
        Nat.add_right_comm, Nat.add_assoc]
    · rw [run_cons_of_lt_need _ (Nat.not_le.1 hneed), run_cons_of_lt_need _ (Nat.not_le.1 hneed)]
      rfl

end Frame

namespace Simulation

variable {env : Setting}

section
variable {follow : Call → StateM Session Element} {ask : Call → Element}
  (hask : ∀ c, Gives env (follow c) (ask c))
include hask

theorem gives_answer (t : Target) : Gives env (answer follow t) (t.result ask) := by
  cases t with
  | known result => exact .pure result
  | project call => exact hask call

theorem gives_complete (s : Step) : Gives env (complete follow s) (s.frame ask) := by
  cases s with
  | done f => exact .pure f
  | ruled m f => exact (Gives.emit _).bind (.pure f)
  | calls targets type f =>
    exact (Gives.mapM fun t _ => gives_answer hask t).bind (.pure _)

theorem gives_execute (code : List Instruction) (index : Nat) (f : Frame) :
    Gives env (execute follow index f code) (f.run ask index code) := by
  induction code generalizing index f with
  | nil => exact .pure _
  | cons i rest ih =>
    by_cases hneed : i.op.need ≤ f.stack.length
    · rw [execute_cons_of_need_le rest hneed, Frame.run_cons_of_need_le rest hneed]
      exact (Gives.emit _).bind ((gives_complete hask _).bind (ih _ _))
    · have hlt := Nat.not_le.1 hneed
      rw [execute_cons_of_lt_need rest hlt, Frame.run_cons_of_lt_need rest hlt]
      exact (Gives.emit _).bind (.pure _)

theorem gives_runBody (code : List Instruction) (locals : Locals) :
    Gives env (runBody follow code locals)
      (((Frame.init locals).run ask 0 code).map Frame.result) :=
  (gives_execute hask code 0 (.init locals)).bind (.pure _)

end

theorem exists_gives_returned (env : Setting) (m : Method) (r : Except Failure Element) :
    ∃ e, Gives env (returned m r) e := by
  cases r with
  | ok e => exact ⟨_, .pure _⟩
  | error cause => exact ⟨_, (Gives.emit _).bind (.pure _)⟩

theorem exists_gives_cutOff (m : Method) (depth : Nat) : ∃ e, Gives env (cutOff m depth) e :=
  ⟨_, (Gives.emit _).bind (.pure _)⟩

theorem exists_gives_lookup_bind {m : Method}
    {rest : Except Failure ReducedMethod → StateM Session Element}
    (h : ∃ e, Gives env (rest (Pool.resolve env.resolver env.ignored m).1) e) :
    ∃ e, Gives env (Session.lookup env m >>= rest) e := by
  obtain ⟨e, he⟩ := h
  exact ⟨e, (Gives.lookup m).bind he⟩

theorem exists_gives_follow (env : Setting) (remaining : Nat) (active : List Method) (c : Call) :
    ∃ e, Gives env (follow env remaining active c) e := by
  induction remaining generalizing active c with
  | zero =>
    rw [follow]
    apply exists_gives_lookup_bind
    cases (Pool.resolve env.resolver env.ignored c.method).1 with
    | error cause => exact ⟨_, .pure _⟩
    | ok callee => exact exists_gives_cutOff c.method active.length
  | succ remaining ih =>
    rw [follow]
    apply exists_gives_lookup_bind
    cases (Pool.resolve env.resolver env.ignored c.method).1 with
    | error cause => exact ⟨_, .pure _⟩
    | ok callee =>
      show ∃ e, Gives env (if c.method ∈ active then cutOff c.method active.length else _) e
      split
      · exact exists_gives_cutOff c.method active.length
      · choose ask hask using ih (c.method :: active)
        obtain ⟨e, he⟩ := exists_gives_returned env c.method
          (((Frame.init (Locals.ofCall c.method c.receiver c.args)).run ask 0 callee.code).map
            Frame.result)
        exact ⟨e, (gives_runBody hask callee.code _).bind he⟩

/-- The element that a call into the project is answered by. -/
def callResult (env : Setting) (remaining : Nat) (active : List Method) (c : Call) : Element :=
  ((follow env remaining active c).run .empty).1

theorem gives_follow (env : Setting) (remaining : Nat) (active : List Method) (c : Call) :
    Gives env (follow env remaining active c) (callResult env remaining active c) := by
  obtain ⟨e, h⟩ := exists_gives_follow env remaining active c
  rwa [h.eq_run_empty] at h

/-- A simulation gives what a run without a session computes. -/
theorem gives_simulate (env : Setting) (code : List Instruction) (locals : Locals) :
    Gives env (simulate env code locals)
      (((Frame.init locals).run (callResult env env.maxCallDepth []) 0 code).map Frame.result) :=
  gives_runBody (gives_follow env env.maxCallDepth []) code locals

theorem gives_reach (env : Setting) (code : List Instruction) (locals : Locals) (p : Nat) :
    Gives env (reach env code locals p)
      ((Frame.init locals).run (callResult env env.maxCallDepth []) 0 (code.take p)) :=
  gives_execute (gives_follow env env.maxCallDepth []) (code.take p) 0 (.init locals)

end Simulation

end ReturnFlow

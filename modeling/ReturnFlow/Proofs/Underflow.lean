import Mathlib.Algebra.Ring.Int.Defs
import Mathlib.Order.Bounds.Basic
import ReturnFlow.Proofs.Effect

/-!
When a simulation fails: exactly if one of its own instructions lacks operands.

The depth of the stack is followed twice, by the deltas of the instructions (`depthAfter`) and by
the frames of a run. `Simulation.execute_spec` says that both agree as long as the run lasts, and
that the run ends early at the first instruction that needs more than is there (`Lacking`), however
the calls are answered.
-/

namespace ReturnFlow

/-- The depth of the stack after a listing: the sum of the deltas since its last exit. -/
def depthAfter (code : List Instruction) : Int :=
  ((code.reverse.takeWhile fun i => !i.isExit).map Instruction.stackDelta).sum

theorem depthAfter_concat (code : List Instruction) (i : Instruction) :
    depthAfter (code ++ [i]) = if i.isExit then 0 else depthAfter code + i.stackDelta := by
  unfold depthAfter
  rw [List.reverse_concat, List.takeWhile_cons]
  cases i.isExit with
  | true => rfl
  | false => simp [Int.add_comm]

/-- Does the instruction at a position need more operands than the listing before it leaves? -/
def Lacking (code : List Instruction) (p : Nat) : Prop :=
  ∃ i, code[p]? = some i ∧ depthAfter (code.take p) < i.op.need

theorem lacking_append_cons {pre rest : List Instruction} {i : Instruction} :
    Lacking (pre ++ i :: rest) pre.length ↔ depthAfter pre < i.op.need := by
  simp [Lacking]

theorem not_lacking_of_length_le {code : List Instruction} {p : Nat} (h : code.length ≤ p) :
    ¬Lacking code p := by
  rintro ⟨i, hi, -⟩
  rw [List.getElem?_eq_none h] at hi
  cases hi

theorem lacking_take_iff {code : List Instruction} {p q : Nat} (h : q < p) :
    Lacking (code.take p) q ↔ Lacking code q := by
  unfold Lacking
  rw [List.getElem?_take, if_pos h, List.take_take, Nat.min_eq_left h.le]

namespace Simulation

variable (follow : Call → StateM Session Element)

theorem length_complete (s : Step) (σ : Session) :
    ((complete follow s).run σ).1.stack.length = s.depth := by
  cases s with
  | done f => rfl
  | ruled m f => rfl
  | calls targets type f => rfl

/-- One instruction of a run: it goes on with the depth that the delta says, or fails for want of
operands. -/
theorem execute_cons_cases (index : Nat) (f : Frame) (i : Instruction) (rest : List Instruction)
    (σ : Session) :
    (i.op.need ≤ f.stack.length ∧ ∃ g σ',
      (g.stack.length : Int) = (if i.isExit then 0 else (f.stack.length : Int) + i.stackDelta) ∧
      (execute follow index f (i :: rest)).run σ = (execute follow (index + 1) g rest).run σ') ∨
    (f.stack.length < i.op.need ∧
      ((execute follow index f (i :: rest)).run σ).1 = .error (.underflow index)) := by
  by_cases hneed : i.op.need ≤ f.stack.length
  · refine Or.inl ⟨hneed, ?_⟩
    let σ₁ : Session := { σ with log := σ.log.push (.step index i f.stack.length) }
    let r := (complete follow (f.effect index i.op)).run σ₁
    refine ⟨r.1, r.2, ?_, ?_⟩
    · rw [length_complete, Frame.depth_effect index hneed]
      rfl
    · rw [execute_cons_of_need_le rest hneed]
      rfl
  · refine Or.inr ⟨Nat.not_le.1 hneed, ?_⟩
    rw [execute_cons_of_lt_need rest (Nat.not_le.1 hneed)]
    rfl

/-- What is left of a listing either runs to its end, with the depth that the deltas say, or up to
the first instruction that lacks operands. -/
theorem execute_spec (pre rest : List Instruction) (f : Frame) (σ : Session)
    (hlen : (f.stack.length : Int) = depthAfter pre) :
    (∃ g, ((execute follow pre.length f rest).run σ).1 = .ok g ∧
      (g.stack.length : Int) = depthAfter (pre ++ rest) ∧
      ∀ q, pre.length ≤ q → ¬Lacking (pre ++ rest) q) ∨
    (∃ p, ((execute follow pre.length f rest).run σ).1 = .error (.underflow p) ∧
      Lacking (pre ++ rest) p ∧ ∀ q, pre.length ≤ q → q < p → ¬Lacking (pre ++ rest) q) := by
  induction rest generalizing pre f σ with
  | nil =>
    refine Or.inl ⟨f, rfl, by rwa [List.append_nil], fun q hq => ?_⟩
    exact not_lacking_of_length_le (by rwa [List.append_nil])
  | cons i rest ih =>
    rcases execute_cons_cases follow pre.length f i rest σ with
      ⟨hneed, g, σ', hg, hrun⟩ | ⟨hneed, herr⟩
    · have hhead : ¬Lacking (pre ++ i :: rest) pre.length := by
        rw [lacking_append_cons, ← hlen]; omega
      -- the instruction itself is not lacking, and the others are those of the rest
      have hfrom : ∀ q, pre.length ≤ q → (pre ++ [i]).length ≤ q ∨ q = pre.length := by
        intro q hq
        rw [List.length_append, List.length_singleton]
        omega
      have key := ih (pre ++ [i]) g σ' (by rw [hg, hlen, depthAfter_concat])
      rw [List.append_assoc, List.singleton_append] at key
      rw [hrun, show pre.length + 1 = (pre ++ [i]).length by simp]
      rcases key with ⟨g', hok, hdepth, hnone⟩ | ⟨p, herr, hlack, hnone⟩
      · refine Or.inl ⟨g', hok, hdepth, fun q hq => ?_⟩
        rcases hfrom q hq with hq | rfl
        · exact hnone q hq
        · exact hhead
      · refine Or.inr ⟨p, herr, hlack, fun q hq hqp => ?_⟩
        rcases hfrom q hq with hq | rfl
        · exact hnone q hq hqp
        · exact hhead
    · refine Or.inr ⟨pre.length, herr, ?_, fun q hq hqp => absurd hqp (Nat.not_lt.2 hq)⟩
      rw [lacking_append_cons, ← hlen]
      omega

theorem reach_spec (env : Setting) (code : List Instruction) (locals : Locals) (σ : Session)
    (p : Nat) :
    (∃ f, ((reach env code locals p).run σ).1 = .ok f ∧
      (f.stack.length : Int) = depthAfter (code.take p) ∧ ∀ q < p, ¬Lacking code q) ∨
    (∃ q < p, ((reach env code locals p).run σ).1 = .error (.underflow q) ∧
      IsLeast {q | Lacking code q} q) := by
  have key := execute_spec (Simulation.follow env env.maxCallDepth []) [] (code.take p)
    (.init locals) σ rfl
  rw [List.nil_append] at key
  rcases key with ⟨f, hok, hdepth, hnone⟩ | ⟨q, herr, hlack, hnone⟩
  · refine Or.inl ⟨f, hok, hdepth, fun q hq => ?_⟩
    rw [← lacking_take_iff hq]
    exact hnone q (Nat.zero_le q)
  · have hq : q < p := by
      by_contra hge
      refine not_lacking_of_length_le ?_ hlack
      exact (List.length_take_le p code).trans (Nat.not_lt.1 hge)
    refine Or.inr ⟨q, hq, herr, (lacking_take_iff hq).1 hlack, fun r hr => ?_⟩
    by_contra hlt
    have hrq : r < q := Nat.not_le.1 hlt
    exact hnone r (Nat.zero_le r) hrq ((lacking_take_iff (hrq.trans hq)).2 hr)

theorem simulate_eq_reach (env : Setting) (code : List Instruction) (locals : Locals)
    (σ : Session) :
    ((simulate env code locals).run σ).1 =
      ((reach env code locals code.length).run σ).1.map Frame.result := by
  rw [reach, List.take_length]
  rfl

end Simulation

open Simulation in
/-- **A simulation fails exactly for want of operands.** It fails if and only if some instruction
needs more operands than the deltas since the last exit leave, and then at the first such
instruction; and it comes to each instruction before that one in a frame whose stack has just that
depth. None of this depends on the variables, the project, the pool or the limit on calls. -/
theorem simulate_fails_iff_lacking (env : Setting) (code : List Instruction) (locals : Locals)
    (σ : Session) :
    ((∃ e, ((simulate env code locals).run σ).1 = .error e) ↔ ∃ p, Lacking code p) ∧
    (∀ e, ((simulate env code locals).run σ).1 = .error e →
      ∃ p, e = .underflow p ∧ IsLeast {p | Lacking code p} p) ∧
    (∀ p ≤ code.length, simulate env code locals = reach env code locals p >>= fun
      | .error cause => pure (.error cause)
      | .ok f => Except.map Frame.result <$>
          execute (follow env env.maxCallDepth []) p f (code.drop p)) ∧
    (∀ p, (∃ f, ((reach env code locals p).run σ).1 = .ok f) ↔ ∀ q < p, ¬Lacking code q) ∧
    (∀ p f, ((reach env code locals p).run σ).1 = .ok f →
      (f.stack.length : Int) = depthAfter (code.take p)) := by
  refine ⟨?_, ?_, fun p hp => simulate_eq_reach_bind env code locals hp, fun p => ?_,
    fun p f hf => ?_⟩
  · rw [simulate_eq_reach]
    rcases reach_spec env code locals σ code.length with ⟨f, hok, -, hnone⟩ | ⟨q, -, herr, hleast⟩
    · rw [hok]
      constructor
      · rintro ⟨e, he⟩; cases he
      · rintro ⟨p, hp⟩
        rcases Nat.lt_or_ge p code.length with hlt | hge
        · exact absurd hp (hnone p hlt)
        · exact absurd hp (not_lacking_of_length_le hge)
    · rw [herr]
      exact ⟨fun _ => ⟨q, hleast.1⟩, fun _ => ⟨_, rfl⟩⟩
  · intro e he
    rw [simulate_eq_reach] at he
    rcases reach_spec env code locals σ code.length with ⟨f, hok, -, -⟩ | ⟨q, -, herr, hleast⟩
    · rw [hok] at he; cases he
    · rw [herr] at he
      cases he
      exact ⟨q, rfl, hleast⟩
  · rcases reach_spec env code locals σ p with ⟨f, hok, -, hnone⟩ | ⟨q, hq, herr, hleast⟩
    · exact ⟨fun _ => hnone, fun _ => ⟨f, hok⟩⟩
    · refine ⟨?_, fun hnone => absurd hleast.1 (hnone q hq)⟩
      rintro ⟨f, hf⟩
      rw [herr] at hf
      cases hf
  · rcases reach_spec env code locals σ p with ⟨f', hok, hdepth, -⟩ | ⟨q, -, herr, -⟩
    · rw [hok] at hf
      cases hf
      exact hdepth
    · rw [herr] at hf
      cases hf

end ReturnFlow

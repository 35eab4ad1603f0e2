import ReturnFlow.Proofs.Effect

/-!
The log of a session is written and never read.

`SameUpToLog` compares two computations: from sessions with the same pool they give the same value
and leave the same pool, whatever was logged before and on the way. It goes through the parts of a
computation (`SameUpToLog.bind`, `SameUpToLog.mapM`), so executing instructions and following calls
are such that the log makes no difference to them (`Simulation.sameUpToLog_execute`,
`Simulation.sameUpToLog_follow`). An instruction that needs no answer from the project then gives
way to the frame that it leads to (`Simulation.execute_cons_of_settled`).
-/

namespace ReturnFlow

theorem Session.run_bind_of_fst {α β : Type} {x : StateM Session α} {f : α → StateM Session β}
    {σ : Session} {a : α} (h : (x.run σ).1 = a) : (x >>= f).run σ = (f a).run (x.run σ).2 := by
  rw [← h]
  rfl

/-- From sessions with the same pool, the computations give the same value and leave the same
pool. -/
def SameUpToLog {α : Type} (x y : StateM Session α) : Prop :=
  ∀ σ τ : Session, σ.pool = τ.pool →
    (x.run σ).1 = (y.run τ).1 ∧ (x.run σ).2.pool = (y.run τ).2.pool

namespace SameUpToLog

variable {α β : Type} {x y z : StateM Session α}

theorem symm (h : SameUpToLog x y) : SameUpToLog y x := by
  intro σ τ hpool
  obtain ⟨hval, hleft⟩ := h τ σ hpool.symm
  exact ⟨hval.symm, hleft.symm⟩

theorem trans (h : SameUpToLog x y) (h' : SameUpToLog y z) : SameUpToLog x z := by
  intro σ τ hpool
  obtain ⟨hval, hleft⟩ := h σ τ hpool
  obtain ⟨hval', hleft'⟩ := h' τ τ rfl
  exact ⟨hval.trans hval', hleft.trans hleft'⟩

theorem pure (a : α) : SameUpToLog (Pure.pure a) (Pure.pure a) := by
  intro σ τ hpool
  exact ⟨rfl, hpool⟩

theorem bind {f g : α → StateM Session β} (h : SameUpToLog x y)
    (hfg : ∀ a, SameUpToLog (f a) (g a)) : SameUpToLog (x >>= f) (y >>= g) := by
  intro σ τ hpool
  obtain ⟨hval, hleft⟩ := h σ τ hpool
  rw [Session.run_bind_of_fst hval.symm]
  exact hfg (x.run σ).1 (x.run σ).2 (y.run τ).2 hleft

theorem map (h : SameUpToLog x y) (f : α → β) : SameUpToLog (f <$> x) (f <$> y) := by
  rw [map_eq_pure_bind, map_eq_pure_bind]
  exact h.bind fun a => pure (f a)

theorem emit (e e' : Event) : SameUpToLog (Session.emit e) (Session.emit e') := by
  intro σ τ hpool
  exact ⟨rfl, hpool⟩

theorem emit_bind (e : Event) (h : SameUpToLog x y) :
    SameUpToLog (Session.emit e >>= fun _ => x) y := by
  intro σ τ hpool
  exact h _ τ hpool

theorem lookup (env : Setting) (m : Method) :
    SameUpToLog (Session.lookup env m) (Session.lookup env m) := by
  intro σ τ hpool
  show (σ.pool.lookup env.resolver env.ignored m).1 = (τ.pool.lookup env.resolver env.ignored m).1 ∧
    (σ.pool.lookup env.resolver env.ignored m).2.1 =
      (τ.pool.lookup env.resolver env.ignored m).2.1
  rw [hpool]
  exact ⟨rfl, rfl⟩

theorem mapM {f : β → StateM Session α} (h : ∀ b, SameUpToLog (f b) (f b)) (l : List β) :
    SameUpToLog (l.mapM f) (l.mapM f) := by
  induction l with
  | nil => exact pure []
  | cons b l ih =>
    rw [List.mapM_cons]
    exact (h b).bind fun a => ih.bind fun as => pure (a :: as)

/-- The computations give the same value in one session. -/
theorem fst_run (h : SameUpToLog x y) (σ : Session) : (x.run σ).1 = (y.run σ).1 :=
  (h σ σ rfl).1

/-- The computations leave the same pool in one session. -/
theorem pool_run (h : SameUpToLog x y) (σ : Session) : (x.run σ).2.pool = (y.run σ).2.pool :=
  (h σ σ rfl).2

/-- After a common start, it is enough to go on alike from the value that it gives. -/
theorem run_bind {f g : α → StateM Session β} {σ : Session}
    (h : SameUpToLog (f (x.run σ).1) (g (x.run σ).1)) :
    ((x >>= f).run σ).1 = ((x >>= g).run σ).1 ∧
      ((x >>= f).run σ).2.pool = ((x >>= g).run σ).2.pool :=
  h (x.run σ).2 (x.run σ).2 rfl

end SameUpToLog

/-- The frame of a step that waits for no answer. -/
def Step.settled? : Step → Option Frame
  | .done f | .ruled _ f => some f
  | .calls .. => none

namespace Simulation

open Session

section
variable {follow : Call → StateM Session Element}
  (hfollow : ∀ c, SameUpToLog (follow c) (follow c))
include hfollow

theorem sameUpToLog_complete (s : Step) :
    SameUpToLog (complete follow s) (complete follow s) := by
  cases s with
  | done f => exact .pure f
  | ruled m f => exact (SameUpToLog.emit _ _).bind fun _ => .pure f
  | calls targets type f =>
    refine (SameUpToLog.mapM (fun t => ?_) targets).bind fun answers => .pure _
    cases t with
    | known result => exact .pure result
    | project call => exact hfollow call

theorem sameUpToLog_execute (code : List Instruction) (index : Nat) (f : Frame) :
    SameUpToLog (execute follow index f code) (execute follow index f code) := by
  induction code generalizing index f with
  | nil => exact .pure _
  | cons i rest ih =>
    by_cases hneed : i.op.need ≤ f.stack.length
    · rw [execute_cons_of_need_le rest hneed]
      refine (SameUpToLog.emit _ _).bind fun _ => ?_
      exact (sameUpToLog_complete hfollow _).bind fun g => ih (index + 1) g
    · rw [execute_cons_of_lt_need rest (Nat.not_le.1 hneed)]
      exact (SameUpToLog.emit _ _).bind fun _ => .pure _

theorem sameUpToLog_runBody (code : List Instruction) (locals : Locals) :
    SameUpToLog (runBody follow code locals) (runBody follow code locals) :=
  (sameUpToLog_execute hfollow code 0 (.init locals)).bind fun r => .pure (r.map Frame.result)

/-- An instruction that waits for no answer gives way to the frame that it leads to. -/
theorem execute_cons_of_settled {index : Nat} {f g : Frame} {i : Instruction}
    (rest : List Instruction) (hneed : i.op.need ≤ f.stack.length)
    (hg : (f.effect index i.op).settled? = some g) :
    SameUpToLog (execute follow index f (i :: rest)) (execute follow (index + 1) g rest) := by
  have hrest := sameUpToLog_execute hfollow rest (index + 1) g
  rw [execute_cons_of_need_le rest hneed]
  refine .emit_bind _ ?_
  revert hg
  cases f.effect index i.op with
  | done g' => rintro ⟨⟩; exact hrest
  | ruled m g' => rintro ⟨⟩; exact .emit_bind _ hrest
  | calls targets type g' => rintro ⟨⟩

end

theorem sameUpToLog_returned (m : Method) (r : Except Failure Element) :
    SameUpToLog (returned m r) (returned m r) := by
  cases r with
  | ok e => exact .pure _
  | error cause => exact (SameUpToLog.emit _ _).bind fun _ => .pure _

theorem sameUpToLog_cutOff (m : Method) (depth : Nat) :
    SameUpToLog (cutOff m depth) (cutOff m depth) :=
  (SameUpToLog.emit _ _).bind fun _ => .pure _

/-- Following a call does not look at the log. -/
theorem sameUpToLog_follow (env : Setting) (remaining : Nat) (active : List Method) (c : Call) :
    SameUpToLog (follow env remaining active c) (follow env remaining active c) := by
  induction remaining generalizing active c with
  | zero =>
    rw [follow]
    refine (SameUpToLog.lookup env c.method).bind fun asked => ?_
    cases asked with
    | error cause => exact .pure _
    | ok callee => exact sameUpToLog_cutOff c.method active.length
  | succ remaining ih =>
    rw [follow]
    refine (SameUpToLog.lookup env c.method).bind fun asked => ?_
    cases asked with
    | error cause => exact .pure _
    | ok callee =>
      by_cases hactive : c.method ∈ active
      · simp only [if_pos hactive]
        exact sameUpToLog_cutOff c.method active.length
      · simp only [if_neg hactive]
        refine (sameUpToLog_runBody (ih (c.method :: active)) callee.code _).bind fun r => ?_
        exact sameUpToLog_returned c.method r

end Simulation

end ReturnFlow

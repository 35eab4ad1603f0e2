import Mathlib.Order.Bounds.Basic
import ReturnFlow.Proofs.KeptDepth

/-!
The table of depths in closed form.

One pass over the code fills the table, carries the depth along and stops at the first instruction
that it cannot take. Here the table is described position by position, by the sum of the deltas
since the last exit (`depthAfter`).

* `Refuses`: the operations that stop the pass at a depth, each with its error. This is when a step
  fails (`StackDepths.step_eq_error_iff`).
* `StackDepths.computeFrom_eq_error_iff`: the pass stops at the first position where the operation
  is refused at the depth that the deltas leave, and nowhere else.
* `StackDepths.entry_of_compute`: the entries of a table that was filled are capped sums.
-/

namespace ReturnFlow

/-- The operation cannot be taken at the depth: the error says why. -/
inductive Refuses (index : Nat) (depth : Int) : Operation → FlowError → Prop
  | unsupported {opcode : String} (hopcode : opcode ∈ ["JSR", "JSR_W", "RET"]) :
      Refuses index depth (.other opcode) (.unsupported index opcode)
  | emptyThrow (hdepth : depth = 0) : Refuses index depth .throw (.emptyThrow index)
  | underflow {op : Operation} (hexit : op.isExit = false) (hdepth : depth + op.stackDelta < 0) :
      Refuses index depth op (.underflow index depth.toNat op.opcode op.stackDelta)

/-- The instruction at a position cannot be taken at the depth that the deltas before it leave. -/
def Refused (code : List Instruction) (p : Nat) (e : FlowError) : Prop :=
  ∃ i, code[p]? = some i ∧ Refuses p (depthAfter (code.take p)) i.op e

theorem not_refused_of_length_le {code : List Instruction} {p : Nat} (h : code.length ≤ p)
    (e : FlowError) : ¬Refused code p e := by
  rintro ⟨i, hi, -⟩
  rw [List.getElem?_eq_none h] at hi
  cases hi

namespace StackDepths

/-! ## Steps -/

theorem isUnsupported_iff (opcode : String) :
    isUnsupported opcode = true ↔ opcode ∈ ["JSR", "JSR_W", "RET"] := by
  simp [isUnsupported, or_assoc]

/-- A step fails exactly if the operation is refused. -/
theorem step_eq_error_iff {index depth : Nat} {op : Operation} {e : FlowError} :
    step index depth op = .error e ↔ Refuses index depth op e := by
  constructor
  · intro h
    cases op with
    | «return» => cases h
    | throw =>
      simp only [step] at h
      split at h
      · cases h
        exact .emptyThrow (by omega)
      · cases h
    | other opcode =>
      simp only [step] at h
      split at h
      · next hopcode =>
        cases h
        exact .unsupported ((isUnsupported_iff opcode).1 hopcode)
      · cases h
    | _ =>
      simp only [step] at h
      split at h
      · next hlt =>
        cases h
        exact .underflow rfl hlt
      · cases h
  · intro h
    cases h with
    | unsupported hopcode => simp only [step, (isUnsupported_iff _).2 hopcode, if_true]
    | emptyThrow hdepth => simp only [step, Int.natCast_eq_zero.1 hdepth, if_true]
    | underflow hexit hlt =>
      cases op with
      | «return» | throw => cases hexit
      | other opcode =>
        simp only [Operation.stackDelta] at hlt
        omega
      | _ => simp only [step, if_pos hlt, Int.toNat_natCast]

/-! ## The pass -/

theorem computeFrom_cons_eq_error {index depth : Nat} {i : Instruction} {rest : List Instruction}
    {e : FlowError} :
    computeFrom index depth (i :: rest) = .error e ↔
      step index depth i.op = .error e ∨
        ∃ next, step index depth i.op = .ok next ∧
          computeFrom (index + 1) next rest = .error e := by
  simp only [computeFrom]
  cases step index depth i.op with
  | error cause => simp
  | ok next =>
    cases hrest : computeFrom (index + 1) next rest <;> simp [Except.map, hrest]

/-- The next instruction of a listing is refused exactly if the step there fails. -/
theorem refused_append_cons {pre rest : List Instruction} {i : Instruction} {e : FlowError}
    {depth : Nat} (hdepth : (depth : Int) = depthAfter pre) :
    Refused (pre ++ i :: rest) pre.length e ↔ step pre.length depth i.op = .error e := by
  rw [step_eq_error_iff, hdepth]
  simp [Refused]

/-- The pass over what is left of a listing stops at the first operation that is refused. -/
theorem computeFrom_eq_error_iff (pre rest : List Instruction) {depth : Nat}
    (hdepth : (depth : Int) = depthAfter pre) {e : FlowError} :
    computeFrom pre.length depth rest = .error e ↔
      ∃ p, pre.length ≤ p ∧ Refused (pre ++ rest) p e ∧
        ∀ q, pre.length ≤ q → q < p → ∀ e', ¬Refused (pre ++ rest) q e' := by
  induction rest generalizing pre depth with
  | nil =>
    constructor
    · intro h
      cases h
    · rintro ⟨p, hp, hrefused, -⟩
      exact absurd hrefused (not_refused_of_length_le (by simpa using hp) e)
  | cons i rest ih =>
    -- once the step is taken, the rest is the rest of the same listing
    have hrest : ∀ next, step pre.length depth i.op = .ok next →
        (computeFrom (pre.length + 1) next rest = .error e ↔
          ∃ p, pre.length + 1 ≤ p ∧ Refused (pre ++ i :: rest) p e ∧
            ∀ q, pre.length + 1 ≤ q → q < p → ∀ e', ¬Refused (pre ++ i :: rest) q e') := by
      intro next hstep
      have hnext : (next : Int) = depthAfter (pre ++ [i]) := by
        rw [depthAfter_concat, ← hdepth]
        exact eq_of_step hstep
      have := ih (pre ++ [i]) hnext
      rwa [List.append_assoc, List.singleton_append, List.length_append, List.length_singleton]
        at this
    rw [computeFrom_cons_eq_error]
    constructor
    · rintro (hstep | ⟨next, hstep, herror⟩)
      · refine ⟨pre.length, le_rfl, (refused_append_cons hdepth).2 hstep, fun q hq hlt => ?_⟩
        omega
      · obtain ⟨p, hp, hrefused, hfirst⟩ := (hrest next hstep).1 herror
        refine ⟨p, by omega, hrefused, fun q hq hlt e' => ?_⟩
        rcases Nat.lt_or_eq_of_le hq with hq | rfl
        · exact hfirst q hq hlt e'
        · rw [refused_append_cons hdepth, hstep]
          nofun
    · rintro ⟨p, hp, hrefused, hfirst⟩
      rcases Nat.lt_or_eq_of_le hp with hlt | rfl
      · cases hstep : step pre.length depth i.op with
        | error cause =>
          exact absurd ((refused_append_cons hdepth).2 hstep) (hfirst _ le_rfl hlt cause)
        | ok next =>
          refine Or.inr ⟨next, rfl, (hrest next hstep).2 ⟨p, hlt, hrefused, ?_⟩⟩
          intro q hq
          exact hfirst q (by omega)
      · exact Or.inl ((refused_append_cons hdepth).1 hrefused)

theorem compute_eq_error_iff {code : List Instruction} {e : FlowError} :
    compute code = .error e ↔
      ∃ p, IsLeast {p | ∃ e, Refused code p e} p ∧ Refused code p e := by
  have hpass : compute code = .error e ↔ computeFrom 0 0 code = .error e := by
    unfold compute
    cases computeFrom 0 0 code <;> simp [Except.map]
  rw [hpass]
  refine (computeFrom_eq_error_iff [] code rfl).trans (exists_congr fun p => ?_)
  constructor
  · rintro ⟨-, hrefused, hfirst⟩
    refine ⟨⟨⟨e, hrefused⟩, ?_⟩, hrefused⟩
    rintro q ⟨e', hq⟩
    by_contra hlt
    exact hfirst q (Nat.zero_le q) (Nat.not_le.1 hlt) e' hq
  · rintro ⟨⟨-, hleast⟩, hrefused⟩
    refine ⟨Nat.zero_le p, hrefused, fun q _ hlt e' hq => ?_⟩
    exact absurd (hleast ⟨e', hq⟩) (Nat.not_le.2 hlt)

theorem compute_eq_ok_iff {code : List Instruction} :
    (∃ d, compute code = .ok d) ↔ ∀ p e, ¬Refused code p e := by
  constructor
  · rintro ⟨d, hd⟩ p e hrefused
    -- a refused position has a least one below it, at which the pass would have stopped
    classical
    have hex : ∃ p, ∃ e, Refused code p e := ⟨p, e, hrefused⟩
    obtain ⟨e', hfirst⟩ := Nat.find_spec hex
    have herror : compute code = .error e' :=
      compute_eq_error_iff.2 ⟨Nat.find hex, ⟨⟨e', hfirst⟩, fun q hq => Nat.find_min' hex hq⟩, hfirst⟩
    rw [hd] at herror
    cases herror
  · intro hnone
    cases hcompute : compute code with
    | ok d => exact ⟨d, rfl⟩
    | error e =>
      obtain ⟨p, -, hrefused⟩ := compute_eq_error_iff.1 hcompute
      exact absurd hrefused (hnone p e)

/-! ## The entries -/

theorem cap_eq_min {depth : Nat} : (cap depth : Int) = min (depth : Int) (2 ^ 32 - 1) := by
  simp [cap]

/-- The entry of an instruction is made of the sum before it and the sum with it. -/
theorem entry_of_compute {code : List Instruction} {d : StackDepths} (h : compute code = .ok d)
    {p : Nat} {i : Instruction} (hi : code[p]? = some i) :
    (d.before p : Int) = min (depthAfter (code.take p)) (2 ^ 32 - 1) ∧
    (d.after p : Int) =
      if i.isExit then 0 else min (depthAfter (code.take p) + i.stackDelta) (2 ^ 32 - 1) := by
  obtain ⟨depth, next, hdepth, hstep, hentry⟩ := exists_step h hi
  have hbefore : d.before p = cap depth := by simp [before, hentry]
  have hafter : d.after p = cap next := by simp [after, hentry]
  have hnext : (next : Int) = if i.isExit then 0 else (depth : Int) + i.stackDelta :=
    eq_of_step hstep
  rw [hbefore, hafter, cap_eq_min, cap_eq_min, ← hdepth]
  refine ⟨rfl, ?_⟩
  by_cases hexit : i.isExit = true
  · rw [hnext, if_pos hexit, if_pos hexit]
    rfl
  · rw [hnext, if_neg hexit, if_neg hexit]

end StackDepths

open StackDepths in
/-- **The table of depths in closed form.** It is filled if and only if no instruction is refused at
the sum of the deltas since the last exit before it: there is no subroutine instruction, no throw at
0, and no instruction but an exit whose delta takes the sum below 0. Then it has an entry for each
instruction, made of the sums before and after it, kept in 32 bits, with 0 after an exit. Otherwise
the error is that of the first instruction that is refused. -/
theorem compute_eq_sums (code : List Instruction) :
    ((∃ d, compute code = .ok d) ↔ ∀ p e, ¬Refused code p e) ∧
    (∀ d, compute code = .ok d → d.size = code.length ∧ ∀ p i, code[p]? = some i →
      (d.before p : Int) = min (depthAfter (code.take p)) (2 ^ 32 - 1) ∧
      (d.after p : Int) =
        if i.isExit then 0 else min (depthAfter (code.take p) + i.stackDelta) (2 ^ 32 - 1)) ∧
    ∀ e, compute code = .error e ↔
      ∃ p, IsLeast {p | ∃ e, Refused code p e} p ∧ Refused code p e := by
  refine ⟨compute_eq_ok_iff, fun d hd => ⟨size_of_compute hd, fun p i hi => ?_⟩, fun e => ?_⟩
  · exact entry_of_compute hd hi
  · exact compute_eq_error_iff

/-- After an exit the sum starts afresh, and of two instructions at fault the first one is named. -/
example :
    StackDepths.compute [⟨.push (.int 1) "I", none⟩, ⟨.push (.int 2) "I", none⟩, ⟨.return, none⟩,
      ⟨.store 1 "I" none, none⟩, ⟨.other "JSR", none⟩] =
    .error (.underflow 3 0 "STORE" (-1)) := by
  decide

end ReturnFlow

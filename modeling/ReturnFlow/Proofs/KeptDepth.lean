import ReturnFlow.Analysis
import ReturnFlow.Proofs.Preservation
import ReturnFlow.Proofs.Underflow

/-!
Operands in a body and in its slice.

* `StackDepths.computeFrom_drop`: the table of an accepted body follows the sums of the deltas.
* `Body.depthAfter_kept`: a kept instruction is entered at the same depth in the slice as in the
  body, so that it lacks operands in both or in neither (`Body.lacking_kept_rank_iff`).
* `StackDepths.leavesResults_of_lacking`: in an accepted body, only an instruction that leaves
  results can lack operands, since the table counts what an instruction takes and leaves together.
* `Analysis.exists_simulate`: the result of an analysis is that of a simulation of the slice.
* `Analysis.run_spec`: the analysis of an accepted body fails only where a kept instruction lacks
  operands, and names the place of the first such instruction in the slice.
-/

namespace ReturnFlow

/-! ## Lacking operands -/

instance (code : List Instruction) (p : Nat) : Decidable (Lacking code p) :=
  match h : code[p]? with
  | none => .isFalse fun ⟨i, hi, _⟩ => by rw [h] at hi; cases hi
  | some i => decidable_of_iff (depthAfter (code.take p) < i.op.need)
      ⟨fun hlt => ⟨i, h, hlt⟩, fun ⟨_, hi, hlt⟩ => by rw [h] at hi; cases hi; exact hlt⟩

theorem lacking_iff_of_getElem? {code : List Instruction} {p : Nat} {i : Instruction}
    (hi : code[p]? = some i) : Lacking code p ↔ depthAfter (code.take p) < i.op.need := by
  simp [Lacking, hi]

/-- The operations that take or read operands and leave results of them. -/
inductive Operation.LeavesResults : Operation → Prop
  | dup : LeavesResults .dup
  | getField (owner name type : String) : LeavesResults (.getField owner name type)
  | invoke {m : Method} (hoperands : 0 < m.operands) (hvalue : m.returnsValue = true) :
      LeavesResults (.invoke m)
  | invokeDynamic (handle : Method) {site : Method} (hargs : 0 < site.arity) :
      LeavesResults (.invokeDynamic handle site)
  | resize (opcode : String) {pushes pops : Nat} (hpops : 0 < pops) (hpushes : 0 < pushes) :
      LeavesResults (.resize opcode pushes pops)

/-- The net change of the depth tells these operations from the others that need operands. -/
theorem Operation.leavesResults_iff {op : Operation} :
    op.LeavesResults ↔ 0 < op.need ∧ 0 < op.stackDelta + op.need := by
  have hinvoke (m : Method) : (invoke m).need = m.operands := rfl
  constructor
  · intro h
    cases h with
    | dup => decide
    | getField owner name type => exact ⟨Nat.one_pos, Int.one_pos⟩
    | @invoke m hoperands hvalue =>
      simp [hinvoke, stackDelta, Method.stackDelta, hvalue, hoperands]
    | invokeDynamic handle hargs => simp [need, stackDelta, hargs]
    | resize opcode hpops hpushes => simp [need, stackDelta, hpops, hpushes]
  · rintro ⟨hneed, hdelta⟩
    cases op with
    | dup => exact .dup
    | getField owner name type => exact .getField owner name type
    | invoke m =>
      refine .invoke hneed ?_
      by_contra hvoid
      simp [hinvoke, stackDelta, Method.stackDelta, hvoid] at hdelta
    | invokeDynamic handle site => exact .invokeDynamic handle hneed
    | resize opcode pushes pops =>
      refine .resize opcode hneed ?_
      simp only [need, stackDelta] at hdelta
      omega
    | store slot => simp [need, stackDelta] at hdelta
    | throw => simp [need, stackDelta] at hdelta
    | _ => simp [need] at hneed

/-! ## The table of an accepted body -/

theorem depthAfter_take_succ {code : List Instruction} {p : Nat} {i : Instruction}
    (hi : code[p]? = some i) :
    depthAfter (code.take (p + 1)) =
      if i.isExit then 0 else depthAfter (code.take p) + i.stackDelta := by
  rw [List.take_add_one, hi, Option.toList_some, depthAfter_concat]

namespace StackDepths

/-- The table goes on from a position with the depth that the deltas before it leave. -/
theorem computeFrom_drop {code : List Instruction} {d : StackDepths} (h : compute code = .ok d)
    {p : Nat} (hp : p ≤ code.length) :
    ∃ depth : Nat, (depth : Int) = depthAfter (code.take p) ∧
      computeFrom p depth (code.drop p) = .ok (d.entries.drop p) := by
  induction p with
  | zero => exact ⟨0, rfl, compute_eq_ok.1 h⟩
  | succ p ih =>
    obtain ⟨i, hi⟩ : ∃ i, code[p]? = some i := ⟨_, List.getElem?_eq_getElem hp⟩
    obtain ⟨depth, hdepth, hrest⟩ := ih (Nat.le_of_succ_le hp)
    rw [List.drop_eq_getElem?_toList_append, hi, Option.toList_some, List.singleton_append] at hrest
    obtain ⟨next, es, hstep, hes, hsplit⟩ := computeFrom_cons_eq_ok.1 hrest
    refine ⟨next, ?_, ?_⟩
    · rw [depthAfter_take_succ hi, ← hdepth]
      exact eq_of_step hstep
    · rw [hes, ← List.tail_drop, hsplit]
      rfl

section
variable {code : List Instruction} {d : StackDepths} (h : compute code = .ok d) {p : Nat}
  {i : Instruction} (hi : code[p]? = some i)
include h hi

/-- At a position, the table takes a step from the depth that the deltas before it leave. -/
theorem exists_step :
    ∃ depth next : Nat, (depth : Int) = depthAfter (code.take p) ∧ step p depth i.op = .ok next ∧
      d.get? p = some ⟨cap depth, cap next⟩ := by
  have hp : p < code.length := (List.getElem?_eq_some_iff.1 hi).1
  obtain ⟨depth, hdepth, hrest⟩ := computeFrom_drop h hp.le
  rw [List.drop_eq_getElem?_toList_append, hi, Option.toList_some, List.singleton_append] at hrest
  obtain ⟨next, es, hstep, -, hsplit⟩ := computeFrom_cons_eq_ok.1 hrest
  refine ⟨depth, next, hdepth, hstep, ?_⟩
  rw [get?, ← List.head?_drop, hsplit]
  rfl

theorem before_eq_zero_iff_depthAfter : d.before p = 0 ↔ depthAfter (code.take p) = 0 := by
  obtain ⟨depth, next, hdepth, -, hentry⟩ := exists_step h hi
  have hbefore : d.before p = cap depth := by simp [before, hentry]
  rw [hbefore, cap_eq_zero_iff, ← hdepth, Int.natCast_eq_zero]

/-- In an accepted body, an instruction that lacks operands leaves more than nothing in their
place. -/
theorem delta_of_lacking (hlack : Lacking code p) : 0 < i.stackDelta + i.op.need := by
  obtain ⟨depth, next, hdepth, hstep, -⟩ := exists_step h hi
  rw [lacking_iff_of_getElem? hi, ← hdepth] at hlack
  have hnext := eq_of_step hstep
  by_cases hexit : i.op.isExit = true
  · -- a return needs nothing, and a throw from an empty stack is refused
    cases hop : i.op with
    | «return» =>
      simp only [hop, Operation.need] at hlack
      omega
    | throw =>
      have hzero : depth = 0 := by simpa [hop, Operation.need] using hlack
      simp [hop, step, hzero] at hstep
    | _ => simp [hop, Operation.isExit] at hexit
  · rw [if_neg hexit] at hnext
    have hdelta : i.stackDelta = i.op.stackDelta := rfl
    omega

/-- In an accepted body, only an instruction that leaves results of its operands can lack them. -/
theorem leavesResults_of_lacking (hlack : Lacking code p) : i.op.LeavesResults := by
  refine Operation.leavesResults_iff.2 ⟨?_, delta_of_lacking h hi hlack⟩
  obtain ⟨depth, -, hdepth, -, -⟩ := exists_step h hi
  rw [lacking_iff_of_getElem? hi, ← hdepth] at hlack
  omega

end

end StackDepths

/-! ## The slice -/

namespace Body

variable {b : Body} (hb : StackDepths.compute b.code = .ok b.depths)
include hb

/-- A kept instruction is entered at the same depth in the slice as in the body, and between kept
statements the slice has an empty stack. -/
theorem depthAfter_kept {p : Nat} {i : Instruction} (hi : b.code[p]? = some i) :
    depthAfter (b.slice.kept (b.code.take p)) =
      if b.slice.covers p = true then depthAfter (b.code.take p) else 0 := by
  induction p generalizing i with
  | zero => simp [Slice.kept, depthAfter]
  | succ p ih =>
    have hp : p + 1 < b.code.length := (List.getElem?_eq_some_iff.1 hi).1
    obtain ⟨j, hj⟩ : ∃ j, b.code[p]? = some j := ⟨_, List.getElem?_eq_getElem (by omega)⟩
    have hbound : b.slice.covers p ≠ b.slice.covers (p + 1) →
        depthAfter (b.code.take (p + 1)) = 0 := fun hne =>
      (StackDepths.before_eq_zero_iff_depthAfter hb hi).1 (before_eq_zero_of_covers_ne hb hp hne)
    rw [kept_take_succ b.slice hj]
    cases hcov : b.slice.covers p with
    | true =>
      have hsame : depthAfter (b.slice.kept (b.code.take p) ++ [j]) =
          depthAfter (b.code.take (p + 1)) := by
        rw [depthAfter_concat, depthAfter_take_succ hj, ih hj, hcov, if_pos rfl]
      rw [if_pos rfl, hsame]
      cases hcov' : b.slice.covers (p + 1) with
      | true => rfl
      | false => exact hbound (by rw [hcov, hcov']; simp)
    | false =>
      have hzero := ih hj
      rw [hcov] at hzero
      simp only [Bool.false_eq_true, if_false, List.append_nil] at hzero ⊢
      rw [hzero]
      cases hcov' : b.slice.covers (p + 1) with
      | true => exact (hbound (by rw [hcov, hcov']; simp)).symm
      | false => rfl

/-- A kept instruction lacks operands in the slice exactly if it does in the body. -/
theorem lacking_kept_rank_iff {p : Nat} (hp : b.slice.covers p = true) :
    Lacking (b.slice.kept b.code) (b.slice.rank p) ↔ Lacking b.code p := by
  have hlt : p < b.code.length := (b.inv_slice hb).covers_lt hb hp
  obtain ⟨i, hi⟩ : ∃ i, b.code[p]? = some i := ⟨_, List.getElem?_eq_getElem hlt⟩
  have hkept : (b.slice.kept b.code)[b.slice.rank p]? = some i :=
    (Slice.getElem?_select b.code hp).trans hi
  have htake : b.slice.kept (b.code.take p) = (b.slice.kept b.code).take (b.slice.rank p) :=
    Slice.select_take hlt.le
  have hdepth := depthAfter_kept hb hi
  rw [if_pos hp, htake] at hdepth
  rw [lacking_iff_of_getElem? hkept, lacking_iff_of_getElem? hi, hdepth]

/-- What lacks operands in the slice is a kept instruction that does in the body. -/
theorem exists_of_lacking_kept {q : Nat} (h : Lacking (b.slice.kept b.code) q) :
    ∃ p, b.slice.covers p = true ∧ b.slice.rank p = q ∧ Lacking b.code p := by
  have hq : q < b.slice.rank b.code.length := by
    by_contra hge
    refine not_lacking_of_length_le ?_ h
    exact (b.slice.length_select b.code).trans_le (Nat.not_lt.1 hge)
  obtain ⟨p, -, hp, rfl⟩ := Slice.exists_rank_eq hq
  exact ⟨p, hp, rfl, (lacking_kept_rank_iff hb hp).1 h⟩

/-- The first instruction that lacks operands in the slice is the first kept one that does in the
body. -/
theorem isLeast_of_lacking_kept {q : Nat} (h : IsLeast {q | Lacking (b.slice.kept b.code) q} q) :
    ∃ p, b.slice.rank p = q ∧ IsLeast {p | b.slice.covers p = true ∧ Lacking b.code p} p := by
  obtain ⟨p, hp, rfl, hlack⟩ := exists_of_lacking_kept hb h.1
  refine ⟨p, rfl, ⟨hp, hlack⟩, fun r hr => ?_⟩
  exact Slice.le_of_rank_le hr.1 (h.2 ((lacking_kept_rank_iff hb hr.1).2 hr.2))

end Body

/-! ## Analyses -/

theorem reduce_eq_ok_iff {ignored : List String} {code : List Instruction} {r : Reduction} :
    reduce ignored code = .ok r ↔ ∃ depths, StackDepths.compute code = .ok depths ∧
      r = ⟨Body.slice ⟨code, depths, ignored⟩, code.length,
        (Body.slice ⟨code, depths, ignored⟩).kept code⟩ := by
  unfold reduce
  cases StackDepths.compute code with
  | error e => simp [Except.map]
  | ok depths => simp [Except.map, eq_comm]

/-- A simulation has a result, or names the first instruction that lacks operands. -/
theorem Simulation.simulate_cases (env : Setting) (code : List Instruction) (locals : Locals)
    (σ : Session) :
    (∃ e, ((simulate env code locals).run σ).1 = .ok e ∧ ¬∃ p, Lacking code p) ∨
      ∃ p, ((simulate env code locals).run σ).1 = .error (.underflow p) ∧
        IsLeast {p | Lacking code p} p := by
  rw [simulate_eq_reach]
  rcases reach_spec env code locals σ code.length with ⟨f, hok, -, hnone⟩ | ⟨q, -, herr, hleast⟩
  · rw [hok]
    refine Or.inl ⟨f.result, rfl, ?_⟩
    rintro ⟨p, hp⟩
    rcases Nat.lt_or_ge p code.length with hlt | hge
    · exact hnone p hlt hp
    · exact not_lacking_of_length_le hge hp
  · rw [herr]
    exact Or.inr ⟨q, rfl, hleast⟩

theorem fst_simulateMethod (env : Setting) (code : List Instruction) (locals : Locals)
    (σ : Session) :
    ((simulateMethod env code locals).run σ).1 = ((simulate env code locals).run σ).1 := by
  have hlogged : ∀ r τ, (simulate env code locals).run σ = (r, τ) →
      ((simulateMethod env code locals).run σ).1 = r := by
    intro r τ hrun
    rw [simulateMethod, StateT.run_bind, hrun]
    cases r <;> rfl
  exact hlogged _ _ rfl

theorem Session.pool_forM_emit (events : List Event) (σ : Session) :
    ((events.forM emit).run σ).2.pool = σ.pool := by
  induction events generalizing σ with
  | nil => rfl
  | cons e events ih => exact ih { σ with log := σ.log.push e }

/-- An analysis answers for its method what the simulation of the reduced body answers, with the
methods in the pool that were there before. -/
theorem Analysis.exists_run_eq {env : Setting} {body : MethodBody} {r : Reduction}
    (h : reduce env.ignored body.code = .ok r) (σ : Session) :
    ∃ τ : Session, τ.pool = σ.pool ∧ ((run env body).run σ).1 =
      match ((simulate env r.code (.ofUnknown body.method)).run τ).1 with
      | .error cause => .error ⟨body.method, cause⟩
      | .ok e => .ok ⟨body.method, e⟩ := by
  let τ := ((do r.events.forM Session.emit; Session.emit (.methodReduced r.size r.code.length) :
    StateM Session Unit).run σ).2
  refine ⟨τ, Session.pool_forM_emit r.events σ, ?_⟩
  have hbind : (run env body).run σ =
      (match ((simulateMethod env r.code (.ofUnknown body.method)).run τ).1 with
        | .error cause => pure (.error ⟨body.method, cause⟩)
        | .ok e => pure (.ok ⟨body.method, e⟩) :
          StateM Session (Except AnalysisError Analysis)).run
        ((simulateMethod env r.code (.ofUnknown body.method)).run τ).2 := by
    unfold run
    rw [h]
    rfl
  rw [hbind, fst_simulateMethod]
  cases ((simulate env r.code (.ofUnknown body.method)).run τ).1 <;> rfl

/-- The result of an analysis is that of a simulation of the reduced body. -/
theorem Analysis.exists_simulate {env : Setting} {body : MethodBody} {σ : Session} {a : Analysis}
    (ha : ((run env body).run σ).1 = .ok a) :
    ∃ (r : Reduction) (τ : Session), reduce env.ignored body.code = .ok r ∧ τ.pool = σ.pool ∧
      ((simulate env r.code (.ofUnknown body.method)).run τ).1 = .ok a.result := by
  cases hreduce : reduce env.ignored body.code with
  | error e =>
    have herror : ((run env body).run σ).1 = .error ⟨body.method, .flow e⟩ := by
      unfold run
      rw [hreduce]
      rfl
    rw [herror] at ha
    cases ha
  | ok r =>
    obtain ⟨τ, hpool, hrun⟩ := exists_run_eq hreduce σ
    refine ⟨r, τ, rfl, hpool, ?_⟩
    rw [hrun] at ha
    cases hsim : ((simulate env r.code (.ofUnknown body.method)).run τ).1 with
    | error cause =>
      rw [hsim] at ha
      cases ha
    | ok e =>
      rw [hsim] at ha
      cases ha
      rfl

/-- In an accepted body, an analysis has a result, or the simulation reports the first kept
instruction that lacks operands, by its place in the slice. -/
theorem Analysis.run_spec (env : Setting) {body : MethodBody} {depths : StackDepths}
    (h : StackDepths.compute body.code = .ok depths) (σ : Session) :
    let slice := Body.slice ⟨body.code, depths, env.ignored⟩
    (∃ a, ((run env body).run σ).1 = .ok a ∧
        ¬∃ p, slice.covers p = true ∧ Lacking body.code p) ∨
      ∃ p, ((run env body).run σ).1 = .error ⟨body.method, .underflow (slice.rank p)⟩ ∧
        IsLeast {p | slice.covers p = true ∧ Lacking body.code p} p := by
  intro slice
  have hreduce : reduce env.ignored body.code =
      .ok ⟨slice, body.code.length, slice.kept body.code⟩ :=
    reduce_eq_ok_iff.2 ⟨depths, h, rfl⟩
  obtain ⟨τ, -, hrun⟩ := exists_run_eq hreduce σ
  rw [hrun]
  rcases Simulation.simulate_cases env (slice.kept body.code) (.ofUnknown body.method) τ with
    ⟨e, hok, hnone⟩ | ⟨q, herr, hleast⟩
  · rw [hok]
    refine Or.inl ⟨_, rfl, ?_⟩
    rintro ⟨p, hp, hlack⟩
    exact hnone ⟨_, (Body.lacking_kept_rank_iff h hp).2 hlack⟩
  · obtain ⟨p, rfl, hp⟩ := Body.isLeast_of_lacking_kept h hleast
    rw [herr]
    exact Or.inr ⟨p, rfl, hp⟩

/-- In an accepted body, an analysis has a result, or an instruction that is kept lacks operands and
the simulation reports it. -/
theorem Analysis.run_cases (env : Setting) {body : MethodBody} {depths : StackDepths}
    (h : StackDepths.compute body.code = .ok depths) (σ : Session) :
    let slice := Body.slice ⟨body.code, depths, env.ignored⟩
    (∃ a, ((run env body).run σ).1 = .ok a ∧
        ¬∃ p, slice.covers p = true ∧ Lacking body.code p) ∨
      ∃ index, ((run env body).run σ).1 = .error ⟨body.method, .underflow index⟩ ∧
        ∃ p, slice.covers p = true ∧ Lacking body.code p := by
  intro slice
  refine (run_spec env h σ).imp_right ?_
  rintro ⟨p, herr, hp⟩
  exact ⟨slice.rank p, herr, p, hp.1⟩

/-- If the depth check accepts a body, its analysis has a result exactly if each instruction that is
kept finds the operands it needs; no other error is possible then, and only an instruction that also
leaves results can lack operands: a copy of an operand, a field read, a call that takes operands and
returns a value, the creation of a handle that captures some, or another operation that pushes. -/
theorem analyze_ok_iff (env : Setting) (body : MethodBody) (depths : StackDepths)
    (h : StackDepths.compute body.code = .ok depths) :
    let kept := (Body.slice ⟨body.code, depths, env.ignored⟩).positions body.code.length
    ((∃ a, (analyze env body).1 = .ok a) ↔ ∀ p ∈ kept, ¬Lacking body.code p) ∧
    (∀ e, (analyze env body).1 = .error e → ∃ index, e = ⟨body.method, .underflow index⟩) ∧
    ∀ p i, body.code[p]? = some i → Lacking body.code p → i.op.LeavesResults := by
  intro kept
  have hmem (p : Nat) : p ∈ kept ↔
      (Body.slice ⟨body.code, depths, env.ignored⟩).covers p = true := by
    rw [Slice.mem_positions]
    exact ⟨And.right, fun hp => ⟨(Body.inv_slice h).covers_lt h hp, hp⟩⟩
  refine ⟨?_, ?_, fun p i hi => StackDepths.leavesResults_of_lacking h hi⟩
  all_goals
    rcases Analysis.run_cases env h .empty with ⟨a, hok, hnone⟩ | ⟨q, herr, hsome⟩
  · exact ⟨fun _ p hp hl => hnone ⟨p, (hmem p).1 hp, hl⟩, fun _ => ⟨a, hok⟩⟩
  · refine ⟨fun ⟨a, ha⟩ => ?_, fun hall => ?_⟩
    · cases ha.symm.trans herr
    · obtain ⟨p, hp, hl⟩ := hsome
      exact absurd hl (hall p ((hmem p).2 hp))
  · intro e he
    cases he.symm.trans hok
  · intro e he
    cases he.symm.trans herr
    exact ⟨q, rfl⟩

/-! ## Outcomes by what is seen of them

An outcome holds lists of values of any size and is not compared as a whole; a view of its result
is. -/

section
variable {ε α β : Type} {outcome : Except ε α} {view : α → β}

theorem eq_error_of_map {e : ε} (h : outcome.map view = .error e) : outcome = .error e := by
  cases outcome with
  | error e' => exact congrArg Except.error (Except.error.inj h)
  | ok a => cases h

theorem exists_ok_of_map {b : β} (h : outcome.map view = .ok b) :
    ∃ a, outcome = .ok a ∧ view a = b := by
  cases outcome with
  | error e => cases h
  | ok a => exact ⟨a, rfl, Except.ok.inj h⟩

end

/-- Adds two operands, of which the code before may have left fewer, and returns an argument. -/
def picking (operands : List Instruction) : MethodBody where
  method := ⟨"shop/Shop", "pick", "I", true, ["I", "I"]⟩
  code := operands ++ [⟨.invoke ⟨"shop/Shop", "plus", "I", true, ["I", "I"]⟩, none⟩,
    ⟨.load 1 "I" none, none⟩, ⟨.return, none⟩]

theorem analyze_picking_ok :
    let env : Setting := { resolver := Resolver.none }
    let body := picking [⟨.load 0 "I" none, none⟩, ⟨.load 1 "I" none, none⟩]
    let depths : StackDepths := ⟨[⟨0, 1⟩, ⟨1, 2⟩, ⟨2, 1⟩, ⟨1, 2⟩, ⟨2, 0⟩]⟩
    StackDepths.compute body.code = .ok depths ∧
      (Body.slice ⟨body.code, depths, env.ignored⟩).positions 5 = [0, 1, 2, 3, 4] ∧
      ∃ a, (analyze env body).1 = .ok a := by
  intro env body depths
  have hdepths : StackDepths.compute body.code = .ok depths := rfl
  have hkept : (Body.slice ⟨body.code, depths, env.ignored⟩).positions 5 = [0, 1, 2, 3, 4] := by
    decide +kernel
  refine ⟨hdepths, hkept, (analyze_ok_iff env body depths hdepths).1.2 ?_⟩
  rw [show body.code.length = 5 from rfl, hkept]
  decide

/-- The depth check does not protect the simulation: it accepts a call for which one of two
operands is missing, since the result makes up for it. -/
theorem analyze_picking_underflow :
    let env : Setting := { resolver := Resolver.none }
    let body := picking [⟨.load 1 "I" none, none⟩]
    StackDepths.compute body.code = .ok ⟨[⟨0, 1⟩, ⟨1, 0⟩, ⟨0, 1⟩, ⟨1, 0⟩]⟩ ∧
      (analyze env body).1 = .error ⟨body.method, .underflow 1⟩ := by
  intro env body
  have hmap : (analyze env body).1.map (fun a => a.result.strings) =
      .error ⟨body.method, .underflow 1⟩ := by decide +kernel
  exact ⟨rfl, eq_error_of_map hmap⟩

end ReturnFlow

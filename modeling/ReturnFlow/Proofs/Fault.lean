import ReturnFlow.Proofs.DepthSum

/-!
Which instruction a failed analysis names.

Two passes can give up on a body, and both name an instruction by a number: the depth check, which
goes over the body, and the simulation, which goes over the slice.

* `AtFault`: the instructions that cannot be executed at the depth at which the code comes to them.
* `Refused.atFault`: the depth check gives up at such an instruction, and names its position.

The simulation gives up at such an instruction too, but names its place among the instructions that
were kept. That is its position only if all before it were kept.
-/

namespace ReturnFlow

/-- The position that a failure names. -/
def Failure.index? : Failure → Option Nat
  | .flow error => some error.index
  | .underflow index => some index
  | .unresolvable _ | .callLimit .. => none

/-- The instruction at a position cannot be executed: operands are missing at the depth that the
deltas before it leave, or it has no model. -/
inductive AtFault (code : List Instruction) (p : Nat) : Prop
  | lacking (h : Lacking code p)
  | unsupported {opcode : String} {label : Option Label}
      (hi : code[p]? = some ⟨.other opcode, label⟩) (hopcode : opcode ∈ ["JSR", "JSR_W", "RET"])

/-- No operation takes more off the stack than it needs. -/
theorem Operation.stackDelta_add_need_nonneg {op : Operation} (hexit : op.isExit = false) :
    0 ≤ op.stackDelta + op.need := by
  cases op with
  | «return» | throw => cases hexit
  | invoke m =>
    simp only [stackDelta, need, Method.stackDelta, Method.operands]
    split <;> omega
  | _ =>
    simp only [stackDelta, need]
    omega

/-! ## The depth check -/

theorem Refuses.index_eq {index : Nat} {depth : Int} {op : Operation} {e : FlowError}
    (h : Refuses index depth op e) : e.index = index := by
  cases h <;> rfl

theorem Refused.index_eq {code : List Instruction} {p : Nat} {e : FlowError}
    (h : Refused code p e) : e.index = p := by
  obtain ⟨i, -, hrefuses⟩ := h
  exact hrefuses.index_eq

/-- What the depth check refuses cannot be executed. -/
theorem Refused.atFault {code : List Instruction} {p : Nat} {e : FlowError}
    (h : Refused code p e) : AtFault code p := by
  obtain ⟨⟨op, label⟩, hi, hrefuses⟩ := h
  cases hrefuses with
  | unsupported hopcode => exact .unsupported hi hopcode
  | emptyThrow hdepth =>
    refine .lacking ⟨_, hi, ?_⟩
    simp only [hdepth, Operation.need]
    decide
  | underflow hexit hdepth =>
    -- the results are counted in the delta, so that even more operands are missing
    have hnonneg : 0 ≤ op.stackDelta + op.need := Operation.stackDelta_add_need_nonneg hexit
    have hneed : depthAfter (code.take p) < op.need := by
      simp only at hdepth
      omega
    exact .lacking ⟨_, hi, hneed⟩

/-! ## Analyses -/

theorem Analysis.run_of_refused {env : Setting} {body : MethodBody} {e : FlowError}
    (h : StackDepths.compute body.code = .error e) (σ : Session) :
    ((run env body).run σ).1 = .error ⟨body.method, .flow e⟩ := by
  have hreduce : reduce env.ignored body.code = .error e := by
    rw [reduce, h]
    rfl
  rw [run, hreduce]
  rfl

/-- **What a failed analysis names.** An analysis fails at an instruction that cannot be executed.
If the depth check refuses the body, the error names the position of the first instruction that is
refused. Otherwise the error names the place of the first kept instruction that lacks operands among
all those that are kept, and this is its position in the body exactly if no instruction before it
was dropped. -/
theorem analyze_error_position (env : Setting) (body : MethodBody) (e : AnalysisError)
    (h : (analyze env body).1 = .error e) :
    e.method = body.method ∧ ∃ index p, e.cause.index? = some index ∧ AtFault body.code p ∧
      ((∃ error, StackDepths.compute body.code = .error error ∧ e.cause = .flow error ∧
          IsLeast {q | ∃ e, Refused body.code q e} p ∧ index = p) ∨
        ∃ depths, StackDepths.compute body.code = .ok depths ∧ e.cause = .underflow index ∧
          let kept := (Body.slice ⟨body.code, depths, env.ignored⟩).positions body.code.length
          IsLeast {q | q ∈ kept ∧ Lacking body.code q} p ∧ kept[index]? = some p ∧
            (index = p ↔ ∀ q < p, q ∈ kept)) := by
  cases hcompute : StackDepths.compute body.code with
  | error error =>
    cases h.symm.trans (Analysis.run_of_refused hcompute .empty)
    obtain ⟨p, hleast, hrefused⟩ := StackDepths.compute_eq_error_iff.1 hcompute
    exact ⟨rfl, error.index, p, rfl, hrefused.atFault,
      Or.inl ⟨error, rfl, rfl, hleast, hrefused.index_eq⟩⟩
  | ok depths =>
    rcases Analysis.run_spec env hcompute .empty with ⟨a, hok, -⟩ | ⟨p, herr, hleast⟩
    · cases h.symm.trans hok
    · cases h.symm.trans herr
      let b : Body := ⟨body.code, depths, env.ignored⟩
      have hmem (q : Nat) : q ∈ b.slice.positions body.code.length ↔ b.slice.covers q = true :=
        b.mem_positions_slice hcompute
      have hlt : p < body.code.length := (b.inv_slice hcompute).covers_lt hcompute hleast.1.1
      refine ⟨rfl, b.slice.rank p, p, rfl, .lacking hleast.1.2, Or.inr ⟨depths, rfl, rfl, ?_⟩⟩
      simp only [b, hmem]
      exact ⟨hleast, Slice.getElem?_positions.2 ⟨hlt, hleast.1.1, rfl⟩, Slice.rank_eq_self_iff⟩

/-- Stores a number that nothing reads, before an addition that lacks an operand. -/
def wasteful : MethodBody :=
  picking [⟨.push (.int 5) "I", none⟩, ⟨.store 2 "I" none, none⟩, ⟨.load 1 "I" none, none⟩]

theorem analyze_wasteful :
    (analyze { resolver := Resolver.none } wasteful).1 =
      .error ⟨wasteful.method, .underflow 1⟩ := by
  have hmap : (analyze { resolver := Resolver.none } wasteful).1.map (fun a => a.result.strings) =
      .error ⟨wasteful.method, .underflow 1⟩ := by decide +kernel
  exact eq_error_of_map hmap

theorem analyze_error_position_wasteful :
    ∃ e p, (analyze { resolver := Resolver.none } wasteful).1 = .error e ∧
      e.cause = .underflow 1 ∧ AtFault wasteful.code p ∧ p ≠ 1 := by
  obtain ⟨-, index, p, hindex, hfault, hflow | ⟨depths, hdepths, hcause, -, hplace, hsame⟩⟩ :=
    analyze_error_position { resolver := Resolver.none } wasteful _ analyze_wasteful
  · obtain ⟨error, -, hcause, -⟩ := hflow
    cases hcause
  · cases hcause
    cases hdepths
    refine ⟨_, p, analyze_wasteful, rfl, hfault, fun hp => ?_⟩
    have hkept := hsame.1 hp.symm 0 (by omega)
    revert hkept
    decide +kernel

/-- An error may name an instruction that has all it needs: here the store of the number, since the
addition is the second of the instructions that are kept. -/
theorem analyze_wasteful_misplaced :
    (analyze { resolver := Resolver.none } wasteful).1 = .error ⟨wasteful.method, .underflow 1⟩ ∧
      ¬AtFault wasteful.code 1 ∧ AtFault wasteful.code 3 := by
  refine ⟨analyze_wasteful, ?_, .lacking (by decide)⟩
  rintro (hlack | ⟨hi, -⟩)
  · revert hlack
    decide
  · cases hi

end ReturnFlow

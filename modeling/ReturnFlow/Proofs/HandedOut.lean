import ReturnFlow.Proofs.Reduced
import ReturnFlow.Proofs.Typed

/-!
Which methods hand out something.

* `Simulation.outcomes_execute`: a run records an outcome exactly if one of its exits is entered
  with a value on the stack (`HandsOut`).
* `Simulation.types_simulate_iff`: outcomes are typed, so the result of a simulation has a type
  exactly if there is such an exit.
* `Body.exists_handsOut_reduced_iff`: the slice of a body has such an exit exactly if the body has.
-/

namespace ReturnFlow

/-! ## Outcomes -/

/-- Is the instruction at a position an exit that is entered with a value on the stack? -/
def HandsOut (code : List Instruction) (p : Nat) : Prop :=
  ∃ i, code[p]? = some i ∧ i.isExit = true ∧ depthAfter (code.take p) ≠ 0

theorem handsOut_append_cons {pre rest : List Instruction} {i : Instruction} :
    HandsOut (pre ++ i :: rest) pre.length ↔ i.isExit = true ∧ depthAfter pre ≠ 0 := by
  simp [HandsOut]

theorem not_handsOut_of_length_le {code : List Instruction} {p : Nat} (h : code.length ≤ p) :
    ¬HandsOut code p := by
  rintro ⟨i, hi, -⟩
  rw [List.getElem?_eq_none h] at hi
  cases hi

namespace Simulation

variable {follow : Call → StateM Session Element}

/-- An instruction adds an outcome exactly if it is an exit that finds a value. -/
theorem outcomes_complete (index : Nat) {f : Frame} {op : Operation}
    (hneed : op.need ≤ f.stack.length) (σ : Session) :
    ((complete follow (f.effect index op)).run σ).1.outcomes ≠ [] ↔
      f.outcomes ≠ [] ∨ op.isExit = true ∧ f.stack ≠ [] := by
  have hframe : ∀ (s : Step) (ask : Call → Element),
      ((complete follow s).run σ).1.outcomes = (s.frame ask).outcomes := by
    intro s ask
    cases s <;> rfl
  rw [hframe _ fun _ => .empty]
  by_cases hexit : op.isExit = true ∧ f.stack ≠ []
  · obtain ⟨hop, hstack⟩ := hexit
    have heffect : f.effect index op = .done (f.exitWith f.top) := by
      cases op with
      | «return» => rw [Frame.effect, if_neg hstack]
      | throw => rfl
      | _ => simp [Operation.isExit] at hop
    rw [heffect]
    simp [Step.frame, Frame.exitWith, hop, hstack]
  · rw [Frame.outcomes_effect _ index hneed fun hop => by simpa [hop] using hexit]
    simp only [hexit, or_false]

/-- What is left of a listing adds an outcome exactly if one of its exits finds a value. -/
theorem outcomes_execute (pre rest : List Instruction) {f g : Frame} {σ : Session}
    (hlen : (f.stack.length : Int) = depthAfter pre)
    (hrun : ((execute follow pre.length f rest).run σ).1 = .ok g) :
    g.outcomes ≠ [] ↔ f.outcomes ≠ [] ∨ ∃ q, pre.length ≤ q ∧ HandsOut (pre ++ rest) q := by
  -- the instructions that were run move over to `pre`, whose deltas give the depth of the frame
  induction rest generalizing pre f σ with
  | nil =>
    cases hrun
    have hnone : ¬∃ q, pre.length ≤ q ∧ HandsOut (pre ++ []) q := by
      rintro ⟨q, hq, hout⟩
      exact not_handsOut_of_length_le (by rwa [List.append_nil]) hout
    simp only [hnone, or_false]
  | cons i rest ih =>
    by_cases hneed : i.op.need ≤ f.stack.length
    · let logged : Session := { σ with log := σ.log.push (.step pre.length i f.stack.length) }
      let next := (complete follow (f.effect pre.length i.op)).run logged
      have hnext : ((execute follow (pre ++ [i]).length next.1 rest).run next.2).1 = .ok g := by
        rw [execute_cons_of_need_le rest hneed] at hrun
        rw [List.length_append]
        exact hrun
      have hdepth : (next.1.stack.length : Int) = depthAfter (pre ++ [i]) := by
        rw [length_complete, Frame.depth_effect pre.length hneed, hlen, depthAfter_concat]
        rfl
      have hhere : i.op.isExit = true ∧ f.stack ≠ [] ↔ HandsOut (pre ++ i :: rest) pre.length := by
        rw [handsOut_append_cons, ← hlen, Int.natCast_ne_zero, List.length_eq_zero_iff.ne]
        rfl
      rw [ih (pre ++ [i]) hdepth hnext, outcomes_complete pre.length hneed, hhere,
        List.append_assoc, List.singleton_append, List.length_append, List.length_singleton,
        or_assoc]
      refine or_congr_right ⟨?_, ?_⟩
      · rintro (hout | ⟨q, hq, hout⟩)
        · exact ⟨pre.length, le_rfl, hout⟩
        · exact ⟨q, by omega, hout⟩
      · rintro ⟨q, hq, hout⟩
        rcases Nat.lt_or_eq_of_le hq with hlt | rfl
        · exact Or.inr ⟨q, hlt, hout⟩
        · exact Or.inl hout
    · rw [execute_cons_of_lt_need rest (Nat.not_le.1 hneed)] at hrun
      cases hrun

/-- The result of a simulation has a type exactly if one of its exits finds a value, and without
such an exit it is empty. -/
theorem types_simulate_iff {env : Setting} {code : List Instruction} {locals : Locals}
    {σ : Session} {e : Element} (hlocals : locals.All Element.Typed)
    (h : ((simulate env code locals).run σ).1 = .ok e) :
    (e.types ≠ [] ↔ ∃ p, HandsOut code p) ∧ ((¬∃ p, HandsOut code p) → e = .empty) := by
  rw [simulate_eq_reach, reach, List.take_length] at h
  cases hrun : ((execute (Simulation.follow env env.maxCallDepth []) 0 (.init locals) code).run σ).1
  with
  | error cause =>
    rw [hrun] at h
    cases h
  | ok g =>
    rw [hrun] at h
    cases h
    have houtcomes := outcomes_execute [] code rfl hrun
    simp only [Frame.init, ne_eq, not_true_eq_false, false_or, List.length_nil, Nat.zero_le,
      true_and, List.nil_append] at houtcomes
    -- the last frame of the run is one of the machine, so what it recorded is typed
    have hleads := Machine.leads_upTo (Machine.leads_follow env.maxCallDepth [] [] rfl) code [] hrun
    rw [List.append_nil] at hleads
    have hall := (Machine.All.start code hlocals σ).leads Element.inherited_typed hleads
    have htyped : ∀ e ∈ g.outcomes, e.Typed := Frame.All.outcomes hall.control
    rw [← houtcomes]
    refine ⟨⟨?_, Element.types_join_ne_nil htyped⟩, fun hnone => ?_⟩
    · rintro htypes hnil
      exact htypes (by rw [Frame.result, hnil]; rfl)
    · rw [Frame.result, not_not.1 hnone]
      rfl

end Simulation

namespace Body

variable {b : Body} (hb : StackDepths.compute b.code = .ok b.depths)
include hb

theorem handsOut_iff_mem_exits {p : Nat} : HandsOut b.code p ↔ p ∈ b.exits := by
  rw [mem_exits]
  refine exists_congr fun i => and_congr_right fun hi => and_congr_right fun _ => ?_
  rw [Nat.pos_iff_ne_zero, ne_eq, ne_eq, StackDepths.before_eq_zero_iff_depthAfter hb hi]

/-- The slice has an exit with a value exactly if the body has one. -/
theorem exists_handsOut_reduced_iff :
    (∃ k, HandsOut b.reduced.code k) ↔ ∃ p, HandsOut b.code p := by
  have hrank : ∀ p, b.slice.covers p = true →
      (HandsOut b.reduced.code (b.slice.rank p) ↔ HandsOut b.code p) := by
    intro p hp
    rw [handsOut_iff_mem_exits (compute_reduced hb), handsOut_iff_mem_exits hb, mem_exits,
      mem_exits, getElem?_reduced hp, before_reduced hp]
  constructor
  · rintro ⟨k, hk⟩
    have hlt : k < b.reduced.code.length := by
      by_contra hge
      exact not_handsOut_of_length_le (Nat.not_lt.1 hge) hk
    obtain ⟨p, hp, rfl⟩ := exists_rank_eq hlt
    exact ⟨p, (hrank p hp).1 hk⟩
  · rintro ⟨p, hp⟩
    obtain ⟨i, hi, hexit, hpos⟩ := mem_exits.1 ((handsOut_iff_mem_exits hb).1 hp)
    have hcov := (b.isLeast_slice hb).1.exit p i hi hexit hpos ⟨b.depths.start_le p, le_rfl⟩
    exact ⟨b.slice.rank p, (hrank p hcov).2 hp⟩

end Body

/-! ## Analyses -/

/-- **An analysis is empty exactly for a method that hands out nothing.** Whatever the body, the
setting and the session, the result of an analysis has neither types nor values if all the exits of
the body are entered with an empty stack, and otherwise it has a type. On the way to it, all that
is on the stack or in a variable of any frame has a type, also in the frames of callees and in those
that were left for a call. -/
theorem analysis_empty_iff (env : Setting) (body : MethodBody) (σ : Session) (a : Analysis)
    (ha : ((Analysis.run env body).run σ).1 = .ok a) :
    ∃ depths r, ∃ τ τ' : Session, StackDepths.compute body.code = .ok depths ∧
      ((a.result.types = [] ∧ a.result.values = []) ↔
        ∀ p i, body.code[p]? = some i → i.isExit = true → depths.before p = 0) ∧
      ((∃ p i, body.code[p]? = some i ∧ i.isExit = true ∧ depths.before p ≠ 0) →
        a.result.types ≠ []) ∧
      reduce env.ignored body.code = .ok r ∧ τ.pool = σ.pool ∧
      Machine.Leads env [] (.start r.code (.ofUnknown body.method) τ)
        (.halted (.ok a.result, τ')) ∧
      ∀ s, Machine.Leads env [] (.start r.code (.ofUnknown body.method) τ) s → ∀ f ∈ s.frames,
        (∀ o ∈ f.stack, o.element.types ≠ []) ∧
        ∀ slot e, f.locals.get? slot = some e → e.types ≠ [] := by
  obtain ⟨r, τ, hreduce, hpool, hsim⟩ := Analysis.exists_simulate ha
  obtain ⟨depths, hdepths, hr⟩ := reduce_eq_ok_iff.1 hreduce
  have hlocals := Locals.all_ofUnknown Element.inherited_typed body.method
  obtain ⟨htypes, hempty⟩ := Simulation.types_simulate_iff hlocals hsim
  have hexits : (∃ k, HandsOut r.code k) ↔
      ∃ p i, body.code[p]? = some i ∧ i.isExit = true ∧ depths.before p ≠ 0 := by
    let b : Body := ⟨body.code, depths, env.ignored⟩
    rw [hr]
    refine (b.exists_handsOut_reduced_iff hdepths).trans (exists_congr fun p => ?_)
    rw [b.handsOut_iff_mem_exits hdepths, Body.mem_exits]
    simp only [Nat.pos_iff_ne_zero]
    rfl
  rw [hexits] at htypes hempty
  have hhalted := Machine.leads_halted env r.code (.ofUnknown body.method) τ
  refine ⟨depths, r, τ, ((simulate env r.code (.ofUnknown body.method)).run τ).2, hdepths, ⟨?_, ?_⟩,
    htypes.2, hreduce, hpool, ?_, fun s hs f hf => ?_⟩
  · rintro ⟨hnil, -⟩ p i hi hexit
    by_contra hne
    exact htypes.2 ⟨p, i, hi, hexit, hne⟩ hnil
  · intro hall
    have hresult := hempty fun ⟨p, i, hi, hexit, hne⟩ => hne (hall p i hi hexit)
    rw [hresult]
    exact ⟨rfl, rfl⟩
  · rwa [← hsim]
  · have hstate := (Machine.All.start r.code hlocals τ).leads Element.inherited_typed hs
    have hframe := hstate.frames f hf
    exact ⟨fun o ho => (hframe.stack o ho).types_ne_nil,
      fun slot e he => (hframe.locals slot e he).types_ne_nil⟩

/-- Returns its argument. -/
def supplied : MethodBody where
  method := ⟨"shop/Shop", "lambda$supply$0", "I", true, ["I"]⟩
  code := [⟨.load 0 "I" none, none⟩, ⟨.return, none⟩]

/-- Calls a handle that captured the argument, and returns what it answers. -/
def supplying : MethodBody where
  method := ⟨"shop/Shop", "supply", Descriptor.object, true, ["I"]⟩
  code :=
    [⟨.load 0 "I" none, none⟩,
     ⟨.invokeDynamic supplied.method
       ⟨"shop/Shop", "get", "Ljava/util/function/Supplier;", true, ["I"]⟩, none⟩,
     ⟨.invoke ⟨"java/util/function/Supplier", "get", Descriptor.object, false, []⟩, none⟩,
     ⟨.return, none⟩]

theorem analysis_empty_iff_supplying :
    let env : Setting := { resolver := .ofList [(supplied.method, supplied.code)] }
    ∃ a, (analyze env supplying).1 = .ok a ∧
      StackDepths.compute supplying.code = .ok ⟨[⟨0, 1⟩, ⟨1, 1⟩, ⟨1, 1⟩, ⟨1, 0⟩]⟩ ∧
      a.result.types ≠ [] := by
  intro env
  have hdepths : StackDepths.compute supplying.code =
      .ok ⟨[⟨0, 1⟩, ⟨1, 1⟩, ⟨1, 1⟩, ⟨1, 0⟩]⟩ := rfl
  have hmap : (analyze env supplying).1.map (fun a => a.result.types) = .ok ["I"] := by
    decide +kernel
  obtain ⟨a, hrun, -⟩ := exists_ok_of_map hmap
  obtain ⟨depths, r, τ, τ', hcompute, -, htyped, -⟩ :=
    analysis_empty_iff env supplying .empty a hrun
  cases hdepths.symm.trans hcompute
  exact ⟨a, hrun, hdepths, htyped ⟨3, _, rfl, rfl, by decide⟩⟩

end ReturnFlow

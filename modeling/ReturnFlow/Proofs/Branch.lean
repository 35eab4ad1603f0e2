import ReturnFlow.Proofs.Join
import ReturnFlow.Proofs.Relocation

/-!
Code after an exit: what two branches hand out is merged.

The code after an exit starts with an empty stack, but with later indices, with the variables that
the code before it left, and with its outcomes on record. `Frame.run_withOutcomes` says that a run
never looks at the outcomes on record; `Frame.Shifted.run` says that the other two make no
difference either, as long as the variables that are loaded are the same.
-/

namespace ReturnFlow

namespace Frame

/-! ## Outcomes on record -/

/-- The frame with earlier outcomes on record. -/
def withOutcomes (f : Frame) (earlier : List Element) : Frame :=
  { f with outcomes := f.outcomes ++ earlier }

section
variable (f : Frame) (earlier : List Element)

theorem withOutcomes_rebind (receiver : Operand) (updated : Element) :
    (f.withOutcomes earlier).rebind receiver updated =
      (f.rebind receiver updated).withOutcomes earlier := by
  unfold rebind
  split <;> rfl

theorem withOutcomes_settle (m : Method) (receiver : Option Operand) (known : Known) :
    (f.withOutcomes earlier).settle m receiver known =
      (f.settle m receiver known).withOutcomes earlier := by
  have hadjust : (f.withOutcomes earlier).adjust receiver known =
      (f.adjust receiver known).withOutcomes earlier := by
    unfold adjust
    split
    · split
      · exact withOutcomes_rebind ..
      · rfl
    · rfl
  rw [settle_eq, settle_eq, hadjust]
  split <;> rfl

theorem frame_withOutcomes_invoke (ask : Call → Element) (m : Method)
    (receiver : Option Operand) (args : List Element) :
    ((f.withOutcomes earlier).invoke m receiver args).frame ask =
      ((f.invoke m receiver args).frame ask).withOutcomes earlier := by
  simp only [invoke]
  split
  · exact withOutcomes_settle ..
  · split <;> rfl

/-- An instruction does not look at the outcomes on record. -/
theorem frame_withOutcomes_effect (ask : Call → Element) (index : Nat) (op : Operation) :
    ((f.withOutcomes earlier).effect index op).frame ask =
      ((f.effect index op).frame ask).withOutcomes earlier := by
  cases op with
  | «return» =>
    simp only [effect, Step.frame]
    split
    · next hnil => rw [if_pos (show f.stack = [] from hnil)]
    · next hne => rw [if_neg (show ¬f.stack = [] from hne)]; rfl
  | invoke m => exact frame_withOutcomes_invoke (f.drop (Operation.invoke m).need) earlier ask ..
  | _ => rfl

theorem run_withOutcomes (ask : Call → Element) (index : Nat) (code : List Instruction) :
    (f.withOutcomes earlier).run ask index code =
      (f.run ask index code).map (withOutcomes · earlier) := by
  induction code generalizing f index with
  | nil => rfl
  | cons i rest ih =>
    by_cases hneed : i.op.need ≤ f.stack.length
    · rw [run_cons_of_need_le rest hneed, ← ih, ← frame_withOutcomes_effect]
      exact run_cons_of_need_le rest hneed
    · have hlt := Nat.not_le.1 hneed
      rw [run_cons_of_lt_need rest hlt]
      exact run_cons_of_lt_need rest hlt

end

/-! ## Later indices and other variables -/

section
variable {ask : Call → Element} {index : Nat} {f g f' : Frame} {code : List Instruction}

/-- Code does the same with later indices, and with other variables than those that it loads. -/
theorem Shifted.run {offset : Nat} {R : Set Nat} (h : Shifted offset R f g)
    (hload : ∀ i ∈ code, ∀ slot type name, i.op = .load slot type name → slot ∈ R)
    (hrun : f.run ask index code = .ok f') :
    ∃ g', g.run ask (index + offset) code = .ok g' ∧ Shifted offset R f' g' := by
  induction code generalizing f g index with
  | nil =>
    cases hrun
    exact ⟨g, rfl, h⟩
  | cons i rest ih =>
    by_cases hneed : i.op.need ≤ f.stack.length
    · rw [run_cons_of_need_le rest hneed] at hrun
      rw [run_cons_of_need_le rest (h.length_eq ▸ hneed), Nat.add_right_comm]
      exact ih (h.effect ask index (hload i List.mem_cons_self))
        (fun j hj => hload j (List.mem_cons_of_mem i hj)) hrun
    · rw [run_cons_of_lt_need rest (Nat.not_le.1 hneed)] at hrun
      cases hrun

/-- An exit leaves an empty stack. -/
theorem stack_of_run_exit {i : Instruction} (hexit : i.isExit = true)
    (hrun : f.run ask index (code ++ [i]) = .ok f') : f'.stack = [] := by
  rw [run_append] at hrun
  cases hcode : f.run ask index code with
  | error cause =>
    rw [hcode] at hrun
    cases hrun
  | ok g =>
    rw [hcode] at hrun
    by_cases hneed : i.op.need ≤ g.stack.length
    · have hdepth := depth_effect (index + code.length) hneed
      rw [if_pos (show i.op.isExit = true from hexit), ← Step.length_frame ask] at hdepth
      have hlast : (g.effect (index + code.length) i.op).frame ask = f' := by
        simpa [Except.bind, Frame.run, hneed] using hrun
      rw [hlast] at hdepth
      exact List.length_eq_zero_iff.1 (Int.ofNat_eq_zero.1 hdepth)
    · simp [Except.bind, Frame.run, hneed] at hrun

end

end Frame

/-! ## Branches -/

/-- Does code end with a return or a throw? -/
def EndsInExit (code : List Instruction) : Prop :=
  ∃ i, code.getLast? = some i ∧ i.isExit = true

/-- The slot of a load. -/
def Operation.loaded? : Operation → Option Nat
  | .load slot .. => some slot
  | _ => none

/-- The slots that code loads. -/
def loadedSlots (code : List Instruction) : List Nat :=
  code.filterMap fun i => i.op.loaded?

theorem mem_loadedSlots {code : List Instruction} {i : Instruction} (hi : i ∈ code)
    {slot : Nat} {type : String} {name : Option String} (hop : i.op = .load slot type name) :
    slot ∈ loadedSlots code :=
  List.mem_filterMap.2 ⟨i, hi, by rw [hop]; rfl⟩

namespace Frame

/-- What one branch and then another one hand out, if the first leaves the variables alone that the
second loads. -/
theorem exists_run_append {ask : Call → Element} {locals : Locals} {A B : List Instruction}
    {f g : Frame} (hexit : EndsInExit A) (hf : (init locals).run ask 0 A = .ok f)
    (hg : (init locals).run ask 0 B = .ok g)
    (hkeep : ∀ slot ∈ loadedSlots B, f.locals.get? slot = locals.get? slot) :
    ∃ f', (init locals).run ask 0 (A ++ B) = .ok f' ∧
      f'.outcomes = g.outcomes ++ f.outcomes := by
  have hstack : f.stack = [] := by
    obtain ⟨i, hi, hexit⟩ := hexit
    obtain ⟨A', rfl⟩ := List.getLast?_eq_some_iff.1 hi
    exact stack_of_run_exit hexit hf
  -- the frame after `A` is a fresh one with its variables, and with its outcomes on record
  have hfresh : f = (init f.locals).withOutcomes f.outcomes := by
    obtain ⟨stack, locals', outcomes⟩ := f
    cases hstack
    rfl
  have hshift : Shifted A.length {slot | slot ∈ loadedSlots B} (init locals) (init f.locals) :=
    ⟨rfl, hkeep, rfl⟩
  obtain ⟨g', hg', hshift'⟩ := hshift.run (fun _ hi _ _ _ hop => mem_loadedSlots hi hop) hg
  refine ⟨g'.withOutcomes f.outcomes, ?_, by rw [← hshift'.outcomes]; rfl⟩
  rw [run_append, hf]
  calc f.run ask (0 + A.length) B
      = ((init f.locals).withOutcomes f.outcomes).run ask (0 + A.length) B := by rw [← hfresh]
    _ = ((init f.locals).run ask (0 + A.length) B).map (withOutcomes · f.outcomes) :=
        run_withOutcomes ..
    _ = .ok (g'.withOutcomes f.outcomes) := by rw [hg']; rfl

end Frame

theorem Element.join_append (es es' : List Element) :
    Element.join (es ++ es') = (Element.join es').merge (Element.join es) := by
  rw [merge_comm, join, merge, mk.injEq, Sorted.union, Sorted.union, Sorted.ofList_eq_ofList_iff,
    Sorted.ofList_eq_ofList_iff]
  simp [join]

namespace Simulation

/-- A simulation of `A` ends with the variables that `B` loads bound, or not bound, as they were. -/
def LeavesFor (env : Setting) (A B : List Instruction) (locals : Locals) : Prop :=
  ∀ f, ((reach env A locals A.length).run .empty).1 = .ok f →
    ∀ slot ∈ loadedSlots B, f.locals.get? slot = locals.get? slot

instance (env : Setting) (A B : List Instruction) (locals : Locals) :
    Decidable (LeavesFor env A B locals) :=
  match h : ((reach env A locals A.length).run .empty).1 with
  | .error _ => .isTrue fun f hf => by cases h.symm.trans hf
  | .ok f =>
    decidable_of_iff (∀ slot ∈ loadedSlots B, f.locals.get? slot = locals.get? slot)
      ⟨fun hall g hg => by cases h.symm.trans hg; exact hall, fun hall => hall f h⟩

theorem simulate_eq_ok_iff {env : Setting} {code : List Instruction} {locals : Locals}
    {e : Element} :
    ((simulate env code locals).run .empty).1 = .ok e ↔
      ∃ f, (Frame.init locals).run (callResult env env.maxCallDepth []) 0 code = .ok f ∧
        f.result = e := by
  rw [← (gives_simulate env code locals).eq_run_empty]
  cases (Frame.init locals).run (callResult env env.maxCallDepth []) 0 code <;> simp [Except.map]

theorem simulate_append_eq_merge {env : Setting} {A B : List Instruction} {locals : Locals}
    {a b : Element} (hexit : EndsInExit A)
    (ha : ((simulate env A locals).run .empty).1 = .ok a)
    (hb : ((simulate env B locals).run .empty).1 = .ok b) (hleaves : LeavesFor env A B locals) :
    ((simulate env (A ++ B) locals).run .empty).1 = .ok (a.merge b) := by
  obtain ⟨f, hf, rfl⟩ := simulate_eq_ok_iff.1 ha
  obtain ⟨g, hg, rfl⟩ := simulate_eq_ok_iff.1 hb
  have hkeep : ∀ slot ∈ loadedSlots B, f.locals.get? slot = locals.get? slot := by
    refine hleaves f ?_
    rw [← (gives_reach env A locals A.length).eq_run_empty, List.take_length, hf]
  obtain ⟨f', hrun, houtcomes⟩ := Frame.exists_run_append hexit hf hg hkeep
  refine simulate_eq_ok_iff.2 ⟨f', hrun, ?_⟩
  rw [Frame.result, houtcomes, Element.join_append]
  rfl

end Simulation

open Simulation in
/-- **Independent branches merge.** If a branch ends in an exit and leaves the variables alone that
the code after it loads, then the two hand out together what each of them hands out by itself; and
if this holds both ways, the order of the branches makes no difference. -/
theorem simulate_branches (env : Setting) (A B : List Instruction) (locals : Locals)
    (a b : Element) (hexit : EndsInExit A)
    (ha : ((simulate env A locals).run .empty).1 = .ok a)
    (hb : ((simulate env B locals).run .empty).1 = .ok b) (hleaves : LeavesFor env A B locals) :
    ((simulate env (A ++ B) locals).run .empty).1 = .ok (a.merge b) ∧
      (EndsInExit B → LeavesFor env B A locals →
        ((simulate env (A ++ B) locals).run .empty).1 =
          ((simulate env (B ++ A) locals).run .empty).1) := by
  have hmerge := simulate_append_eq_merge hexit ha hb hleaves
  refine ⟨hmerge, fun hexit' hleaves' => ?_⟩
  rw [hmerge, simulate_append_eq_merge hexit' hb ha hleaves', Element.merge_comm]

/-- Starts a response with the status in a variable, keeps the builder in another one, adds a header
to it and returns what it builds. -/
def respond : List Instruction :=
  let builder := "javax/ws/rs/core/Response$ResponseBuilder"
  let type := Descriptor.ofClass builder
  [⟨.load 0 "I" none, none⟩,
   ⟨.invoke ⟨"javax/ws/rs/core/Response", "status", type, true, ["I"]⟩, none⟩,
   ⟨.store 1 type none, none⟩,
   ⟨.load 1 type none, none⟩, ⟨.push .null "Ljava/net/URI;", none⟩,
   ⟨.invoke ⟨builder, "location", "V", false, ["Ljava/net/URI;"]⟩, none⟩,
   ⟨.load 1 type none, none⟩,
   ⟨.invoke ⟨builder, "build", "Ljavax/ws/rs/core/Response;", false, []⟩, none⟩,
   ⟨.return, none⟩]

/-- Throws the same variable by way of a third one. -/
def raise : List Instruction :=
  [⟨.load 0 "I" none, none⟩, ⟨.store 2 "I" none, none⟩, ⟨.load 2 "I" none, none⟩, ⟨.throw, none⟩]

open Simulation in
theorem simulate_branches_respond :
    let env : Setting := { resolver := Resolver.none }
    let locals := Locals.empty.bind 0 (.int 404)
    let a := Element.ofValue "Ljavax/ws/rs/core/Response;"
      (.response ⟨[404], ["Location"], [], [], []⟩)
    let run := fun code => ((simulate env code locals).run .empty).1
    (EndsInExit respond ∧ EndsInExit raise) ∧
      (LeavesFor env respond raise locals ∧ LeavesFor env raise respond locals) ∧
      run respond = .ok a ∧ run raise = .ok (.int 404) ∧
      run (respond ++ raise) = .ok (a.merge (.int 404)) ∧
      run (respond ++ raise) = run (raise ++ respond) := by
  intro env locals a run
  have ha : run respond = .ok a := by decide +kernel
  have hb : run raise = .ok (.int 404) := by decide +kernel
  have hleaves : LeavesFor env respond raise locals := by decide +kernel
  have hleaves' : LeavesFor env raise respond locals := by decide +kernel
  have hexit : EndsInExit respond := ⟨_, rfl, rfl⟩
  have hexit' : EndsInExit raise := ⟨_, rfl, rfl⟩
  obtain ⟨hmerge, hswap⟩ :=
    simulate_branches env respond raise locals a (.int 404) hexit ha hb hleaves
  exact ⟨⟨hexit, hexit'⟩, ⟨hleaves, hleaves'⟩, ha, hb, hmerge, hswap hexit' hleaves'⟩

end ReturnFlow

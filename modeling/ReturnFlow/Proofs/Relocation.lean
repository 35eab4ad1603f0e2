import Mathlib.Data.Set.Basic
import ReturnFlow.Proofs.Answer

/-!
One instruction in two frames.

* What an instruction leaves alone: a variable changes only if it is stored or if an operand came
  from it (`Frame.get?_effect`), operands come from no other variables than before
  (`Frame.Holds.of_effect`), and only an exit with a value adds an outcome
  (`Frame.outcomes_effect`).
* What an instruction needs to know: in frames that differ by where the fresh objects on the stack
  were created and by variables that are not loaded (`Frame.Shifted`), it does the same
  (`Frame.Shifted.effect`).
-/

namespace ReturnFlow

namespace Locals

theorem lookup_filter_ne {slot x : Nat} (hx : x ≠ slot) (entries : List (Nat × Element)) :
    (entries.filter fun entry => entry.1 ≠ slot).lookup x = entries.lookup x := by
  induction entries with
  | nil => rfl
  | cons entry rest ih =>
    obtain ⟨y, e⟩ := entry
    rw [List.filter_cons, List.lookup_cons]
    by_cases hy : y = slot
    · have hne : (x == y) = false := by rw [hy]; exact beq_false_of_ne hx
      rw [if_neg (by simpa using hy), ih, hne]
    · rw [if_pos (by simpa using hy), List.lookup_cons, ih]

theorem get?_bind (l : Locals) (slot x : Nat) (e : Element) :
    (l.bind slot e).get? x = if x = slot then some e else l.get? x := by
  unfold bind get?
  rw [List.lookup_cons]
  by_cases hx : x = slot
  · simp [hx]
  · rw [if_neg hx, beq_false_of_ne hx]
    exact lookup_filter_ne hx l.entries

end Locals

namespace Frame

/-! ## What a call does -/

theorem receiver_mem {f : Frame} {m : Method} {o : Operand} (h : f.receiver m = some o) :
    o ∈ f.stack := by
  unfold receiver at h
  split at h
  · cases h
  · exact List.mem_of_getElem? h

/-- A call takes its operands off, may put a receiver from the stack back where it came from, and
then may push a result. -/
theorem frame_effect_invoke (ask : Call → Element) (f : Frame) (index : Nat) (m : Method) :
    let dropped := f.drop (Operation.invoke m).need
    ∃ g, (g = dropped ∨ ∃ o ∈ f.stack, ∃ e, g = dropped.rebind o e) ∧
      ((f.effect index (.invoke m)).frame ask = g ∨
        ∃ e, (f.effect index (.invoke m)).frame ask = g.push e) := by
  intro dropped
  cases hrule : Rule.call? ⟨m, (f.receiver m).map Operand.element, f.args m.arity⟩ with
  | some known =>
    refine ⟨dropped.adjust (f.receiver m) known, ?_, ?_⟩
    · rcases dropped.adjust_cases (f.receiver m) known with h | ⟨o, ho, h⟩
      · exact Or.inl h
      · exact Or.inr ⟨o, receiver_mem ho, known.result, h⟩
    · simp only [effect, invoke, hrule, settle_eq, Step.frame]
      split
      · exact Or.inr ⟨_, rfl⟩
      · exact Or.inl rfl
  | none =>
    refine ⟨dropped, Or.inl rfl, ?_⟩
    simp only [effect, invoke, hrule]
    split
    · exact Or.inr ⟨_, rfl⟩
    · exact Or.inl rfl

/-! ## What an instruction leaves alone -/

section
variable {f : Frame} {slot : Nat}

/-- Does some operand come from the variable? -/
def Holds (f : Frame) (slot : Nat) : Prop :=
  ∃ o ∈ f.stack, o.source = some (.slot slot)

theorem Holds.of_pushOperand {o : Operand} (h : (f.pushOperand o).Holds slot) :
    o.source = some (.slot slot) ∨ f.Holds slot := by
  obtain ⟨o', ho', hsource⟩ := h
  rcases List.mem_cons.1 ho' with rfl | ho'
  · exact Or.inl hsource
  · exact Or.inr ⟨o', ho', hsource⟩

theorem Holds.of_push {e : Element} (h : (f.push e).Holds slot) : f.Holds slot :=
  h.of_pushOperand.resolve_left (by simp)

theorem Holds.of_drop {count : Nat} (h : (f.drop count).Holds slot) : f.Holds slot := by
  obtain ⟨o, ho, hsource⟩ := h
  exact ⟨o, List.mem_of_mem_drop ho, hsource⟩

theorem Holds.of_rebind {receiver : Operand} {updated : Element}
    (h : (f.rebind receiver updated).Holds slot) : f.Holds slot := by
  unfold rebind at h
  split at h
  · exact h
  · obtain ⟨o, ho, hsource⟩ := h
    obtain ⟨o', ho', rfl⟩ := List.mem_map.1 ho
    refine ⟨o', ho', ?_⟩
    split at hsource <;> exact hsource

/-- The operands after an instruction come from the variables they came from before, and from the
one that it loads. -/
theorem Holds.of_effect {ask : Call → Element} {index : Nat} {op : Operation}
    (h : ((f.effect index op).frame ask).Holds slot) :
    f.Holds slot ∨ ∃ type name, op = .load slot type name := by
  cases op with
  | load slot' type name =>
    rcases h.of_pushOperand with hsource | h
    · cases hsource
      exact Or.inr ⟨type, name, rfl⟩
    · exact Or.inl h
  | store slot' type name => exact Or.inl (Holds.of_drop (f := f) h)
  | dup =>
    obtain ⟨o, ho, hsource⟩ := h
    rcases List.mem_append.1 ho with ho | ho
    · exact Or.inl ⟨o, List.mem_of_mem_take ho, hsource⟩
    · exact Or.inl ⟨o, ho, hsource⟩
  | «return» =>
    simp only [effect, Step.frame] at h
    split at h
    · exact Or.inl h
    · obtain ⟨o, ho, -⟩ := h
      cases ho
  | throw =>
    obtain ⟨o, ho, -⟩ := h
    cases ho
  | new type => exact Or.inl (h.of_pushOperand.resolve_left (by simp))
  | resize opcode pushes pops =>
    obtain ⟨o, ho, hsource⟩ := h
    rcases List.mem_append.1 ho with ho | ho
    · rw [(List.mem_replicate.1 ho).2] at hsource
      cases hsource
    · exact Or.inl ⟨o, List.mem_of_mem_drop ho, hsource⟩
  | invoke m =>
    obtain ⟨g, hg, hframe⟩ := frame_effect_invoke ask f index m
    have hgslot : g.Holds slot := by
      rcases hframe with hframe | ⟨e, hframe⟩ <;> rw [hframe] at h
      · exact h
      · exact h.of_push
    rcases hg with rfl | ⟨o, -, e, rfl⟩
    · exact Or.inl hgslot.of_drop
    · exact Or.inl hgslot.of_rebind.of_drop
  | getField owner name type => exact Or.inl (Holds.of_drop (Holds.of_push h))
  | invokeDynamic handle site => exact Or.inl (Holds.of_drop (Holds.of_push h))
  | push | getStatic | handlerEntry => exact Or.inl (Holds.of_push h)
  | other => exact Or.inl h

theorem get?_rebind {receiver : Operand} (updated : Element)
    (h : receiver.source ≠ some (.slot slot)) :
    (f.rebind receiver updated).locals.get? slot = f.locals.get? slot := by
  unfold rebind
  split
  · rfl
  · rename_i source hsource
    cases source with
    | new index => rfl
    | slot slot' =>
      have hne : slot ≠ slot' := by
        rintro rfl
        exact h hsource
      show (f.locals.bind slot' updated).get? slot = _
      rw [Locals.get?_bind, if_neg hne]

theorem outcomes_rebind (f : Frame) (receiver : Operand) (updated : Element) :
    (f.rebind receiver updated).outcomes = f.outcomes := by
  unfold rebind
  split <;> rfl

/-- An instruction changes no variable but the one that it stores and those of operands. -/
theorem get?_effect (ask : Call → Element) (index : Nat) {op : Operation}
    (hfree : ¬f.Holds slot) (hstore : ∀ type name, op ≠ .store slot type name) :
    ((f.effect index op).frame ask).locals.get? slot = f.locals.get? slot := by
  cases op with
  | store slot' type name =>
    have hne : slot ≠ slot' := by
      rintro rfl
      exact hstore type name rfl
    show (f.locals.bind slot' f.top).get? slot = _
    rw [Locals.get?_bind, if_neg hne]
  | «return» =>
    simp only [effect, Step.frame]
    split <;> rfl
  | invoke m =>
    obtain ⟨g, hg, hframe⟩ := frame_effect_invoke ask f index m
    have hlocals : g.locals.get? slot = f.locals.get? slot := by
      rcases hg with rfl | ⟨o, ho, e, rfl⟩
      · rfl
      · exact get?_rebind e fun hsource => hfree ⟨o, ho, hsource⟩
    rcases hframe with hframe | ⟨e, hframe⟩ <;> rw [hframe] <;> exact hlocals
  | _ => rfl

/-- Only an exit with a value adds an outcome. -/
theorem outcomes_effect (ask : Call → Element) (index : Nat) {op : Operation}
    (hneed : op.need ≤ f.stack.length) (hexit : op.isExit = true → f.stack = []) :
    ((f.effect index op).frame ask).outcomes = f.outcomes := by
  cases op with
  | «return» =>
    simp only [effect, Step.frame]
    rw [if_pos (hexit rfl)]
  | throw => simp [hexit rfl, Operation.need] at hneed
  | invoke m =>
    obtain ⟨g, hg, hframe⟩ := frame_effect_invoke ask f index m
    have houtcomes : g.outcomes = f.outcomes := by
      rcases hg with rfl | ⟨o, -, e, rfl⟩
      · rfl
      · exact outcomes_rebind ..
    rcases hframe with hframe | ⟨e, hframe⟩ <;> rw [hframe] <;> exact houtcomes
  | _ => rfl

end

end Frame

/-! ## What an instruction needs to know -/

/-- Where an operand comes from in a run where each instruction has a later index. -/
def Source.shift (offset : Nat) : Source → Source
  | .slot x => .slot x
  | .new index => .new (index + offset)

theorem Source.shift_injective (offset : Nat) : Function.Injective (shift offset) := by
  intro s t h
  cases s <;> cases t <;> simp_all [shift]

def Operand.shift (offset : Nat) (o : Operand) : Operand :=
  ⟨o.element, o.source.map (Source.shift offset)⟩

namespace Frame

/-- The second frame is the first one in a run with later indices, as far as the variables in a set
are concerned. -/
structure Shifted (offset : Nat) (R : Set Nat) (f g : Frame) : Prop where
  stack : g.stack = f.stack.map (Operand.shift offset)
  locals : ∀ slot ∈ R, g.locals.get? slot = f.locals.get? slot
  outcomes : g.outcomes = f.outcomes

namespace Shifted

variable {offset : Nat} {R : Set Nat} {f g : Frame} (h : Shifted offset R f g)
include h

theorem length_eq : g.stack.length = f.stack.length := by
  rw [h.stack, List.length_map]

theorem top_eq : g.top = f.top := by
  unfold top
  rw [h.stack]
  cases f.stack <;> rfl

theorem args_eq (count : Nat) : g.args count = f.args count := by
  simp [args, h.stack, ← List.map_take, Operand.shift, Function.comp_def]

theorem receiver_eq (m : Method) : g.receiver m = (f.receiver m).map (Operand.shift offset) := by
  unfold receiver
  split
  · rfl
  · rw [h.stack, List.getElem?_map]

theorem drop (count : Nat) : Shifted offset R (f.drop count) (g.drop count) where
  stack := by simp [Frame.drop, h.stack, List.map_drop]
  locals := h.locals
  outcomes := h.outcomes

theorem pushOperand (o : Operand) :
    Shifted offset R (f.pushOperand o) (g.pushOperand (o.shift offset)) where
  stack := by simp [Frame.pushOperand, h.stack]
  locals := h.locals
  outcomes := h.outcomes

theorem push (e : Element) : Shifted offset R (f.push e) (g.push e) :=
  h.pushOperand ⟨e, none⟩

theorem exitWith (e : Element) : Shifted offset R (f.exitWith e) (g.exitWith e) where
  stack := rfl
  locals := h.locals
  outcomes := congrArg (e :: ·) h.outcomes

theorem bind (slot : Nat) (e : Element) :
    Shifted offset R { f with locals := f.locals.bind slot e }
      { g with locals := g.locals.bind slot e } where
  stack := h.stack
  locals x hx := by
    show (g.locals.bind slot e).get? x = (f.locals.bind slot e).get? x
    rw [Locals.get?_bind, Locals.get?_bind, h.locals x hx]
  outcomes := h.outcomes

theorem rebind (receiver : Operand) (updated : Element) :
    Shifted offset R (f.rebind receiver updated)
      (g.rebind (receiver.shift offset) updated) := by
  obtain ⟨element, source⟩ := receiver
  cases source with
  | none => exact h
  | some source =>
    have hstack : (g.stack.map fun o =>
          if o.source = some (source.shift offset) then { o with element := updated } else o) =
        (f.stack.map fun o =>
          if o.source = some source then { o with element := updated } else o).map
            (Operand.shift offset) := by
      rw [h.stack, List.map_map, List.map_map]
      refine List.map_congr_left fun o _ => ?_
      have hsame : (o.shift offset).source = some (source.shift offset) ↔
          o.source = some source := by
        rw [← Option.map_some]
        exact (Option.map_injective (Source.shift_injective offset)).eq_iff
      simp only [Function.comp_apply, hsame]
      split <;> rfl
    cases source with
    | slot slot => exact ⟨hstack, (h.bind slot updated).locals, h.outcomes⟩
    | new index => exact ⟨hstack, h.locals, h.outcomes⟩

theorem settle (m : Method) (receiver : Option Operand) (known : Known) :
    Shifted offset R (f.settle m receiver known)
      (g.settle m (receiver.map (Operand.shift offset)) known) := by
  have hadjust : Shifted offset R (f.adjust receiver known)
      (g.adjust (receiver.map (Operand.shift offset)) known) := by
    cases receiver with
    | none => exact h
    | some o =>
      simp only [adjust, Option.map_some]
      split
      · exact h.rebind o known.result
      · exact h
  rw [settle_eq, settle_eq]
  split
  · exact hadjust.push known.result
  · exact hadjust

theorem invoke (ask : Call → Element) (m : Method) (receiver : Option Operand)
    (args : List Element) :
    Shifted offset R ((f.invoke m receiver args).frame ask)
      ((g.invoke m (receiver.map (Operand.shift offset)) args).frame ask) := by
  have hcall : (receiver.map (Operand.shift offset)).map Operand.element =
      receiver.map Operand.element := by
    rw [Option.map_map]; rfl
  unfold Frame.invoke
  simp only [hcall]
  split
  · exact h.settle m receiver _
  · split
    · exact h.push _
    · exact h

/-- An instruction does the same in both frames, provided that they agree on what it loads. -/
theorem effect (ask : Call → Element) (index : Nat) {op : Operation}
    (hload : ∀ slot type name, op = .load slot type name → slot ∈ R) :
    Shifted offset R ((f.effect index op).frame ask)
      ((g.effect (index + offset) op).frame ask) := by
  cases op with
  | load slot type name =>
    simp only [Frame.effect, Step.frame]
    rw [h.locals slot (hload slot type name rfl)]
    exact h.pushOperand ⟨_, some (.slot slot)⟩
  | store slot type name =>
    simp only [Frame.effect, Step.frame]
    rw [h.top_eq]
    exact (h.drop 1).bind slot f.top
  | dup =>
    refine ⟨?_, h.locals, h.outcomes⟩
    simp [Frame.effect, Step.frame, h.stack, List.map_take]
  | «return» =>
    have hnil : g.stack = [] ↔ f.stack = [] := by rw [h.stack, List.map_eq_nil_iff]
    simp only [Frame.effect, Step.frame, hnil, h.top_eq]
    split
    · exact h
    · exact h.exitWith f.top
  | throw =>
    simp only [Frame.effect, Step.frame, h.top_eq]
    exact h.exitWith f.top
  | new type => exact h.pushOperand ⟨.unknown type, some (.new index)⟩
  | invoke m =>
    simp only [Frame.effect]
    rw [h.receiver_eq, h.args_eq]
    exact (h.drop _).invoke ask m (f.receiver m) (f.args m.arity)
  | invokeDynamic handle site =>
    simp only [Frame.effect, Step.frame]
    rw [h.args_eq]
    exact (h.drop site.arity).push _
  | resize opcode pushes pops =>
    refine ⟨?_, h.locals, h.outcomes⟩
    simp [Frame.effect, Step.frame, h.stack, List.map_drop, Operand.shift]
  | getField owner name type => exact (h.drop 1).push _
  | push | getStatic | handlerEntry => exact h.push _
  | other => exact h

end Shifted

end Frame

end ReturnFlow

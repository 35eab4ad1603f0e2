import Mathlib.Logic.Function.Iterate
import ReturnFlow.Proofs.Order
import ReturnFlow.Proofs.Typed

/-!
Where operands come from, and what they hold.

An operand remembers the variable that it was loaded from or the instruction that created it, and an
updating call changes all the operands of one source. `Frame.Moves` says once what an instruction
does to operands that have a source. From it follow two properties of all the frames of a simulation
(`Machine.Framed`):

* `Frame.Created`: objects come from earlier instructions, and the copies of one object hold the
  same element;
* `Frame.Current`: an operand holds what its variable holds. This one is lost where a variable is
  stored while an operand that was loaded from it before lies on the stack (`Frame.Overwrites`).
-/

namespace ReturnFlow

/-! ## Properties of all frames -/

/-- The frame of a step, without the answer of its calls. -/
def Step.base : Step → Frame
  | .done f | .ruled _ f | .calls _ _ f => f

section
variable (I : Nat → Frame → Prop)

/-- The frame of the present body has the property at the index of the instruction that comes
next. -/
def Control.Framed : Control → Prop
  | .execute index f _ => I index f
  | .answer p => I p.index p.frame
  | .finish _ => True

structure Machine.Framed (s : Machine) : Prop where
  control : s.control.Framed I
  callers : ∀ caller ∈ s.callers, I caller.pending.index caller.pending.frame

/-- A property that frames have at the entry of a body, and that no answer of a call destroys. -/
structure Frame.Settled : Prop where
  init : ∀ locals, I 0 (.init locals)
  push : ∀ {index f}, I index f → ∀ e, I index (f.push e)

end

namespace Machine.Framed

variable {I : Nat → Frame → Prop} {env : Setting} {s : Machine}

theorem call (hI : Frame.Settled I) {p : Pending} (hp : I p.index p.frame) (c : Call)
    (h : ∀ caller ∈ s.callers, I caller.pending.index caller.pending.frame) :
    (s.call env p c).Framed I := by
  unfold Machine.call
  simp only
  split
  · exact ⟨hp, h⟩
  · split
    · exact ⟨hp, h⟩
    · refine ⟨hI.init _, fun caller hcaller => ?_⟩
      rcases List.mem_cons.1 hcaller with rfl | hcaller
      · exact hp
      · exact h caller hcaller

/-- A step keeps the property of all frames if the instruction that it executes keeps it. -/
theorem step (hI : Frame.Settled I) (h : s.Framed I)
    (heffect : ∀ index f i rest, s.control = .execute index f (i :: rest) → I index f →
      i.op.need ≤ f.stack.length → I (index + 1) (f.effect index i.op).base) :
    (s.step env).Framed I := by
  obtain ⟨control, callers, active, σ⟩ := s
  obtain ⟨hcontrol, hcallers⟩ := h
  cases control with
  | execute index f rest =>
    cases rest with
    | nil => exact ⟨trivial, hcallers⟩
    | cons i rest =>
      refine ⟨?_, hcallers⟩
      show ((Control.afterInstruction index f i rest).run σ).1.Framed I
      unfold Control.afterInstruction
      by_cases hneed : i.op.need ≤ f.stack.length
      · rw [Frame.step_of_need_le index hneed]
        -- An answer that is still to come is pushed later, on the frame that waits for it.
        have hbase := heffect index f i rest rfl hcontrol hneed
        revert hbase
        cases f.effect index i.op <;> exact id
      · rw [Frame.step_of_lt_need index (Nat.not_le.1 hneed)]
        trivial
  | answer p =>
    obtain ⟨index, f, rest, type, targets, answers⟩ := p
    cases targets with
    | nil => exact ⟨hI.push hcontrol _, hcallers⟩
    | cons t targets =>
      cases t with
      | known e => exact ⟨hcontrol, hcallers⟩
      | project c => exact call hI hcontrol c hcallers
  | finish result =>
    cases callers with
    | nil => exact ⟨trivial, hcallers⟩
    | cons caller callers =>
      exact ⟨hcallers caller List.mem_cons_self, fun c hc => hcallers c (List.mem_cons_of_mem _ hc)⟩

theorem start (hI : Frame.Settled I) (code : List Instruction) (locals : Locals) (σ : Session) :
    (start code locals σ).Framed I where
  control := hI.init locals
  callers := by simp [Machine.start]

theorem frames (h : s.Framed I) : ∀ f ∈ s.frames, ∃ index, I index f := by
  intro f hf
  rcases List.mem_append.1 hf with hf | hf
  · have hcontrol := h.control
    revert hf hcontrol
    cases s.control with
    | execute index g rest => exact fun hf hcontrol => ⟨index, List.mem_singleton.1 hf ▸ hcontrol⟩
    | answer p => exact fun hf hcontrol => ⟨p.index, List.mem_singleton.1 hf ▸ hcontrol⟩
    | finish result => exact fun hf => by cases hf
  · obtain ⟨caller, hcaller, rfl⟩ := List.mem_map.1 hf
    exact ⟨_, h.callers caller hcaller⟩

end Machine.Framed

/-! ## What an instruction does to operands that have a source -/

namespace Frame

/-- What an instruction may do to the variables and to the operands that have a source. -/
inductive Moves (index : Nat) (f : Frame) : Operation → Frame → Prop
  /-- It takes some of them away, and copies others. -/
  | keep {op : Operation} {g : Frame} (stack : ∀ o ∈ g.stack, o.source ≠ none → o ∈ f.stack)
      (locals : g.locals = f.locals) : Moves index f op g
  | load (slot : Nat) (type : String) (name : Option String) :
      Moves index f (.load slot type name)
        (f.pushOperand ⟨(f.locals.get? slot).getD (.unknown type), some (.slot slot)⟩)
  | store (slot : Nat) (type : String) (name : Option String) :
      Moves index f (.store slot type name) { f.drop 1 with locals := f.locals.bind slot f.top }
  | new (type : String) :
      Moves index f (.new type) (f.pushOperand ⟨.unknown type, some (.new index)⟩)
  /-- It puts an operand back where it came from. -/
  | update (m : Method) {g : Frame} (o : Operand) (e : Element)
      (frame : g = (f.drop (Operation.invoke m).need).rebind o e ∨
        ∃ e', g = ((f.drop (Operation.invoke m).need).rebind o e).push e') :
      Moves index f (.invoke m) g

theorem moves_push {f g : Frame} {op : Operation} {index : Nat}
    (hstack : ∀ o ∈ g.stack, o ∈ f.stack) (hlocals : g.locals = f.locals) (e : Element) :
    Moves index f op (g.push e) := by
  refine .keep (fun o ho hsource => ?_) hlocals
  rcases List.mem_cons.1 ho with rfl | ho
  · exact absurd rfl hsource
  · exact hstack o ho

/-- A call takes its operands off, may put its receiver back where it came from, and then may push a
result. -/
theorem base_effect_invoke (f : Frame) (index : Nat) (m : Method) :
    let dropped := f.drop (Operation.invoke m).need
    let base := (f.effect index (.invoke m)).base
    ∃ g, (g = dropped ∨ ∃ o e, f.receiver m = some o ∧ g = dropped.rebind o e) ∧
      (base = g ∨ ∃ e, base = g.push e) := by
  intro dropped base
  cases hrule : Rule.call? ⟨m, (f.receiver m).map Operand.element, f.args m.arity⟩ with
  | none =>
    refine ⟨dropped, Or.inl rfl, Or.inl ?_⟩
    simp only [base, effect, invoke, hrule]
    split <;> rfl
  | some known =>
    have hbase : base = dropped.settle m (f.receiver m) known := by
      simp only [base, effect, invoke, hrule]
      rfl
    refine ⟨dropped.adjust (f.receiver m) known, ?_, ?_⟩
    · rcases dropped.adjust_cases (f.receiver m) known with h | ⟨o, ho, h⟩
      · exact Or.inl h
      · exact Or.inr ⟨o, known.result, ho, h⟩
    · rw [hbase, settle_eq]
      split
      · exact Or.inr ⟨known.result, rfl⟩
      · exact Or.inl rfl

theorem moves_invoke (f : Frame) (index : Nat) (m : Method) :
    Moves index f (.invoke m) (f.effect index (.invoke m)).base := by
  have hdrop : ∀ o ∈ (f.drop (Operation.invoke m).need).stack, o ∈ f.stack :=
    fun o ho => List.mem_of_mem_drop ho
  obtain ⟨g, rfl | ⟨o, e, -, rfl⟩, hbase⟩ := f.base_effect_invoke index m
  · rcases hbase with h | ⟨e, h⟩ <;> rw [h]
    · exact .keep (fun o ho _ => hdrop o ho) rfl
    · exact moves_push hdrop rfl e
  · exact .update m o e hbase

theorem moves_effect (f : Frame) (index : Nat) (op : Operation) :
    Moves index f op (f.effect index op).base := by
  have hdrop : ∀ n, ∀ o ∈ (f.drop n).stack, o ∈ f.stack := fun n o ho => List.mem_of_mem_drop ho
  cases op with
  | load slot type name => exact .load slot type name
  | store slot type name => exact .store slot type name
  | new type => exact .new type
  | invoke m => exact f.moves_invoke index m
  | push | getStatic | handlerEntry => exact moves_push (fun o ho => ho) rfl _
  | getField owner name type => exact moves_push (hdrop 1) rfl _
  | invokeDynamic handle site => exact moves_push (hdrop site.arity) rfl _
  | dup =>
    refine .keep (fun o ho _ => ?_) rfl
    rcases List.mem_append.1 ho with ho | ho
    · exact List.mem_of_mem_take ho
    · exact ho
  | «return» =>
    show Moves index f .return (if f.stack = [] then f else f.exitWith f.top)
    split
    · exact .keep (fun o ho _ => ho) rfl
    · exact .keep (fun o ho => by cases ho) rfl
  | throw => exact .keep (fun o ho => by cases ho) rfl
  | resize opcode pushes pops =>
    refine .keep (fun o ho hsource => ?_) rfl
    rcases List.mem_append.1 ho with ho | ho
    · rw [(List.mem_replicate.1 ho).2] at hsource
      exact absurd rfl hsource
    · exact List.mem_of_mem_drop ho
  | other opcode => exact .keep (fun o ho _ => ho) rfl

/-! ## Updates -/

/-- After an update there are the same operands, and those of the receiver's source hold it. -/
theorem mem_rebind {f : Frame} {o o' : Operand} {e : Element} (ho' : o' ∈ (f.rebind o e).stack) :
    ∃ p ∈ f.stack, p.source = o'.source ∧
      (o'.source = o.source ∧ o'.element = e ∨
        o' = p ∧ (o'.source ≠ none → o'.source ≠ o.source)) := by
  unfold rebind at ho'
  cases hsource : o.source with
  | none =>
    rw [hsource] at ho'
    exact ⟨o', ho', rfl, Or.inr ⟨rfl, id⟩⟩
  | some source =>
    rw [hsource] at ho'
    obtain ⟨p, hp, rfl⟩ := List.mem_map.1 ho'
    refine ⟨p, hp, ?_⟩
    by_cases hps : p.source = some source <;> simp [hps]

theorem get?_rebind_self (f : Frame) {o : Operand} (e : Element) {slot : Nat}
    (ho : o.source = some (.slot slot)) : (f.rebind o e).locals.get? slot = some e := by
  simp only [rebind, ho]
  rw [Locals.get?_bind, if_pos rfl]

/-! ## Objects -/

/-- The objects on the stack come from earlier instructions, and the copies of one object hold the
same element. -/
structure Created (index : Nat) (f : Frame) : Prop where
  earlier : ∀ o ∈ f.stack, ∀ k, o.source = some (.new k) → k < index
  copies : ∀ o ∈ f.stack, ∀ o' ∈ f.stack, ∀ k, o.source = some (.new k) →
    o'.source = some (.new k) → o.element = o'.element

namespace Created

variable {index : Nat} {f g : Frame}

theorem keep (h : f.Created index)
    (hstack : ∀ o ∈ g.stack, ∀ k, o.source = some (.new k) → o ∈ f.stack) : g.Created index := by
  constructor
  · intro o ho k hk
    exact h.earlier o (hstack o ho k hk) k hk
  · intro o ho o' ho' k hk hk'
    exact h.copies o (hstack o ho k hk) o' (hstack o' ho' k hk') k hk hk'

theorem later (h : f.Created index) : f.Created (index + 1) where
  earlier o ho k hk := Nat.lt_succ_of_lt (h.earlier o ho k hk)
  copies := h.copies

/-- What is pushed is no object of the stack, unless its source says so. -/
theorem pushOperand (h : f.Created index) {o : Operand} (ho : ∀ k, o.source ≠ some (.new k)) :
    (f.pushOperand o).Created index := by
  refine h.keep fun p hp k hk => ?_
  rcases List.mem_cons.1 hp with rfl | hp
  · exact absurd hk (ho k)
  · exact hp

theorem push (h : f.Created index) (e : Element) : (f.push e).Created index :=
  h.pushOperand fun _ hk => by cases hk

/-- An update reaches all the copies of an object or none. -/
theorem rebind (h : f.Created index) (o : Operand) (e : Element) :
    (f.rebind o e).Created index := by
  constructor
  · intro p hp k hk
    obtain ⟨q, hq, hqp, -⟩ := mem_rebind hp
    exact h.earlier q hq k (hqp.trans hk)
  · intro p hp p' hp' k hk hk'
    obtain ⟨q, hq, -, ⟨hs, he⟩ | ⟨rfl, hs⟩⟩ := mem_rebind hp <;>
      obtain ⟨q', hq', -, ⟨hs', he'⟩ | ⟨rfl, hs'⟩⟩ := mem_rebind hp'
    · rw [he, he']
    -- Two operands of one source are both changed or both left alone.
    · exact absurd (hk'.trans (hk.symm.trans hs)) (hs' (by simp [hk']))
    · exact absurd (hk.trans (hk'.symm.trans hs')) (hs (by simp [hk]))
    · exact h.copies p hq p' hq' k hk hk'

/-- A new object is none of those that are there. -/
theorem pushNew (h : f.Created index) (e : Element) :
    (f.pushOperand ⟨e, some (.new index)⟩).Created (index + 1) := by
  constructor
  · intro o ho k hk
    rcases List.mem_cons.1 ho with rfl | ho
    · cases hk
      exact Nat.lt_succ_self index
    · exact Nat.lt_succ_of_lt (h.earlier o ho k hk)
  · intro o ho o' ho' k hk hk'
    -- An old operand is no copy of the new object, since it comes from an earlier instruction.
    rcases List.mem_cons.1 ho with rfl | ho <;> rcases List.mem_cons.1 ho' with rfl | ho'
    · rfl
    · cases hk
      exact absurd (h.earlier o' ho' index hk') (Nat.lt_irrefl index)
    · cases hk'
      exact absurd (h.earlier o ho index hk) (Nat.lt_irrefl index)
    · exact h.copies o ho o' ho' k hk hk'

theorem move {op : Operation} (h : f.Created index) (hg : Moves index f op g) :
    g.Created (index + 1) := by
  have hdrop : ∀ n, (f.drop n).Created index :=
    fun n => h.keep fun o ho _ _ => List.mem_of_mem_drop ho
  cases hg with
  | keep stack _ => exact (h.keep fun o ho k hk => stack o ho (by simp [hk])).later
  | load slot type name => exact (h.pushOperand fun _ hk => by cases hk).later
  | store slot type name => exact (h.keep fun o ho _ _ => List.mem_of_mem_drop ho).later
  | new type => exact h.pushNew _
  | update m o e frame =>
    rcases frame with rfl | ⟨e', rfl⟩
    · exact ((hdrop _).rebind o e).later
    · exact (((hdrop _).rebind o e).push e').later

end Created

theorem settled_created : Settled Created where
  init _ := ⟨by simp [Frame.init], by simp [Frame.init]⟩
  push h e := h.push e

/-! ## Variables -/

/-- The variable holds the element, or it is not bound and the element is unknown. -/
def Shows (f : Frame) (slot : Nat) (e : Element) : Prop :=
  f.locals.get? slot = some e ∨ f.locals.get? slot = none ∧ ∃ type, e = .unknown type

theorem shows_load (f : Frame) (slot : Nat) (type : String) :
    f.Shows slot ((f.locals.get? slot).getD (.unknown type)) := by
  unfold Shows
  cases f.locals.get? slot with
  | none => exact Or.inr ⟨rfl, type, rfl⟩
  | some e => exact Or.inl rfl

/-- Each operand that was loaded from a variable holds what the variable holds. -/
def Current (f : Frame) : Prop :=
  ∀ o ∈ f.stack, ∀ slot, o.source = some (.slot slot) → f.Shows slot o.element

/-- Storing the top of the stack changes the variable that an operand below it came from. -/
def Overwrites (f : Frame) (slot : Nat) : Prop :=
  ∃ o ∈ f.stack.tail, o.source = some (.slot slot) ∧ o.element ≠ f.top

instance (f : Frame) (slot : Nat) : Decidable (f.Overwrites slot) :=
  inferInstanceAs (Decidable (∃ o ∈ f.stack.tail, _))

namespace Current

variable {index : Nat} {f g : Frame}

theorem keep (h : f.Current) (hstack : ∀ o ∈ g.stack, o.source ≠ none → o ∈ f.stack)
    (hlocals : g.locals = f.locals) : g.Current := by
  intro o ho slot hslot
  have hshows := h o (hstack o ho (by simp [hslot])) slot hslot
  rwa [Shows, ← hlocals] at hshows

theorem pushOperand (h : f.Current) {o : Operand}
    (ho : ∀ slot, o.source = some (.slot slot) → f.Shows slot o.element) :
    (f.pushOperand o).Current := by
  intro p hp slot hslot
  rcases List.mem_cons.1 hp with rfl | hp
  · exact ho slot hslot
  · exact h p hp slot hslot

theorem push (h : f.Current) (e : Element) : (f.push e).Current :=
  h.pushOperand fun _ hs => by cases hs

/-- An update reaches the variable and the operands that came from it. -/
theorem rebind (h : f.Current) (o : Operand) (e : Element) : (f.rebind o e).Current := by
  intro p hp slot hslot
  obtain ⟨q, hq, -, ⟨hs, he⟩ | ⟨rfl, hs⟩⟩ := mem_rebind hp
  · left
    rw [get?_rebind_self f e (hs.symm.trans hslot), he]
  · have hne : o.source ≠ some (.slot slot) := fun ho =>
      hs (by simp [hslot]) (hslot.trans ho.symm)
    rw [Shows, get?_rebind e hne]
    exact h p hq slot hslot

theorem store (h : f.Current) {slot : Nat} (hslot : ¬f.Overwrites slot) :
    Current { f.drop 1 with locals := f.locals.bind slot f.top } := by
  intro o ho x hx
  have htail : o ∈ f.stack.tail := by rwa [← List.drop_one]
  show (f.locals.bind slot f.top).get? x = some o.element ∨
    (f.locals.bind slot f.top).get? x = none ∧ _
  rw [Locals.get?_bind]
  by_cases hxs : x = slot
  · subst hxs
    have htop : o.element = f.top := by
      by_contra hne
      exact hslot ⟨o, htail, hx, hne⟩
    simp [htop]
  · rw [if_neg hxs]
    exact h o (List.mem_of_mem_tail htail) x hx

theorem move {op : Operation} (h : f.Current) (hg : Moves index f op g)
    (hstore : ∀ slot type name, op = .store slot type name → ¬f.Overwrites slot) :
    g.Current := by
  have hdrop : ∀ n, (f.drop n).Current :=
    fun n => h.keep (fun o ho _ => List.mem_of_mem_drop ho) rfl
  cases hg with
  | keep stack locals => exact h.keep stack locals
  | load slot type name =>
    refine h.pushOperand fun x hx => ?_
    cases hx
    exact f.shows_load slot type
  | store slot type name => exact h.store (hstore slot type name rfl)
  | new type => exact h.pushOperand fun _ hs => by cases hs
  | update m o e frame =>
    rcases frame with rfl | ⟨e', rfl⟩
    · exact (hdrop _).rebind o e
    · exact ((hdrop _).rebind o e).push e'

end Current

theorem settled_current : Settled fun _ f => f.Current where
  init _ := by
    intro o ho
    cases ho
  push h e := h.push e

/-- After an overwriting store there is an operand that no longer holds what its variable holds. -/
theorem Overwrites.not_current {f : Frame} {slot : Nat} (h : f.Overwrites slot) :
    ¬Current { f.drop 1 with locals := f.locals.bind slot f.top } := by
  obtain ⟨o, ho, hsource, hne⟩ := h
  intro hcurrent
  have hget : (f.locals.bind slot f.top).get? slot = some f.top := by
    rw [Locals.get?_bind, if_pos rfl]
  rcases hcurrent o (by rwa [← List.drop_one] at ho) slot hsource with hsome | ⟨hnone, -⟩
  · exact hne (Option.some.inj (hsome.symm.trans hget))
  · cases hnone.symm.trans hget

/-- The operands hold one element, or they are unknown values of a variable that is not bound. -/
def Alike (f : Frame) (o o' : Operand) : Prop :=
  o.element = o'.element ∨ ∃ slot type type', o.source = some (.slot slot) ∧
    f.locals.get? slot = none ∧ o.element = .unknown type ∧ o'.element = .unknown type'

theorem alike_of_source_eq {f : Frame} {index : Nat} (hcreated : f.Created index)
    (hcurrent : f.Current) {o o' : Operand} (ho : o ∈ f.stack) (ho' : o' ∈ f.stack)
    (hsource : o.source = o'.source) (hne : o.source ≠ none) : f.Alike o o' := by
  cases hs : o.source with
  | none => exact absurd hs hne
  | some source =>
    have hs' := hsource.symm.trans hs
    cases source with
    | new k => exact Or.inl (hcreated.copies o ho o' ho' k hs hs')
    | slot x =>
      rcases hcurrent o ho x hs with h | ⟨hnone, type, he⟩ <;>
        rcases hcurrent o' ho' x hs' with h' | ⟨hnone', type', he'⟩
      · exact Or.inl (Option.some.inj (h.symm.trans h'))
      · cases h.symm.trans hnone'
      · cases h'.symm.trans hnone
      · exact Or.inr ⟨x, type, type', hs, hnone, he, he'⟩

end Frame

/-! ## Calls -/

namespace Frame

/-- The operand that lies so many operands above the bottom of the stack. -/
def at? (f : Frame) (height : Nat) : Option Operand :=
  f.stack.reverse[height]?

theorem at?_pushOperand {f : Frame} {height : Nat} (h : height < f.stack.length) (o : Operand) :
    (f.pushOperand o).at? height = f.at? height := by
  show (o :: f.stack).reverse[height]? = f.stack.reverse[height]?
  rw [List.reverse_cons, List.getElem?_append_left (by simpa using h)]

theorem at?_drop {f : Frame} {height n : Nat} (h : height + n < f.stack.length) :
    (f.drop n).at? height = f.at? height := by
  show (f.stack.drop n).reverse[height]? = f.stack.reverse[height]?
  have hlength : height < (f.stack.drop n).reverse.length := by
    rw [List.length_reverse, List.length_drop]
    omega
  have hsplit : f.stack.reverse = (f.stack.drop n).reverse ++ (f.stack.take n).reverse := by
    rw [← List.reverse_append, List.take_append_drop]
  rw [hsplit, List.getElem?_append_left hlength]

/-- Only operands of the receiver's source are changed by an update. -/
theorem source_eq_of_rebind {f : Frame} {o p : Operand} {e : Element} {height : Nat}
    (hp : f.at? height = some p) (hne : (f.rebind o e).at? height ≠ some p) :
    o.source = p.source ∧ o.source ≠ none := by
  unfold rebind at hne
  cases hsource : o.source with
  | none =>
    rw [hsource] at hne
    exact absurd hp hne
  | some source =>
    rw [hsource] at hne
    by_cases hs : p.source = some source
    · exact ⟨hs.symm, nofun⟩
    · unfold at? at hp hne
      simp [← List.map_reverse, hp, hs] at hne

/-- A call changes none of the operands that it leaves on the stack, but for those that came from
where its receiver came from. -/
theorem source_eq_of_invoke {f : Frame} {index : Nat} {m : Method} {o : Operand} {height : Nat}
    (hheight : height + (Operation.invoke m).need < f.stack.length)
    (ho : f.at? height = some o)
    (hne : (f.effect index (.invoke m)).base.at? height ≠ some o) :
    ∃ receiver, f.receiver m = some receiver ∧ receiver.source = o.source ∧
      receiver.source ≠ none := by
  let dropped := f.drop (Operation.invoke m).need
  have hdropped : height < dropped.stack.length := by
    show height < (f.stack.drop _).length
    rw [List.length_drop]
    omega
  rw [← at?_drop hheight] at ho
  obtain ⟨g, hg, hbase⟩ := f.base_effect_invoke index m
  have hlength : height < g.stack.length := by
    rcases hg with rfl | ⟨o, e, -, rfl⟩
    · exact hdropped
    · rwa [length_rebind]
  have hgne : g.at? height ≠ some o := by
    rcases hbase with h | ⟨e, h⟩ <;> rw [h] at hne
    · exact hne
    · rwa [push, at?_pushOperand hlength] at hne
  rcases hg with rfl | ⟨receiver, e, hreceiver, rfl⟩
  · exact absurd ho hgne
  · exact ⟨receiver, hreceiver, source_eq_of_rebind ho hgne⟩

end Frame

/-! ## Every run -/

namespace Machine

/-- The next instruction stores into a variable that other operands came from. -/
def Overwrites (s : Machine) : Prop :=
  match s.control with
  | .execute _ f (⟨.store slot _ _, _⟩ :: _) => f.Overwrites slot
  | _ => False

instance (s : Machine) : Decidable s.Overwrites := by
  unfold Overwrites
  split <;> infer_instance

variable {env : Setting} {code : List Instruction} {locals : Locals} {σ : Session} {s : Machine}

theorem created_of_leads (hs : Leads env [] (start code locals σ) s) : s.Framed Frame.Created := by
  induction hs with
  | refl => exact .start Frame.settled_created code locals σ
  | tail _ hstep ih =>
    rw [hstep.2]
    refine ih.step Frame.settled_created fun index f i _ _ hf _ => ?_
    exact hf.move (f.moves_effect index i.op)

theorem leads_iterate (env : Setting) (s : Machine) (n : Nat) :
    Leads env [] s ((step env)^[n] s) := by
  induction n with
  | zero => exact .refl s
  | succ n ih =>
    rw [Function.iterate_succ_apply']
    exact ih.trans (.of_step List.nil_suffix rfl)

theorem current_iterate {n : Nat}
    (hkept : ∀ k < n, ¬((step env)^[k] (start code locals σ)).Overwrites) :
    ((step env)^[n] (start code locals σ)).Framed fun _ f => f.Current := by
  induction n with
  | zero => exact .start Frame.settled_current code locals σ
  | succ n ih =>
    have hs := ih fun k hk => hkept k (Nat.lt_succ_of_lt hk)
    have hlast := hkept n (Nat.lt_succ_self n)
    rw [Function.iterate_succ_apply']
    refine hs.step Frame.settled_current fun index f i rest hcontrol hf _ => ?_
    refine hf.move (f.moves_effect index i.op) fun slot type name hop hover => hlast ?_
    obtain ⟨op, label⟩ := i
    cases hop
    rw [Overwrites, hcontrol]
    exact hover

theorem overwrites_step (h : s.Overwrites) : ∃ f ∈ (s.step env).frames, ¬f.Current := by
  unfold Overwrites at h
  split at h
  · rename_i index f slot type name label rest hcontrol
    have hneed : (Operation.store slot type name).need ≤ f.stack.length := by
      obtain ⟨o, ho, -⟩ := h
      exact List.length_pos_of_mem (List.mem_of_mem_tail ho)
    refine ⟨{ f.drop 1 with locals := f.locals.bind slot f.top }, ?_, h.not_current⟩
    simp only [step, hcontrol, proceed, Control.afterInstruction,
      Frame.step_of_need_le index hneed]
    exact List.mem_append_left _ List.mem_cons_self
  · exact h.elim

/-- **A call changes the copies of its receiver only, unless a variable was overwritten.** In every
state of a run the copies of one object hold the same element. So do the operands that were loaded
from one variable, if they are not unknown values of a variable that is not bound; and an operand
that a call leaves on the stack and changes held what the receiver held. Operands of a variable need
that no store on the way has overwritten it while they lay on the stack: such a store always leaves
an operand behind that is no longer current. -/
theorem alike_iterate (env : Setting) (code : List Instruction) (locals : Locals) (σ : Session)
    (n : Nat) :
    let s := (step env)^[n] (start code locals σ)
    (∀ f ∈ s.frames, ∀ o ∈ f.stack, ∀ o' ∈ f.stack, ∀ k, o.source = some (.new k) →
      o'.source = some (.new k) → o.element = o'.element) ∧
    (s.Overwrites → ∃ f ∈ (s.step env).frames, ¬f.Current) ∧
    ((∀ k < n, ¬((step env)^[k] (start code locals σ)).Overwrites) →
      (∀ f ∈ s.frames, ∀ o ∈ f.stack, ∀ o' ∈ f.stack, o.source = o'.source → o.source ≠ none →
        f.Alike o o') ∧
      ∀ index f m label rest, s.control = .execute index f (⟨.invoke m, label⟩ :: rest) →
        ∀ height o, height + (Operation.invoke m).need < f.stack.length → f.at? height = some o →
          (f.effect index (.invoke m)).base.at? height ≠ some o →
          ∃ receiver, f.receiver m = some receiver ∧ f.Alike receiver o) := by
  intro s
  have hcreated := created_of_leads (leads_iterate env (start code locals σ) n)
  refine ⟨?_, overwrites_step, fun hkept => ?_⟩
  · intro f hf
    obtain ⟨index, hindex⟩ := hcreated.frames f hf
    exact hindex.copies
  have hcurrent := current_iterate hkept
  constructor
  · intro f hf o ho o' ho'
    obtain ⟨index, hindex⟩ := hcreated.frames f hf
    obtain ⟨-, hf⟩ := hcurrent.frames f hf
    exact Frame.alike_of_source_eq hindex hf ho ho'
  · intro index f m label rest hcontrol height o hheight ho hne
    obtain ⟨receiver, hreceiver, hsource, hsome⟩ := Frame.source_eq_of_invoke hheight ho hne
    have hindex := hcreated.control
    have hf := hcurrent.control
    rw [hcontrol] at hindex hf
    exact ⟨receiver, hreceiver, Frame.alike_of_source_eq hindex hf (Frame.receiver_mem hreceiver)
      (List.mem_reverse.1 (List.mem_of_getElem? ho)) hsource hsome⟩

open Simulation in
/-- The variable of a builder is given another builder while the first one lies on the stack. -/
theorem alike_iterate_overwritten :
    let response := "javax/ws/rs/core/Response"
    let builder := "javax/ws/rs/core/Response$ResponseBuilder"
    let type := Descriptor.ofClass builder
    let env : Setting := { resolver := Resolver.none }
    let code : List Instruction :=
      [⟨.invoke ⟨response, "ok", type, true, []⟩, none⟩,
       ⟨.store 1 type none, none⟩, ⟨.load 1 type none, none⟩,
       ⟨.invoke ⟨response, "serverError", type, true, []⟩, none⟩,
       ⟨.store 1 type none, none⟩, ⟨.load 1 type none, none⟩,
       ⟨.push .null "Ljava/net/URI;", none⟩,
       ⟨.invoke ⟨builder, "location", type, false, ["Ljava/net/URI;"]⟩, none⟩,
       ⟨.resize "POP" 0 1, none⟩,
       ⟨.invoke ⟨builder, "build", Descriptor.ofClass response, false, []⟩, none⟩,
       ⟨.return, none⟩]
    (∃ f ∈ ((step env)^[7] (start code .empty .empty)).frames, ∃ o ∈ f.stack, ∃ o' ∈ f.stack,
      o.source = some (.slot 1) ∧ o'.source = some (.slot 1) ∧ o.element ≠ o'.element) ∧
    ((simulate env code .empty).run .empty).1 =
      .ok (.ofValue (Descriptor.ofClass response)
        (.response ⟨[500], ["Location"], [], [], []⟩)) := by
  decide +kernel

/-- A builder is loaded twice, and changed by way of the second one. -/
theorem alike_iterate_loaded_twice :
    let builder := "javax/ws/rs/core/Response$ResponseBuilder"
    let type := Descriptor.ofClass builder
    let location : Method := ⟨builder, "location", type, false, ["Ljava/net/URI;"]⟩
    let env : Setting := { resolver := Resolver.none }
    let code : List Instruction :=
      [⟨.invoke ⟨"javax/ws/rs/core/Response", "ok", type, true, []⟩, none⟩,
       ⟨.store 1 type none, none⟩, ⟨.load 1 type none, none⟩, ⟨.load 1 type none, none⟩,
       ⟨.push .null "Ljava/net/URI;", none⟩, ⟨.invoke location, none⟩]
    let s := (step env)^[5] (start code .empty .empty)
    (∀ k < 5, ¬((step env)^[k] (start code .empty .empty)).Overwrites) ∧
      (∃ f ∈ s.frames, ((f.effect 5 (.invoke location)).base.at? 0).map Operand.element ≠
        (f.at? 0).map Operand.element) ∧
      ∀ f ∈ s.frames, ∀ o ∈ f.stack, ∀ o' ∈ f.stack, o.source = o'.source → o.source ≠ none →
        f.Alike o o' := by
  intro builder type location env code s
  have hkept : ∀ k < 5, ¬((step env)^[k] (start code .empty .empty)).Overwrites := by
    decide +kernel
  exact ⟨hkept, by decide +kernel, ((alike_iterate env code .empty .empty 5).2.2 hkept).1⟩

end Machine

end ReturnFlow

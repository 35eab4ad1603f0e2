import Mathlib.Algebra.Ring.Nat
import Mathlib.Data.List.Nodup
import ReturnFlow.Proofs.Relocation

/-!
The layout of a frame: which slots the parameters of a method take, and what a call binds to them.

* `Method.slotsFrom_eq`: the slot of a parameter is the first free one plus the widths of the
  parameters before it, so that slots are strictly increasing (`Method.pairwise_slotsFrom`).
* `Method.slotsFrom16?`: the slots kept in 16 bits, where the next free one may not fit. It fits as
  long as all parameters together do (`Method.exists_slotsFrom16?_iff`).
* `Method.toInt_stackDelta32`: the change of the depth fits into 32 bits as long as the number of
  operands does.
* `Locals.get?_bindAll`: elements that are bound to different free slots stay side by side.
-/

namespace ReturnFlow

/-! ## Slots -/

namespace Method

/-- The number of slots that a value of a type takes. -/
def slotWidth (type : String) : Nat := if type = "J" ∨ type = "D" then 2 else 1

/-- The number of slots that values of the types take together. -/
def slotSpan (types : List String) : Nat := (types.map slotWidth).sum

/-- The first slot after the receiver. -/
def firstSlot (m : Method) : Nat := if m.isStatic then 0 else 1

/-- The number of slots that the receiver and the parameters take. -/
def slotCount (m : Method) : Nat := m.firstSlot + slotSpan m.params

theorem slotWidth_pos (type : String) : 0 < slotWidth type := by
  unfold slotWidth
  split <;> decide

theorem slotSpan_cons (type : String) (types : List String) :
    slotSpan (type :: types) = slotWidth type + slotSpan types := rfl

theorem slotsFrom_cons (slot : Nat) (type : String) (types : List String) :
    slotsFrom slot (type :: types) = slot :: slotsFrom (slot + slotWidth type) types := by
  have hwidth : slotWidth type = if Descriptor.isWide type then 2 else 1 := by
    simp [slotWidth, Descriptor.isWide]
  rw [slotsFrom, hwidth]

/-- The slot of a parameter comes after the widths of those before it. -/
theorem slotsFrom_eq (slot : Nat) (types : List String) :
    slotsFrom slot types =
      (List.range types.length).map fun i => slot + slotSpan (types.take i) := by
  induction types generalizing slot with
  | nil => rfl
  | cons type types ih =>
    rw [slotsFrom_cons, ih, List.length_cons, List.range_succ_eq_map, List.map_cons, List.map_map]
    congr 1
    refine List.map_congr_left fun i _ => ?_
    rw [Function.comp_apply, List.take_succ_cons, slotSpan_cons, Nat.add_assoc]

theorem length_slotsFrom (slot : Nat) (types : List String) :
    (slotsFrom slot types).length = types.length := by
  rw [slotsFrom_eq, List.length_map, List.length_range]

theorem le_of_mem_slotsFrom {slot s : Nat} {types : List String} (h : s ∈ slotsFrom slot types) :
    slot ≤ s := by
  rw [slotsFrom_eq] at h
  obtain ⟨i, -, rfl⟩ := List.mem_map.1 h
  exact Nat.le_add_right ..

theorem pairwise_slotsFrom (slot : Nat) (types : List String) :
    (slotsFrom slot types).Pairwise (· < ·) := by
  induction types generalizing slot with
  | nil => exact .nil
  | cons type types ih =>
    rw [slotsFrom_cons]
    refine .cons (fun s hs => ?_) (ih _)
    have hle := le_of_mem_slotsFrom hs
    have hpos := slotWidth_pos type
    omega

/-! ## Slots in 16 bits -/

/-- The slots of parameters as numbers of 16 bits; there are none if the next free slot gets too
large, even the one after the last parameter. -/
def slotsFrom16? (slot : UInt16) : List String → Option (List UInt16)
  | [] => some []
  | type :: types =>
    if slot.toNat + slotWidth type ≤ 65535 then
      (slotsFrom16? (slot + .ofNat (slotWidth type)) types).map (slot :: ·)
    else none

/-- The slots of the parameters of a method as numbers of 16 bits. -/
def paramSlots16? (m : Method) : Option (List UInt16) :=
  slotsFrom16? (.ofNat m.firstSlot) m.params

/-- The slots fit into 16 bits exactly if all of them together do. -/
theorem exists_slotsFrom16?_iff (slot : UInt16) (types : List String) :
    (∃ slots, slotsFrom16? slot types = some slots ∧
        slots.map UInt16.toNat = slotsFrom slot.toNat types) ↔
      slot.toNat + slotSpan types ≤ 65535 := by
  induction types generalizing slot with
  | nil =>
    have hlt := slot.toNat_lt
    refine ⟨fun _ => ?_, fun _ => ⟨[], rfl, rfl⟩⟩
    rw [slotSpan, List.map_nil, List.sum_nil]
    omega
  | cons type types ih =>
    rw [slotsFrom16?, slotSpan_cons, slotsFrom_cons]
    by_cases hfits : slot.toNat + slotWidth type ≤ 65535
    · -- as long as it fits, the sum of 16 bits is the sum
      have hnext : (slot + .ofNat (slotWidth type)).toNat = slot.toNat + slotWidth type := by
        rw [UInt16.toNat_add, UInt16.toNat_ofNat']
        omega
      have hrest := ih (slot + .ofNat (slotWidth type))
      rw [hnext] at hrest
      rw [if_pos hfits, ← Nat.add_assoc, ← hrest]
      constructor
      · rintro ⟨slots, hsome, hslots⟩
        obtain ⟨rest, hrest, rfl⟩ := Option.map_eq_some_iff.1 hsome
        exact ⟨rest, hrest, (List.cons.inj hslots).2⟩
      · rintro ⟨rest, hrest, hslots⟩
        exact ⟨slot :: rest, by rw [hrest]; rfl, by rw [List.map_cons, hslots]⟩
    · rw [if_neg hfits]
      refine ⟨?_, fun h => by omega⟩
      rintro ⟨slots, hsome, -⟩
      cases hsome

end Method

/-! ## Depths in 32 bits -/

namespace Method

/-- The change of the depth by a call as a number of 32 bits, which wraps around. -/
def stackDelta32 (m : Method) : Int32 :=
  (if m.returnsValue then 1 else 0) - .ofNat m.operands

theorem toInt_stackDelta32 {m : Method} (h : m.operands < 2 ^ 31) :
    m.stackDelta32.toInt = m.stackDelta := by
  have hoperands : (Int32.ofNat m.operands).toInt = m.operands := Int32.toInt_ofNat_of_lt h
  have hresults : (if m.returnsValue then (1 : Int32) else 0).toInt =
      if m.returnsValue then 1 else 0 := by split <;> rfl
  rw [stackDelta32, Int32.toInt_sub, hresults, hoperands, stackDelta]
  exact Int.bmod_eq_of_le (by split <;> omega) (by split <;> omega)

end Method

/-! ## Bindings -/

namespace Locals

theorem get?_empty (slot : Nat) : empty.get? slot = none := rfl

theorem size_bind {l : Locals} {slot : Nat} (h : l.get? slot = none) (e : Element) :
    (l.bind slot e).size = l.size + 1 := by
  have hkeep : l.entries.filter (fun entry => entry.1 ≠ slot) = l.entries := by
    refine List.filter_eq_self.2 fun entry hentry => ?_
    have hne : slot ≠ entry.1 := bne_iff_ne.1 (List.lookup_eq_none_iff.1 h entry hentry)
    exact decide_eq_true hne.symm
  rw [size, bind, hkeep]
  rfl

theorem bindAll_cons (l : Locals) (slot : Nat) (slots : List Nat) (e : Element)
    (es : List Element) : l.bindAll (slot :: slots) (e :: es) = (l.bind slot e).bindAll slots es :=
  rfl

theorem bindAll_nil (l : Locals) (slots : List Nat) : l.bindAll slots [] = l := by
  rw [bindAll, List.zip_nil_right]
  rfl

/-- A slot that stays free when another one is bound. -/
theorem get?_bind_eq_none {l : Locals} {slot : Nat} {slots : List Nat}
    (hslots : (slot :: slots).Nodup) (hfree : ∀ s ∈ slot :: slots, l.get? s = none) (e : Element) :
    ∀ s ∈ slots, (l.bind slot e).get? s = none := by
  intro s hs
  have hne : s ≠ slot := by
    rintro rfl
    exact (List.nodup_cons.1 hslots).1 hs
  rw [get?_bind, if_neg hne]
  exact hfree s (List.mem_cons_of_mem slot hs)

/-- Elements that are bound to different free slots are all found there, and nothing else is
added. -/
theorem get?_bindAll {l : Locals} {slots : List Nat} (hslots : slots.Nodup)
    (hfree : ∀ s ∈ slots, l.get? s = none) (es : List Element) {slot : Nat} {e : Element} :
    (l.bindAll slots es).get? slot = some e ↔
      l.get? slot = some e ∨ ∃ i : Nat, slots[i]? = some slot ∧ es[i]? = some e := by
  induction slots generalizing l es with
  | nil => simp [bindAll]
  | cons s slots ih =>
    cases es with
    | nil => simp [bindAll_nil]
    | cons e' es =>
      rw [bindAll_cons, ih (List.nodup_cons.1 hslots).2 (get?_bind_eq_none hslots hfree e'),
        get?_bind]
      -- a pair of the lists is the first one or one of the rest
      have hpairs : (∃ i : Nat, (s :: slots)[i]? = some slot ∧ (e' :: es)[i]? = some e) ↔
          (s = slot ∧ e' = e) ∨ ∃ i : Nat, slots[i]? = some slot ∧ es[i]? = some e := by
        constructor
        · rintro ⟨_ | i, hslot, he⟩
          · exact Or.inl ⟨Option.some.inj hslot, Option.some.inj he⟩
          · exact Or.inr ⟨i, hslot, he⟩
        · rintro (⟨rfl, rfl⟩ | ⟨i, hi⟩)
          · exact ⟨0, rfl, rfl⟩
          · exact ⟨i + 1, hi⟩
      rw [hpairs, ← or_assoc]
      refine or_congr_left ?_
      by_cases hs : slot = s
      · subst hs
        simp [hfree slot List.mem_cons_self]
      · simp [hs, Ne.symm hs]

theorem size_bindAll {l : Locals} {slots : List Nat} (hslots : slots.Nodup)
    (hfree : ∀ s ∈ slots, l.get? s = none) (es : List Element) :
    (l.bindAll slots es).size = l.size + min slots.length es.length := by
  induction slots generalizing l es with
  | nil => simp [bindAll]
  | cons s slots ih =>
    cases es with
    | nil => simp [bindAll_nil]
    | cons e es =>
      rw [bindAll_cons, ih (List.nodup_cons.1 hslots).2 (get?_bind_eq_none hslots hfree e),
        size_bind (hfree s List.mem_cons_self), List.length_cons, List.length_cons]
      omega

/-- The variables before the arguments of a call are bound. -/
def ofReceiver (m : Method) (receiver : Option Element) : Locals :=
  if m.isStatic then empty
  else empty.bind 0 (receiver.getD (.unknown (Descriptor.ofClass m.owner)))

theorem ofCall_eq (m : Method) (receiver : Option Element) (args : List Element) :
    ofCall m receiver args = (ofReceiver m receiver).bindAll m.paramSlots args := rfl

theorem get?_ofReceiver {m : Method} {receiver : Option Element} {slot : Nat} {e : Element} :
    (ofReceiver m receiver).get? slot = some e ↔
      m.isStatic = false ∧ slot = 0 ∧
        e = receiver.getD (.unknown (Descriptor.ofClass m.owner)) := by
  unfold ofReceiver
  split
  · next hstatic => simp [hstatic, get?_empty]
  · next hstatic =>
    rw [get?_bind, get?_empty]
    by_cases hslot : slot = 0
    · simp [hslot, hstatic, eq_comm]
    · simp [hslot]

/-- The parameters come after the receiver. -/
theorem get?_ofReceiver_eq_none (m : Method) (receiver : Option Element) :
    ∀ s ∈ m.paramSlots, (ofReceiver m receiver).get? s = none := by
  intro s hs
  have hle : m.firstSlot ≤ s := Method.le_of_mem_slotsFrom hs
  rw [Option.eq_none_iff_forall_ne_some]
  intro e he
  obtain ⟨hstatic, hzero, -⟩ := get?_ofReceiver.1 he
  simp [Method.firstSlot, hstatic, hzero] at hle

theorem size_ofReceiver (m : Method) (receiver : Option Element) :
    (ofReceiver m receiver).size = m.firstSlot := by
  unfold ofReceiver Method.firstSlot
  split
  · rfl
  · exact size_bind (get?_empty 0) _

end Locals

/-- **Frames are laid out without collisions.** The slot of a parameter is 1 for the receiver of an
instance method plus the widths of the parameters before it, so that slots are strictly increasing;
16 bits hold them, and the next free slot at each step, as long as they hold the number of all
slots. A call binds slot 0 to the receiver of an instance method, the slot of each parameter that an
argument is passed for to that argument, and nothing else. -/
theorem frame_layout (m : Method) :
    m.paramSlots = (List.range m.arity).map (fun i =>
      (if m.isStatic then 0 else 1) + Method.slotSpan (m.params.take i)) ∧
    m.paramSlots.Pairwise (· < ·) ∧
    (m.slotCount ≤ 65535 ↔
      ∃ slots, m.paramSlots16? = some slots ∧ slots.map UInt16.toNat = m.paramSlots) ∧
    ∀ receiver args,
      (∀ slot e, (Locals.ofCall m receiver args).get? slot = some e ↔
        (m.isStatic = false ∧ slot = 0 ∧
          e = receiver.getD (.unknown (Descriptor.ofClass m.owner))) ∨
        ∃ i : Nat, m.paramSlots[i]? = some slot ∧ args[i]? = some e) ∧
      (Locals.ofCall m receiver args).size =
        (if m.isStatic then 0 else 1) + min m.arity args.length := by
  have hincreasing : m.paramSlots.Pairwise (· < ·) := Method.pairwise_slotsFrom _ m.params
  have hnodup : m.paramSlots.Nodup := hincreasing.imp Nat.ne_of_lt
  refine ⟨Method.slotsFrom_eq _ m.params, hincreasing, ?_, fun receiver args => ?_⟩
  · have hfirst : (UInt16.ofNat m.firstSlot).toNat = m.firstSlot := by
      unfold Method.firstSlot
      split <;> rfl
    have hfits := Method.exists_slotsFrom16?_iff (.ofNat m.firstSlot) m.params
    rw [hfirst] at hfits
    exact hfits.symm
  · have hfree := Locals.get?_ofReceiver_eq_none m receiver
    rw [Locals.ofCall_eq]
    refine ⟨fun slot e => ?_, ?_⟩
    · rw [Locals.get?_bindAll hnodup hfree, Locals.get?_ofReceiver]
    · rw [Locals.size_bindAll hnodup hfree, Locals.size_ofReceiver,
        show m.paramSlots.length = m.arity from Method.length_slotsFrom _ m.params]
      rfl

end ReturnFlow

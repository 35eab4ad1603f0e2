import Mathlib.Logic.Relation
import Mathlib.Order.Bounds.Basic
import Mathlib.Tactic.Tauto
import ReturnFlow.Proofs.Statement

/-!
The slice of a body as a least set.

* `Body.Closed`: what a set of positions must hold to be a slice: the statements of the exits that
  hand out a value, and with a load of a followed variable every statement that uses its slot.
* `Slice.Pick`: one turn of the search for the slice, where any pending end may be looked at next;
  `Slice.grow_picks` says that `Slice.grow` is such a search.
* `Slice.Inv`: what holds throughout a search, in whatever order; at its end, the covered positions
  are the least closed set (`Slice.Inv.isLeast`).
-/

namespace ReturnFlow

/-! ## Reading and using variables -/

namespace Instruction

/-- Loads the slot as a variable that is followed: without a name, or with one not ignored. -/
def Reads (ignored : List String) (i : Instruction) (slot : Nat) : Prop :=
  ∃ type name, i.op = .load slot type name ∧ ∀ n, name = some n → n ∉ ignored

/-- Loads or stores the slot. -/
def Uses (i : Instruction) (slot : Nat) : Prop :=
  ∃ type name, i.op = .load slot type name ∨ i.op = .store slot type name

theorem slot?_eq_some_iff {i : Instruction} {slot : Nat} :
    i.slot? = some slot ↔ i.Uses slot := by
  unfold slot? Uses
  cases i.op <;> simp [Operation.slot?, eq_comm]

end Instruction

namespace Body

variable {b : Body}

theorem readSlot?_eq_some_iff {i : Instruction} {slot : Nat} :
    b.readSlot? i = some slot ↔ i.Reads b.ignored slot := by
  unfold readSlot? Instruction.Reads
  cases i.op with
  | load slot' type name =>
    cases name with
    | none => simp [eq_comm]
    | some name => by_cases hname : name ∈ b.ignored <;> simp [hname, eq_comm]
  | _ => simp

theorem mem_exits {e : Nat} :
    e ∈ b.exits ↔ ∃ i, b.code[e]? = some i ∧ i.isExit = true ∧ 0 < b.depths.before e := by
  simp only [exits, List.mem_filterMap, Prod.exists, List.mk_mem_zipIdx_iff_getElem?]
  constructor
  · rintro ⟨i, p, hp, hif⟩
    split at hif
    · rename_i hcond
      cases hif
      simp only [Bool.and_eq_true, decide_eq_true_eq] at hcond
      exact ⟨i, hp, hcond⟩
    · cases hif
  · rintro ⟨i, hi, hexit, hpos⟩
    exact ⟨i, e, hi, by simp [hexit, hpos]⟩

theorem mem_uses {slot e : Nat} :
    e ∈ b.uses slot ↔
      ∃ q j, b.code[q]? = some j ∧ j.Uses slot ∧ b.depths.stop? q = some e := by
  simp only [uses, List.mem_filterMap, Prod.exists, List.mk_mem_zipIdx_iff_getElem?]
  constructor
  · rintro ⟨j, q, hq, hif⟩
    split at hif
    · rename_i hslot
      exact ⟨q, j, hq, Instruction.slot?_eq_some_iff.1 hslot, hif⟩
    · cases hif
  · rintro ⟨q, j, hq, huses, hstop⟩
    exact ⟨j, q, hq, by rw [if_pos (Instruction.slot?_eq_some_iff.2 huses), hstop]⟩

theorem mem_readSlots {s : Span} {slot : Nat} :
    slot ∈ b.readSlots s ↔
      ∃ p ∈ Set.Icc s.start s.stop, ∃ i, b.code[p]? = some i ∧ i.Reads b.ignored slot := by
  rw [readSlots, List.mem_filterMap]
  simp only [readSlot?_eq_some_iff]
  constructor
  · rintro ⟨i, hi, hreads⟩
    obtain ⟨k, hk⟩ := List.mem_iff_getElem?.1 hi
    rw [List.getElem?_take] at hk
    split at hk
    · rw [List.getElem?_drop] at hk
      exact ⟨s.start + k, ⟨by omega, by omega⟩, i, hk, hreads⟩
    · cases hk
  · rintro ⟨p, ⟨hstart, hstop⟩, i, hi, hreads⟩
    obtain ⟨k, rfl⟩ := Nat.exists_eq_add_of_le hstart
    refine ⟨i, List.mem_iff_getElem?.2 ⟨k, ?_⟩, hreads⟩
    rw [List.getElem?_take, if_pos (by omega), List.getElem?_drop, hi]

/-! ## Closed sets -/

/-- The positions of the statement that ends at a position. -/
def statement (b : Body) (e : Nat) : Set Nat :=
  Set.Icc (b.depths.start e) e

/-- A set of positions that holds the statements of the exits with a value, and with each load of
a followed variable all the statements that use its slot. -/
structure Closed (b : Body) (S : Set Nat) : Prop where
  exit : ∀ p i, b.code[p]? = some i → i.isExit = true → 0 < b.depths.before p →
    b.statement p ⊆ S
  follow : ∀ p ∈ S, ∀ i slot, b.code[p]? = some i → i.Reads b.ignored slot →
    ∀ q j e, b.code[q]? = some j → j.Uses slot → b.depths.stop? q = some e → b.statement e ⊆ S

/-- The last position of a statement. -/
def IsEnd (b : Body) (e : Nat) : Prop :=
  e < b.depths.size ∧ b.depths.after e = 0

section
variable (hb : StackDepths.compute b.code = .ok b.depths)
include hb

theorem isEnd_of_mem_exits {e : Nat} (h : e ∈ b.exits) : b.IsEnd e := by
  obtain ⟨i, hi, hexit, -⟩ := mem_exits.1 h
  refine ⟨?_, StackDepths.after_of_isExit hb hi hexit⟩
  rw [StackDepths.size_of_compute hb]
  exact (List.getElem?_eq_some_iff.1 hi).1

theorem IsEnd.lt_length {e : Nat} (h : b.IsEnd e) : e < b.code.length :=
  h.1.trans_eq (StackDepths.size_of_compute hb)

end

theorem isEnd_of_stop? {i e : Nat} (h : b.depths.stop? i = some e) : b.IsEnd e := by
  obtain ⟨-, hsize, hzero, -⟩ := StackDepths.stop?_eq_some_iff.1 h
  exact ⟨hsize, hzero⟩

theorem isEnd_of_mem_uses {slot e : Nat} (h : e ∈ b.uses slot) : b.IsEnd e := by
  obtain ⟨q, j, -, -, hstop⟩ := mem_uses.1 h
  exact isEnd_of_stop? hstop

end Body

/-! ## The search -/

namespace Slice

variable {b : Body} {s t : Slice}

/-- One turn of the search: some pending end is put aside if it is settled, and taken if not. -/
inductive Pick (b : Body) : Slice → Slice → Prop
  | skip {s : Slice} {e : Nat} {rest : List Nat} : s.pending.Perm (e :: rest) →
      s.isSettled b e = true → Pick b s { s with pending := rest }
  | take {s : Slice} {e : Nat} {rest : List Nat} : s.pending.Perm (e :: rest) →
      s.isSettled b e = false → Pick b s (s.visit b e rest)

theorem covers_iff {p : Nat} :
    s.covers p = true ↔ ∃ q ∈ s.spans, p ∈ Set.Icc q.start q.stop := by
  simp [covers, Span.covers]

theorem covers_visit {e p : Nat} {rest : List Nat} :
    (s.visit b e rest).covers p = true ↔ p ∈ b.statement e ∨ s.covers p = true := by
  simp [covers, visit, Span.covers, Body.statement]

theorem slots_visit {e : Nat} {rest : List Nat} :
    (s.visit b e rest).slots =
      ((b.readSlots ⟨b.depths.start e, e⟩).filter fun slot =>
        !s.slots.contains slot).eraseDups.reverse ++ s.slots := by
  simp [slots, visit, Function.comp_def]

theorem mem_slots_visit {e slot : Nat} {rest : List Nat} :
    slot ∈ (s.visit b e rest).slots ↔
      slot ∈ b.readSlots ⟨b.depths.start e, e⟩ ∨ slot ∈ s.slots := by
  rw [slots_visit, List.mem_append, List.mem_reverse, List.mem_eraseDups, List.mem_filter]
  simp only [List.contains_eq_mem, Bool.not_eq_true', decide_eq_false_iff_not]
  tauto

theorem mem_pending_visit {e e' : Nat} {rest : List Nat} :
    e' ∈ (s.visit b e rest).pending ↔
      ((∃ slot ∈ b.readSlots ⟨b.depths.start e, e⟩, slot ∉ s.slots ∧ e' ∈ b.uses slot) ∧
        (s.visit b e rest).covers e' = false) ∨ e' ∈ rest := by
  simp only [visit, covers, List.mem_append, List.mem_reverse, List.mem_filter, List.mem_flatMap,
    List.mem_eraseDups, List.contains_eq_mem, Bool.not_eq_true', decide_eq_false_iff_not, and_assoc]

/-- What holds throughout a search: whole statements are taken; nothing that a closed set needs is
forgotten, being taken or pending; and nothing is taken that some closed set lacks. -/
structure Inv (b : Body) (s : Slice) : Prop where
  span : ∀ q ∈ s.spans, q.start = b.depths.start q.stop ∧ b.IsEnd q.stop
  ends : ∀ e ∈ s.pending, b.IsEnd e
  exits : ∀ e ∈ b.exits, s.covers e = true ∨ e ∈ s.pending
  reads : ∀ p i slot, s.covers p = true → b.code[p]? = some i → i.Reads b.ignored slot →
    slot ∈ s.slots
  uses : ∀ slot ∈ s.slots, ∀ e ∈ b.uses slot, s.covers e = true ∨ e ∈ s.pending
  least : ∀ S, b.Closed S →
    (∀ p, s.covers p = true → p ∈ S) ∧ ∀ e ∈ s.pending, b.statement e ⊆ S

section
variable (hb : StackDepths.compute b.code = .ok b.depths)
include hb

theorem inv_init : Inv b (init b) where
  span := by simp [init]
  ends e he := Body.isEnd_of_mem_exits hb (List.mem_reverse.1 he)
  exits e he := Or.inr (List.mem_reverse.2 he)
  reads p i slot hp := by simp [covers, init] at hp
  uses slot hslot := by simp [slots, init] at hslot
  least S hS := by
    refine ⟨fun p hp => by simp [covers, init] at hp, fun e he => ?_⟩
    obtain ⟨i, hi, hexit, hpos⟩ := Body.mem_exits.1 (List.mem_reverse.1 he)
    exact hS.exit e i hi hexit hpos

theorem Inv.covers_of_isSettled (h : Inv b s) {e : Nat} (he : e ∈ s.pending)
    (hset : s.isSettled b e = true) : s.covers e = true := by
  have hlt := (h.ends e he).lt_length hb
  simpa [isSettled, Nat.not_le.2 hlt] using hset

/-- Putting a settled end aside loses nothing. -/
theorem Inv.skip (h : Inv b s) {e : Nat} {rest : List Nat} (hp : s.pending.Perm (e :: rest))
    (hset : s.isSettled b e = true) : Inv b { s with pending := rest } := by
  have hcov := h.covers_of_isSettled hb (hp.mem_iff.2 List.mem_cons_self) hset
  have hrest : ∀ e' ∈ rest, e' ∈ s.pending := fun e' he' =>
    hp.mem_iff.2 (List.mem_cons_of_mem e he')
  have hkeep : ∀ e', s.covers e' = true ∨ e' ∈ s.pending → s.covers e' = true ∨ e' ∈ rest := by
    rintro e' (hc | he')
    · exact Or.inl hc
    · rcases List.mem_cons.1 (hp.mem_iff.1 he') with rfl | he'
      · exact Or.inl hcov
      · exact Or.inr he'
  exact {
    span := h.span
    ends := fun e' he' => h.ends e' (hrest e' he')
    exits := fun e' he' => hkeep e' (h.exits e' he')
    reads := h.reads
    uses := fun slot hslot e' he' => hkeep e' (h.uses slot hslot e' he')
    least := fun S hS => ⟨(h.least S hS).1, fun e' he' => (h.least S hS).2 e' (hrest e' he')⟩ }

omit hb in
/-- Taking a pending statement keeps what its reads ask for pending. -/
theorem Inv.visit (h : Inv b s) {e : Nat} {rest : List Nat} (hp : s.pending.Perm (e :: rest)) :
    Inv b (s.visit b e rest) := by
  have he : e ∈ s.pending := hp.mem_iff.2 List.mem_cons_self
  have hkeep : ∀ e', s.covers e' = true ∨ e' ∈ s.pending →
      (s.visit b e rest).covers e' = true ∨ e' ∈ (s.visit b e rest).pending := by
    rintro e' (hc | he')
    · exact Or.inl (covers_visit.2 (Or.inr hc))
    · rcases List.mem_cons.1 (hp.mem_iff.1 he') with rfl | he'
      · exact Or.inl (covers_visit.2 (Or.inl ⟨b.depths.start_le e', le_rfl⟩))
      · exact Or.inr (mem_pending_visit.2 (Or.inr he'))
  refine ⟨?_, ?_, fun e' he' => hkeep e' (h.exits e' he'), ?_, ?_, ?_⟩
  · intro q hq
    rcases List.mem_cons.1 hq with rfl | hq
    · exact ⟨rfl, h.ends e he⟩
    · exact h.span q hq
  · intro e' he'
    rcases mem_pending_visit.1 he' with ⟨⟨slot, -, -, huse⟩, -⟩ | he'
    · exact Body.isEnd_of_mem_uses huse
    · exact h.ends e' (hp.mem_iff.2 (List.mem_cons_of_mem e he'))
  · intro p i slot hcov hi hreads
    rw [mem_slots_visit]
    rcases covers_visit.1 hcov with hp' | hcov
    · exact Or.inl (Body.mem_readSlots.2 ⟨p, hp', i, hi, hreads⟩)
    · exact Or.inr (h.reads p i slot hcov hi hreads)
  · intro slot hslot e' he'
    by_cases hold : slot ∈ s.slots
    · exact hkeep e' (h.uses slot hold e' he')
    · have hread := (mem_slots_visit.1 hslot).resolve_right hold
      cases hcov : (s.visit b e rest).covers e' with
      | true => exact Or.inl rfl
      | false => exact Or.inr (mem_pending_visit.2 (Or.inl ⟨⟨slot, hread, hold, he'⟩, hcov⟩))
  · intro S hS
    obtain ⟨hcovS, hpendS⟩ := h.least S hS
    refine ⟨fun p hcov => ?_, fun e' he' => ?_⟩
    · rcases covers_visit.1 hcov with hp' | hcov
      · exact hpendS e he hp'
      · exact hcovS p hcov
    · rcases mem_pending_visit.1 he' with ⟨⟨slot, hread, -, huse⟩, -⟩ | he'
      · obtain ⟨p, hp', i, hi, hreads⟩ := Body.mem_readSlots.1 hread
        obtain ⟨q, j, hq, huses, hstop⟩ := Body.mem_uses.1 huse
        exact hS.follow p (hpendS e he hp') i slot hi hreads q j e' hq huses hstop
      · exact hpendS e' (hp.mem_iff.2 (List.mem_cons_of_mem e he'))

theorem Inv.pick (h : Inv b s) (hst : Pick b s t) : Inv b t := by
  cases hst with
  | skip hp hset => exact h.skip hb hp hset
  | take hp _ => exact h.visit hp

theorem inv_of_picks (hst : Relation.ReflTransGen (Pick b) (init b) t) : Inv b t := by
  induction hst with
  | refl => exact inv_init hb
  | tail _ hpick ih => exact ih.pick hb hpick

/-- A statement is covered as soon as its end is. -/
theorem Inv.statement_covered (h : Inv b s) {e : Nat} (he : b.IsEnd e) (hcov : s.covers e = true) :
    b.statement e ⊆ {p | s.covers p = true} := by
  obtain ⟨q, hq, hmem⟩ := covers_iff.1 hcov
  obtain ⟨hstart, hsize, -⟩ := h.span q hq
  have heq : e = q.stop := by
    apply (StackDepths.linked_of_compute hb).end_unique he.2 hsize
    rwa [← hstart]
  intro p hp
  rw [Body.statement, heq, ← hstart] at hp
  exact covers_iff.2 ⟨q, hq, hp⟩

/-- At the end of a search, the covered positions are the least closed set. -/
theorem Inv.isLeast (h : Inv b s) (hnil : s.pending = []) :
    IsLeast {S | b.Closed S} {p | s.covers p = true} := by
  refine ⟨⟨?_, ?_⟩, fun S hS p hp => (h.least S hS).1 p hp⟩
  · intro p i hi hexit hpos
    have hmem : p ∈ b.exits := Body.mem_exits.2 ⟨i, hi, hexit, hpos⟩
    have hcov := (h.exits p hmem).resolve_right (by simp [hnil])
    exact h.statement_covered hb (Body.isEnd_of_mem_exits hb hmem) hcov
  · intro p hp i slot hi hreads q j e hq huses hstop
    have hmem : e ∈ b.uses slot := Body.mem_uses.2 ⟨q, j, hq, huses, hstop⟩
    have hcov := (h.uses slot (h.reads p i slot hp hi hreads) e hmem).resolve_right (by simp [hnil])
    exact h.statement_covered hb (Body.isEnd_of_stop? hstop) hcov

theorem Inv.covers_lt (h : Inv b s) {p : Nat} (hcov : s.covers p = true) : p < b.code.length := by
  obtain ⟨q, hq, -, hle⟩ := covers_iff.1 hcov
  exact hle.trans_lt ((h.span q hq).2.lt_length hb)

end

/-! ## The search from the front -/

theorem picks_dropWhile (pending : List Nat) :
    Relation.ReflTransGen (Pick b) { s with pending := pending }
      { s with pending := pending.dropWhile (s.isSettled b) } := by
  induction pending with
  | nil => exact .refl
  | cons e rest ih =>
    rw [List.dropWhile_cons]
    split
    · rename_i hset
      exact .head (Pick.skip (List.Perm.refl _) hset) ih
    · exact .refl

/-- `grow` looks at the pending ends from the front until none is left. -/
theorem grow_picks (b : Body) (s : Slice) :
    Relation.ReflTransGen (Pick b) s (s.grow b) ∧ (s.grow b).pending = [] := by
  fun_induction grow b s with
  | case1 s h =>
    refine ⟨?_, rfl⟩
    have hdrop := picks_dropWhile (b := b) (s := s) s.pending
    rwa [h] at hdrop
  | case2 s e rest h _ ih =>
    have hdrop := picks_dropWhile (b := b) (s := s) s.pending
    rw [h] at hdrop
    have hset : s.isSettled b e = false := by
      have hhead := List.head_dropWhile_not (s.isSettled b) (l := s.pending) (by simp [h])
      simpa [h] using hhead
    exact ⟨(hdrop.tail (Pick.take (List.Perm.refl _) hset)).trans ih.1, ih.2⟩

theorem mem_positions {size p : Nat} :
    p ∈ s.positions size ↔ p < size ∧ s.covers p = true := by
  rw [positions, List.mem_filter, List.mem_range]

end Slice

theorem Body.inv_slice {b : Body} (hb : StackDepths.compute b.code = .ok b.depths) :
    Slice.Inv b b.slice :=
  Slice.inv_of_picks hb (Slice.grow_picks b (Slice.init b)).1

theorem Body.mem_positions_slice {b : Body} (hb : StackDepths.compute b.code = .ok b.depths)
    {p : Nat} : p ∈ b.slice.positions b.code.length ↔ b.slice.covers p = true := by
  rw [Slice.mem_positions]
  exact and_iff_right_of_imp fun hp => (b.inv_slice hb).covers_lt hb hp

/-- The covered positions of the finished slice are the least closed set. -/
theorem Body.isLeast_slice {b : Body} (hb : StackDepths.compute b.code = .ok b.depths) :
    IsLeast {S | b.Closed S} {p | b.slice.covers p = true} :=
  (b.inv_slice hb).isLeast hb (Slice.grow_picks b (Slice.init b)).2

/-- **The slice is the least closed set.** Its positions are listed in ascending order, and every
search that starts from the exits and runs until nothing is pending finds the same ones, whatever
it looks at first. -/
theorem slice_positions_isLeast {code : List Instruction} {depths : StackDepths}
    (ignored : List String) (h : StackDepths.compute code = .ok depths) :
    let b : Body := ⟨code, depths, ignored⟩
    (b.slice.positions code.length).Pairwise (· < ·) ∧
      IsLeast {S | b.Closed S} {p | p ∈ b.slice.positions code.length} ∧
      ∀ t, Relation.ReflTransGen (Slice.Pick b) (Slice.init b) t → t.pending = [] →
        t.positions code.length = b.slice.positions code.length := by
  intro b
  have hb : StackDepths.compute b.code = .ok b.depths := h
  have hleast := b.isLeast_slice hb
  refine ⟨List.Pairwise.filter _ List.pairwise_lt_range, ?_, fun t ht hnil => ?_⟩
  · have hset : {p | p ∈ b.slice.positions code.length} = {p | b.slice.covers p = true} := by
      ext p
      rw [Set.mem_ofPred_eq, Slice.mem_positions]
      exact and_iff_right_of_imp fun hp => (b.inv_slice hb).covers_lt hb hp
    rw [hset]
    exact hleast
  · have hcov := ((Slice.inv_of_picks hb ht).isLeast hb hnil).unique hleast
    refine List.filter_congr fun p _ => ?_
    rw [Bool.eq_iff_iff]
    exact Set.ext_iff.1 hcov p

/-- A body that returns a variable copied from another one, with a store in between that nothing
reads. -/
def chained : List Instruction :=
  [⟨.push (.int 1) "I", none⟩, ⟨.store 1 "I" none, none⟩,
   ⟨.load 1 "I" none, none⟩, ⟨.store 2 "I" none, none⟩,
   ⟨.push (.int 2) "I", none⟩, ⟨.store 3 "I" none, none⟩,
   ⟨.load 2 "I" none, none⟩, ⟨.return, none⟩]

theorem slice_chained_isLeast :
    let depths : StackDepths := ⟨[⟨0, 1⟩, ⟨1, 0⟩, ⟨0, 1⟩, ⟨1, 0⟩, ⟨0, 1⟩, ⟨1, 0⟩, ⟨0, 1⟩, ⟨1, 0⟩]⟩
    StackDepths.compute chained = .ok depths ∧
      IsLeast {S | Body.Closed ⟨chained, depths, ["this"]⟩ S} {p | p ∈ [0, 1, 2, 3, 6, 7]} := by
  intro depths
  have h : StackDepths.compute chained = .ok depths := rfl
  have hpos : (Body.slice ⟨chained, depths, ["this"]⟩).positions chained.length =
      [0, 1, 2, 3, 6, 7] := by decide +kernel
  rw [← hpos]
  exact ⟨h, (slice_positions_isLeast ["this"] h).2.1⟩

end ReturnFlow

import Mathlib.Data.List.Nodup
import ReturnFlow.Event
import ReturnFlow.Proofs.Closure

/-!
The search for the slice as a loop over tables, and how many turns and statements it takes.

* `Worklist`: the tables of the loop. Every look-up in them is checked, so that a result of
  `Worklist.run?` means that no index fell outside its table.
* `Slice.turn?_tables`: one turn of the loop looks at the first pending end of the slice whose
  tables it works on.
* `Slice.outstanding`: the ends that can still come up. Each turn lowers their number, whatever it
  looks at, and at first there are no more of them than instructions.
* `Slice.iterations_of_picks`: at every point of a search, the statements taken are as many as the
  covered positions that are entered with an empty stack.
-/

namespace ReturnFlow

/-- The tables of the search: a mark for each instruction, the slots followed so far, the ends to
look at, the next one at the front, and the number of statements taken. -/
structure Worklist where
  marks : List Bool
  handled : List Nat
  stack : List Nat
  iterations : Nat
  deriving DecidableEq, Repr

namespace Worklist

/-- Puts an exit on the stack if it is entered with a value. -/
def seed? (b : Body) (w : Worklist) (x : Instruction × Nat) : Option Worklist :=
  if x.1.isExit then
    (b.depths.get? x.2).map fun d => if 0 < d.before then { w with stack := x.2 :: w.stack } else w
  else some w

/-- Nothing is marked, and the last exit is on top. -/
def init? (b : Body) : Option Worklist :=
  b.code.zipIdx.foldlM (seed? b) ⟨List.replicate b.code.length false, [], [], 0⟩

/-- Handles a slot unless this was done before; beside the tables stand the slots that were new. -/
def handle (w : Worklist × List Nat) (slot : Nat) : Worklist × List Nat :=
  if slot ∈ w.1.handled then w
  else ({ w.1 with handled := slot :: w.1.handled }, w.2 ++ [slot])

/-- Marks a position and handles the slot that is read there. -/
def mark? (b : Body) (w : Worklist × List Nat) (p : Nat) : Option (Worklist × List Nat) :=
  if p < w.1.marks.length then
    b.code[p]?.map fun i =>
      let marked := ({ w.1 with marks := w.1.marks.set p true }, w.2)
      (b.readSlot? i).elim marked (handle marked)
  else none

/-- Puts the end of a statement on the stack unless it is marked. -/
def push? (w : Worklist) (e : Nat) : Option Worklist :=
  w.marks[e]?.map fun marked => if marked then w else { w with stack := e :: w.stack }

/-- Takes the statement with the given end: marks it from its start on, then pushes the ends of
the statements that use one of the new slots. -/
def take? (b : Body) (w : Worklist) (e : Nat) : Option Worklist := do
  let start ← b.depths.start? e
  let read ← (List.range' start (e + 1 - start)).foldlM (mark? b)
    ({ w with iterations := w.iterations + 1 }, [])
  (read.2.flatMap b.uses).foldlM push? read.1

/-- One turn: the top of the stack is dropped if it is marked, and its statement taken if not. -/
def turn? (b : Body) (w : Worklist) : Option Worklist :=
  match w.stack with
  | [] => none
  | e :: rest => do
    let marked ← w.marks[e]?
    if marked then some { w with stack := rest } else take? b { w with stack := rest } e

/-- The given number of turns; there is no turn with an empty stack. -/
def run? (b : Body) : Nat → Worklist → Option Worklist
  | 0, w => some w
  | n + 1, w => (turn? b w).bind (run? b n)

/-- The marked positions, ascending. -/
def positions (w : Worklist) : List Nat :=
  w.marks.zipIdx.filterMap fun x => if x.1 then some x.2 else none

end Worklist

/-! ## Passes over the tables -/

/-- The slots read that were not followed before, each once. -/
def Slice.fresh (slots read : List Nat) : List Nat :=
  (read.filter fun slot => !slots.contains slot).eraseDups

theorem Slice.fresh_cons (slots read : List Nat) (slot : Nat) :
    fresh slots (slot :: read) =
      if slot ∈ slots then fresh slots read else slot :: fresh (slot :: slots) read := by
  unfold fresh
  split
  case isTrue h => simp [h]
  case isFalse h =>
    rw [List.filter_cons_of_pos (by simpa using h), List.eraseDups_cons, List.filter_filter]
    simp only [List.contains_cons, Bool.not_or]

namespace Worklist

open Slice (fresh fresh_cons)

variable {b : Body} {marks : List Bool} {handled stack new : List Nat} {n : Nat}

theorem foldlM_seed? {xs : List (Instruction × Nat)} (h : ∀ x ∈ xs, x.2 < b.depths.size) :
    xs.foldlM (seed? b) ⟨marks, handled, stack, n⟩ =
      some ⟨marks, handled, (xs.filterMap fun x =>
        if x.1.isExit && decide (0 < b.depths.before x.2) then some x.2 else none).reverse ++ stack,
        n⟩ := by
  induction xs generalizing stack with
  | nil => rfl
  | cons x xs ih =>
    have hlt : x.2 < b.depths.entries.length := h x List.mem_cons_self
    have hseed : seed? b ⟨marks, handled, stack, n⟩ x =
        some ⟨marks, handled, if x.1.isExit && decide (0 < b.depths.before x.2) then x.2 :: stack
          else stack, n⟩ := by
      unfold seed?
      cases x.1.isExit with
      | false => simp
      | true =>
        simp only [StackDepths.before, StackDepths.get?, List.getElem?_eq_getElem hlt,
          Option.map_some, Option.elim_some, if_true, Bool.true_and, decide_eq_true_eq]
        split <;> rfl
    rw [List.foldlM_cons, hseed, Option.bind_eq_bind, Option.bind_some,
      ih fun x' hx' => h x' (List.mem_cons_of_mem x hx')]
    by_cases hx : (x.1.isExit && decide (0 < b.depths.before x.2)) = true
    · rw [if_pos hx, List.filterMap_cons_some (by rw [if_pos hx])]
      simp
    · rw [if_neg hx, List.filterMap_cons_none (by rw [if_neg hx])]

/-- Marking positions of the code handles the slots read there that are new. -/
theorem foldlM_mark? {ps : List Nat} (h : ∀ p ∈ ps, p < marks.length ∧ p < b.code.length) :
    let slots := fresh handled (ps.filterMap fun p => b.code[p]?.bind b.readSlot?)
    ps.foldlM (mark? b) (⟨marks, handled, stack, n⟩, new) =
      some (⟨ps.foldl (fun marks p => marks.set p true) marks, slots.reverse ++ handled, stack, n⟩,
        new ++ slots) := by
  induction ps generalizing marks handled new with
  | nil => simp [fresh]
  | cons p ps ih =>
    obtain ⟨hmarks, hcode⟩ := h p List.mem_cons_self
    have hps : ∀ q ∈ ps, q < (marks.set p true).length ∧ q < b.code.length := by
      intro q hq
      rw [List.length_set]
      exact h q (List.mem_cons_of_mem p hq)
    have hi : b.code[p]? = some b.code[p] := List.getElem?_eq_getElem hcode
    simp only [List.foldlM_cons, mark?, hmarks, if_true, hi, Option.map_some, Option.bind_eq_bind,
      Option.bind_some, List.foldl_cons]
    cases hslot : b.readSlot? b.code[p] with
    | none =>
      rw [List.filterMap_cons_none (by rw [hi]; exact hslot), Option.elim_none, ih hps]
    | some slot =>
      rw [List.filterMap_cons_some (by rw [hi]; exact hslot), Option.elim_some, handle, fresh_cons]
      by_cases hmem : slot ∈ handled
      · rw [if_pos hmem, if_pos hmem, ih hps]
      · rw [if_neg hmem, if_neg hmem, ih hps]
        simp

theorem foldlM_push? {es : List Nat} {covers : Nat → Bool}
    (h : ∀ e ∈ es, marks[e]? = some (covers e)) :
    es.foldlM push? ⟨marks, handled, stack, n⟩ =
      some ⟨marks, handled, (es.filter fun e => !covers e).reverse ++ stack, n⟩ := by
  induction es generalizing stack with
  | nil => rfl
  | cons e es ih =>
    have hes : ∀ e' ∈ es, marks[e']? = some (covers e') := fun e' he' =>
      h e' (List.mem_cons_of_mem e he')
    simp only [List.foldlM_cons, push?, h e List.mem_cons_self, Option.map_some,
      Option.bind_eq_bind, Option.bind_some]
    cases hc : covers e with
    | true => simp [ih hes, hc]
    | false => simp [ih hes, hc]

theorem set_map_range (covers : Nat → Bool) (n p : Nat) :
    ((List.range n).map covers).set p true =
      (List.range n).map fun i => decide (i = p) || covers i := by
  refine List.ext_getElem (by simp) fun i h _ => ?_
  simp only [List.getElem_set, List.getElem_map, List.getElem_range]
  by_cases hi : p = i
  · simp [hi]
  · simp [hi, Ne.symm hi]

theorem foldl_set_map_range (ps : List Nat) (covers : Nat → Bool) (n : Nat) :
    ps.foldl (fun marks p => marks.set p true) ((List.range n).map covers) =
      (List.range n).map fun i => decide (i ∈ ps) || covers i := by
  induction ps generalizing covers with
  | nil => simp
  | cons p ps ih =>
    rw [List.foldl_cons, set_map_range, ih]
    refine List.map_congr_left fun i _ => ?_
    simp only [List.mem_cons, Bool.decide_or]
    rw [Bool.or_assoc, Bool.or_left_comm]

end Worklist

namespace Slice

variable {b : Body} {s t : Slice} {e : Nat} {rest : List Nat}

/-! ## The search, one pending end at a time -/

/-- The slice after a look at its first pending end. -/
def next (b : Body) (s : Slice) (e : Nat) (rest : List Nat) : Slice :=
  if s.isSettled b e then { s with pending := rest } else s.visit b e rest

theorem pick_next (h : s.pending = e :: rest) : Pick b s (s.next b e rest) := by
  unfold next
  split
  case isTrue he => exact .skip (.of_eq h) he
  case isFalse he => exact .take (.of_eq h) (by simpa using he)

theorem grow_of_dropWhile_nil (h : s.pending.dropWhile (s.isSettled b) = []) :
    s.grow b = { s with pending := [] } := by
  rw [grow]
  split
  case h_1 => rfl
  case h_2 h' => rw [h] at h'; cases h'

theorem grow_of_dropWhile_cons (h : s.pending.dropWhile (s.isSettled b) = e :: rest) :
    s.grow b = (s.visit b e rest).grow b := by
  rw [grow]
  split
  case h_1 h' => rw [h] at h'; cases h'
  case h_2 h' => rw [h] at h'; cases h'; rfl

theorem grow_of_pending_nil (h : s.pending = []) : s.grow b = s := by
  rw [grow_of_dropWhile_nil (by rw [h]; rfl), ← h]

theorem grow_next (h : s.pending = e :: rest) : (s.next b e rest).grow b = s.grow b := by
  unfold next
  split
  case isTrue he =>
    -- whether an end is settled does not depend on what is pending
    have hdrop : s.pending.dropWhile (s.isSettled b) = rest.dropWhile (s.isSettled b) := by
      rw [h, List.dropWhile_cons_of_pos he]
    cases hrest : rest.dropWhile (s.isSettled b) with
    | nil =>
      rw [grow_of_dropWhile_nil (hdrop.trans hrest)]
      exact grow_of_dropWhile_nil (s := { s with pending := rest }) hrest
    | cons e' rest' =>
      rw [grow_of_dropWhile_cons (hdrop.trans hrest)]
      exact grow_of_dropWhile_cons (s := { s with pending := rest }) hrest
  case isFalse he =>
    exact (grow_of_dropWhile_cons (by rw [h, List.dropWhile_cons_of_neg he])).symm

/-! ## The search over tables -/

/-- The tables of a slice under construction. -/
def tables (b : Body) (s : Slice) : Worklist :=
  ⟨(List.range b.code.length).map s.covers, s.slots, s.pending, s.iterations⟩

theorem positions_tables : (s.tables b).positions = s.positions b.code.length := by
  simp only [Worklist.positions, tables, positions]
  induction b.code.length with
  | zero => rfl
  | succ n ih =>
    rw [List.range_succ, List.map_append, List.zipIdx_append, List.filterMap_append, ih,
      List.filter_append]
    cases hn : s.covers n <;> simp [hn]

theorem readSlots_eq_filterMap (b : Body) (q : Span) :
    b.readSlots q = (List.range' q.start (q.stop + 1 - q.start)).filterMap
      fun p => b.code[p]?.bind b.readSlot? := by
  unfold Body.readSlots
  generalize q.stop + 1 - q.start = n
  generalize q.start = start
  induction n generalizing start with
  | zero => simp
  | succ n ih =>
    rw [List.range'_succ, List.filterMap_cons, ← ih]
    rcases Nat.lt_or_ge start b.code.length with hlt | hge
    · rw [List.drop_eq_getElem_cons hlt, List.take_succ_cons, List.filterMap_cons,
        List.getElem?_eq_getElem hlt]
      rfl
    · simp [List.drop_eq_nil_of_le hge, List.drop_eq_nil_of_le (Nat.le_succ_of_le hge), hge]

theorem mem_range'_statement {p : Nat} :
    p ∈ List.range' (b.depths.start e) (e + 1 - b.depths.start e) ↔ p ∈ b.statement e := by
  have hle := b.depths.start_le e
  rw [List.mem_range'_1, Body.statement, Set.mem_Icc]
  omega

theorem foldl_set_covers (n : Nat) :
    (List.range' (b.depths.start e) (e + 1 - b.depths.start e)).foldl
        (fun marks p => marks.set p true) ((List.range n).map s.covers) =
      (List.range n).map (s.visit b e rest).covers := by
  rw [Worklist.foldl_set_map_range]
  refine List.map_congr_left fun p _ => ?_
  rw [Bool.eq_iff_iff, covers_visit, Bool.or_eq_true, decide_eq_true_iff, mem_range'_statement]

section
variable (hb : StackDepths.compute b.code = .ok b.depths)
include hb

theorem init?_eq_tables : Worklist.init? b = some ((init b).tables b) := by
  have hrange : ∀ x ∈ b.code.zipIdx, x.2 < b.depths.size := by
    intro x hx
    rw [StackDepths.size_of_compute hb]
    exact (List.mem_zipIdx' hx).1
  have hnone : (init b).covers = fun _ => false := rfl
  rw [Worklist.init?, Worklist.foldlM_seed? hrange, tables, hnone, List.map_const',
    List.length_range, List.append_nil]
  rfl

/-- A statement that ends in the code is taken without leaving it. -/
theorem take?_tables (he : e < b.code.length) :
    Worklist.take? b ⟨(List.range b.code.length).map s.covers, s.slots, rest, s.iterations⟩ e =
      some ((s.visit b e rest).tables b) := by
  have hstart : b.depths.start? e = some (b.depths.start e) := by
    rw [StackDepths.start?, if_pos (Or.inr (he.trans_eq (StackDepths.size_of_compute hb).symm))]
  have hps : ∀ p ∈ List.range' (b.depths.start e) (e + 1 - b.depths.start e),
      p < ((List.range b.code.length).map s.covers).length ∧ p < b.code.length := by
    intro p hp
    have hle : p ≤ e := (mem_range'_statement.1 hp).2
    rw [List.length_map, List.length_range]
    omega
  have hes : ∀ e' ∈ (fresh s.slots (b.readSlots ⟨b.depths.start e, e⟩)).flatMap b.uses,
      ((List.range b.code.length).map (s.visit b e rest).covers)[e']? =
        some ((s.visit b e rest).covers e') := by
    intro e' he'
    obtain ⟨slot, -, huse⟩ := List.mem_flatMap.1 he'
    simp [(Body.isEnd_of_mem_uses huse).lt_length hb]
  simp only [Worklist.take?, hstart, Option.bind_eq_bind, Option.bind_some]
  rw [Worklist.foldlM_mark? hps, Option.bind_some, foldl_set_covers, List.nil_append,
    ← readSlots_eq_filterMap b ⟨b.depths.start e, e⟩, Worklist.foldlM_push? hes, tables,
    slots_visit]
  rfl

/-- One turn over the tables of a slice looks at its first pending end. -/
theorem turn?_tables (h : Inv b s) (hp : s.pending = e :: rest) :
    Worklist.turn? b (s.tables b) = some ((s.next b e rest).tables b) := by
  have hlt : e < b.code.length :=
    (h.ends e (by rw [hp]; exact List.mem_cons_self)).lt_length hb
  have hmark : ((List.range b.code.length).map s.covers)[e]? = some (s.isSettled b e) := by
    simp [isSettled, hlt, Nat.not_le.2 hlt]
  simp only [Worklist.turn?, tables, hp, hmark, Option.bind_eq_bind, Option.bind_some, next]
  cases s.isSettled b e with
  | true => rfl
  | false => exact take?_tables hb hlt

end

/-! ## The number of turns -/

/-- The number of instructions that use a slot outside the given ones. -/
def unfollowed (b : Body) (slots : List Nat) : Nat :=
  b.code.countP fun i => i.slot?.any fun slot => !slots.contains slot

/-- The number of ends that can still come up: those pending, and one for each instruction that
uses a slot not followed yet. -/
def outstanding (b : Body) (s : Slice) : Nat :=
  s.pending.length + unfollowed b s.slots

theorem length_filterMap_zipIdx_le {f : Instruction × Nat → Option Nat}
    {p : Instruction → Bool} (code : List Instruction)
    (h : ∀ i k, (f (i, k)).isSome = true → p i = true) :
    (code.zipIdx.filterMap f).length ≤ code.countP p := by
  calc (code.zipIdx.filterMap f).length
      = code.zipIdx.countP fun x => (f x).isSome := List.length_filterMap_eq_countP ..
    _ ≤ code.zipIdx.countP (p ∘ Prod.fst) := List.countP_mono_left fun x _ hx => h x.1 x.2 hx
    _ = (code.zipIdx.map Prod.fst).countP p := List.countP_map.symm
    _ = code.countP p := by rw [List.zipIdx_map_fst]

theorem countP_add_countP_le {p q r : Instruction → Bool} (code : List Instruction)
    (hdisj : ∀ i, p i = true → q i = false) (hp : ∀ i, p i = true → r i = true)
    (hq : ∀ i, q i = true → r i = true) : code.countP p + code.countP q ≤ code.countP r := by
  induction code with
  | nil => simp
  | cons i code ih => grind

/-- Each use of a slot is an instruction that is no longer counted once the slot is followed. -/
theorem length_uses_add_unfollowed {slots : List Nat} {slot : Nat} (h : slot ∉ slots) :
    (b.uses slot).length + unfollowed b (slot :: slots) ≤ unfollowed b slots := by
  have huses : (b.uses slot).length ≤ b.code.countP fun i => i.slot? = some slot := by
    refine length_filterMap_zipIdx_le b.code fun i k hi => ?_
    by_contra hne
    rw [decide_eq_true_iff] at hne
    simp [hne] at hi
  refine (Nat.add_le_add_right huses _).trans (countP_add_countP_le b.code ?_ ?_ ?_)
  · intro i hi
    have hslot : i.slot? = some slot := of_decide_eq_true hi
    simp [hslot]
  · intro i hi
    have hslot : i.slot? = some slot := of_decide_eq_true hi
    simp [hslot, h]
  · intro i hi
    obtain ⟨slot', hslot', hout⟩ := (Option.any_eq_true ..).1 hi
    rw [List.contains_cons, Bool.not_or, Bool.and_eq_true] at hout
    rw [hslot', Option.any_some]
    exact hout.2

/-- The ends that come up when slots are followed were outstanding before. -/
theorem length_flatMap_uses_add_unfollowed (slots read : List Nat) :
    ((fresh slots read).flatMap b.uses).length +
        unfollowed b ((fresh slots read).reverse ++ slots) ≤ unfollowed b slots := by
  induction read generalizing slots with
  | nil => simp [fresh]
  | cons slot read ih =>
    rw [fresh_cons]
    split
    case isTrue => exact ih slots
    case isFalse hslot =>
      have hstep := length_uses_add_unfollowed (b := b) hslot
      have hrest := ih (slot :: slots)
      rw [List.flatMap_cons, List.length_append, List.reverse_cons, List.append_assoc,
        List.singleton_append]
      omega

theorem outstanding_lt_of_pick (h : Pick b s t) : t.outstanding b < s.outstanding b := by
  cases h with
  | skip hp _ =>
    simp only [outstanding, hp.length_eq, List.length_cons, slots]
    omega
  | @take e rest hp _ =>
    have hread := length_flatMap_uses_add_unfollowed (b := b) s.slots
      (b.readSlots ⟨b.depths.start e, e⟩)
    have hlen : (s.visit b e rest).pending.length ≤
        ((fresh s.slots (b.readSlots ⟨b.depths.start e, e⟩)).flatMap b.uses).length +
          rest.length := by
      simp only [visit, List.length_append, List.length_reverse]
      exact Nat.add_le_add_right (List.length_filter_le ..) _
    have hslots : (s.visit b e rest).slots =
        (fresh s.slots (b.readSlots ⟨b.depths.start e, e⟩)).reverse ++ s.slots := slots_visit
    rw [outstanding, outstanding, hslots, hp.length_eq, List.length_cons]
    omega

/-- At first, each instruction stands for one end at most, since no exit uses a slot. -/
theorem outstanding_init_le (b : Body) : (init b).outstanding b ≤ b.code.length := by
  have hexits : b.exits.length ≤ b.code.countP Instruction.isExit := by
    refine length_filterMap_zipIdx_le b.code fun i k hi => ?_
    by_contra hne
    simp [hne] at hi
  have hdisj : ∀ i : Instruction, i.isExit = true →
      (i.slot?.any fun slot => !([] : List Nat).contains slot) = false := by
    intro i hi
    unfold Instruction.isExit at hi
    unfold Instruction.slot?
    cases hop : i.op with
    | «return» | throw => rfl
    | _ =>
      rw [hop] at hi
      cases hi
  have hboth := countP_add_countP_le b.code hdisj (fun _ _ => rfl) (fun _ _ => rfl)
  calc (init b).outstanding b = b.exits.length + unfollowed b [] := by
        simp only [outstanding, init, slots, List.length_reverse, List.map_nil]
    _ ≤ b.code.countP (fun _ => true) := (Nat.add_le_add_right hexits _).trans hboth
    _ = b.code.length := by rw [List.countP_true]

section
variable (hb : StackDepths.compute b.code = .ok b.depths)
include hb

/-- The loop over the tables of a slice ends with those of the finished slice. -/
theorem run?_tables (h : Inv b s) :
    ∃ n ≤ s.outstanding b, Worklist.run? b n (s.tables b) = some ((s.grow b).tables b) := by
  induction hm : s.outstanding b using Nat.strong_induction_on generalizing s with
  | _ m ih =>
    cases hp : s.pending with
    | nil => exact ⟨0, Nat.zero_le m, by rw [grow_of_pending_nil hp]; rfl⟩
    | cons e rest =>
      have hpick : Pick b s (s.next b e rest) := pick_next hp
      have hlt := outstanding_lt_of_pick hpick
      rw [hm] at hlt
      obtain ⟨n, hn, hrun⟩ := ih _ hlt (h.pick hb hpick) rfl
      refine ⟨n + 1, by omega, ?_⟩
      rw [Worklist.run?, turn?_tables hb h hp, Option.bind_some, hrun, grow_next hp]

/-! ## The number of statements -/

/-- The start of a statement that is not covered is not the start of one that was taken. -/
theorem Inv.start_notMem (h : Inv b s) (he : b.IsEnd e) (hfree : s.covers e = false) :
    b.depths.start e ∉ s.spans.map Span.start := by
  intro hmem
  obtain ⟨q, hq, hsame⟩ := List.mem_map.1 hmem
  obtain ⟨hstart, hend⟩ := h.span q hq
  have hin : b.depths.start e ∈ Set.Icc (b.depths.start q.stop) q.stop := by
    rw [← hstart, ← hsame]
    exact ⟨le_rfl, hstart.le.trans (b.depths.start_le q.stop)⟩
  rcases (StackDepths.linked_of_compute hb).eq_or_disjoint he.1 he.2 hend.1 hend.2 with
    rfl | hdisj
  · have hcov : s.covers q.stop = true :=
      covers_iff.2 ⟨q, hq, hstart.le.trans (b.depths.start_le q.stop), le_rfl⟩
    rw [hfree] at hcov
    cases hcov
  · exact Set.disjoint_left.1 hdisj ⟨le_rfl, b.depths.start_le e⟩ hin

/-- No statement is taken twice. -/
theorem nodup_starts_of_picks (hst : Relation.ReflTransGen (Pick b) (init b) t) :
    (t.spans.map Span.start).Nodup := by
  induction hst with
  | refl => exact List.nodup_nil
  | @tail s t hst hpick ih =>
    have hinv := inv_of_picks hb hst
    cases hpick with
    | skip => exact ih
    | @take e rest hp he =>
      have hend : b.IsEnd e := hinv.ends e (hp.mem_iff.2 List.mem_cons_self)
      have hfree : s.covers e = false := (Bool.or_eq_false_iff.1 he).1
      exact List.nodup_cons.2 ⟨hinv.start_notMem hb hend hfree, ih⟩

/-- The first positions of the statements taken are the covered ones with an empty stack. -/
theorem Inv.mem_starts (h : Inv b s) {p : Nat} :
    p ∈ s.spans.map Span.start ↔ s.covers p = true ∧ b.depths.before p = 0 := by
  constructor
  · intro hp
    obtain ⟨q, hq, rfl⟩ := List.mem_map.1 hp
    obtain ⟨hstart, -⟩ := h.span q hq
    refine ⟨covers_iff.2 ⟨q, hq, le_rfl, hstart.le.trans (b.depths.start_le q.stop)⟩, ?_⟩
    rw [hstart]
    exact (StackDepths.linked_of_compute hb).before_start q.stop
  · rintro ⟨hcov, hzero⟩
    obtain ⟨q, hq, hle, hstop⟩ := covers_iff.1 hcov
    refine List.mem_map.2 ⟨q, hq, hle.eq_or_lt.resolve_right fun hlt => ?_⟩
    rw [(h.span q hq).1] at hlt
    exact absurd hzero (Nat.ne_of_gt (StackDepths.before_pos_of_start_lt hlt hstop))

/-- At every point of a search, in whatever order, the statements taken are as many as the covered
positions that are entered with an empty stack. -/
theorem iterations_of_picks (hst : Relation.ReflTransGen (Pick b) (init b) t) :
    t.iterations = (t.positions b.code.length).countP fun p => b.depths.before p = 0 := by
  have hinv := inv_of_picks hb hst
  have hperm : (t.spans.map Span.start).Perm
      ((t.positions b.code.length).filter fun p => b.depths.before p = 0) := by
    refine (List.perm_ext_iff_of_nodup (nodup_starts_of_picks hb hst) ?_).2 fun p => ?_
    · exact (List.nodup_range.filter _).filter _
    · rw [hinv.mem_starts hb, List.mem_filter, mem_positions, decide_eq_true_eq]
      exact and_congr_left fun _ => (and_iff_right_of_imp (hinv.covers_lt hb)).symm
  rw [iterations, List.countP_eq_length_filter, ← hperm.length_eq, List.length_map]

end

end Slice

/-- **The search ends, with one iteration for each statement.** If the depth check accepts the
code, the loop over the tables comes to an empty stack after at most as many turns as there are
instructions, and no look-up falls outside a table. It finds the slice, and the number of
iterations that the log reports is the number of its statements, that is of its positions that are
entered with an empty stack. -/
theorem slice_iterations_eq_statements {code : List Instruction} {depths : StackDepths}
    (ignored : List String) (h : StackDepths.compute code = .ok depths) :
    let b : Body := ⟨code, depths, ignored⟩
    (∃ n w, n ≤ code.length ∧ (Worklist.init? b).bind (Worklist.run? b n) = some w ∧
      w.stack = [] ∧ w.positions = b.slice.positions code.length ∧
      w.iterations = b.slice.iterations) ∧
    b.slice.iterations =
      (b.slice.positions code.length).countP (fun p => depths.before p = 0) ∧
    b.slice.iterations ≤ code.length ∧
    ∃ r, reduce ignored code = .ok r ∧ r.positions = b.slice.positions code.length ∧
      ∀ k, .sliceComplete k ∈ r.events ↔ k = b.slice.iterations := by
  intro b
  have hb : StackDepths.compute b.code = .ok b.depths := h
  obtain ⟨hpicks, hnil⟩ := Slice.grow_picks b (Slice.init b)
  have hcount := Slice.iterations_of_picks hb hpicks
  refine ⟨?_, hcount, ?_, ⟨b.slice, code.length, b.slice.kept code⟩, ?_, rfl, fun k => ?_⟩
  · obtain ⟨n, hn, hrun⟩ := Slice.run?_tables hb (Slice.inv_init hb)
    refine ⟨n, b.slice.tables b, hn.trans (Slice.outstanding_init_le b), ?_, hnil,
      Slice.positions_tables, rfl⟩
    rw [Slice.init?_eq_tables hb, Option.bind_some, hrun]
    rfl
  · calc b.slice.iterations
        = (b.slice.positions code.length).countP fun p => depths.before p = 0 := hcount
      _ ≤ (b.slice.positions code.length).length := List.countP_le_length
      _ ≤ (List.range code.length).length := List.length_filter_le ..
      _ = code.length := List.length_range
  · rw [reduce, h]
    rfl
  · simp [Reduction.events]

/-- Returns a variable after adding it to itself. The end of the addition comes up once for each
of its uses of the variable, and a store in between is not kept. -/
def doubling : List Instruction :=
  [⟨.push (.int 1) "I", none⟩, ⟨.store 1 "I" none, none⟩,
   ⟨.push (.int 2) "I", none⟩, ⟨.store 3 "I" none, none⟩,
   ⟨.load 1 "I" none, none⟩, ⟨.load 1 "I" none, none⟩, ⟨.resize "IADD" 1 2, none⟩,
   ⟨.store 1 "I" none, none⟩, ⟨.load 1 "I" none, none⟩, ⟨.return, none⟩]

theorem slice_iterations_eq_statements_doubling :
    let depths : StackDepths := ⟨[⟨0, 1⟩, ⟨1, 0⟩, ⟨0, 1⟩, ⟨1, 0⟩, ⟨0, 1⟩, ⟨1, 2⟩, ⟨2, 1⟩, ⟨1, 0⟩,
      ⟨0, 1⟩, ⟨1, 0⟩]⟩
    let b : Body := ⟨doubling, depths, []⟩
    StackDepths.compute doubling = .ok depths ∧ b.slice.iterations = 3 ∧
      ∃ n w, n ≤ 10 ∧ (Worklist.init? b).bind (Worklist.run? b n) = some w ∧ w.stack = [] ∧
        w.positions = [0, 1, 4, 5, 6, 7, 8, 9] ∧ w.iterations = 3 := by
  intro depths b
  have h : StackDepths.compute doubling = .ok depths := rfl
  have hpos : b.slice.positions doubling.length = [0, 1, 4, 5, 6, 7, 8, 9] := by decide +kernel
  obtain ⟨⟨n, w, hn, hrun, hstack, hfound, hsame⟩, hcount, -⟩ := slice_iterations_eq_statements [] h
  have hthree : b.slice.iterations = 3 := by
    rw [hcount, hpos]
    rfl
  exact ⟨h, hthree, n, w, hn, hrun, hstack, hfound.trans hpos, hsame.trans hthree⟩

end ReturnFlow

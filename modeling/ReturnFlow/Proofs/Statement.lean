import Mathlib.Data.List.Chain
import Mathlib.Data.Nat.Find
import Mathlib.Data.Set.BooleanAlgebra
import Mathlib.Order.CompletePartialOrder
import Mathlib.Order.Interval.Set.Basic
import ReturnFlow.Slice

/-!
Statements: the stretches of code between two points where the operand stack is empty.

* `StackDepths.linked_of_compute`: in the table of an accepted body, each instruction is entered at
  the depth that the one before it left, and the first one at depth 0 (`StackDepths.Linked`).
* `StackDepths.before_pos_of_start_lt`, `StackDepths.start_eq_of_pos` and
  `StackDepths.stop?_eq_some_iff` say what the bounds of a statement are without the scans that find
  them.
* `StackDepths.Linked.end_unique`: a statement has one end, so the statements of two ends are equal
  or disjoint (`StackDepths.Linked.eq_or_disjoint`).
-/

namespace ReturnFlow

namespace StackDepths

/-! ## The table of an accepted body -/

/-- The depth after an instruction; an index outside the code has none. -/
def after (d : StackDepths) (i : Nat) : Nat :=
  (d.get? i).elim 0 StackDepth.after

theorem cap_eq_zero_iff {depth : Nat} : cap depth = 0 ↔ depth = 0 := by
  unfold cap; omega

theorem computeFrom_cons_eq_ok {index depth : Nat} {i : Instruction} {rest : List Instruction}
    {es : List StackDepth} :
    computeFrom index depth (i :: rest) = .ok es ↔
      ∃ next es', step index depth i.op = .ok next ∧
        computeFrom (index + 1) next rest = .ok es' ∧ es = ⟨cap depth, cap next⟩ :: es' := by
  simp only [computeFrom]
  cases step index depth i.op with
  | error e => simp
  | ok next =>
    cases hrest : computeFrom (index + 1) next rest with
    | error e => simp [Except.map, hrest]
    | ok es' => simp [Except.map, hrest, eq_comm]

theorem compute_eq_ok {code : List Instruction} {d : StackDepths} :
    compute code = .ok d ↔ computeFrom 0 0 code = .ok d.entries := by
  unfold compute
  cases computeFrom 0 0 code with
  | error e => simp [Except.map]
  | ok es => cases d; simp [Except.map]

theorem length_of_computeFrom {index depth : Nat} {code : List Instruction}
    {es : List StackDepth} (h : computeFrom index depth code = .ok es) :
    es.length = code.length := by
  induction code generalizing index depth es with
  | nil => simp only [computeFrom, Except.ok.injEq] at h; rw [← h]; rfl
  | cons i rest ih =>
    obtain ⟨next, es', -, hrest, rfl⟩ := computeFrom_cons_eq_ok.1 h
    rw [List.length_cons, List.length_cons, ih hrest]

theorem size_of_compute {code : List Instruction} {d : StackDepths} (h : compute code = .ok d) :
    d.size = code.length :=
  length_of_computeFrom (compute_eq_ok.1 h)

theorem head_of_computeFrom {index depth : Nat} {code : List Instruction} {es : List StackDepth}
    (h : computeFrom index depth code = .ok es) : ∀ e ∈ es.head?, e.before = cap depth := by
  cases code with
  | nil => simp only [computeFrom, Except.ok.injEq] at h; subst h; simp
  | cons i rest =>
    obtain ⟨next, es', -, -, rfl⟩ := computeFrom_cons_eq_ok.1 h
    simp

theorem chain_of_computeFrom {index depth : Nat} {code : List Instruction} {es : List StackDepth}
    (h : computeFrom index depth code = .ok es) :
    es.IsChain fun x y => y.before = x.after := by
  induction code generalizing index depth es with
  | nil => simp only [computeFrom, Except.ok.injEq] at h; subst h; exact .nil
  | cons i rest ih =>
    obtain ⟨next, es', -, hrest, rfl⟩ := computeFrom_cons_eq_ok.1 h
    exact List.isChain_cons.2 ⟨head_of_computeFrom hrest, ih hrest⟩

/-- The entry of an instruction is one step of the depth, capped. -/
theorem getElem?_of_computeFrom {index depth : Nat} {code : List Instruction}
    {es : List StackDepth} (h : computeFrom index depth code = .ok es) {k : Nat} {i : Instruction}
    (hk : code[k]? = some i) :
    ∃ before next, step (index + k) before i.op = .ok next ∧
      es[k]? = some ⟨cap before, cap next⟩ := by
  induction code generalizing index depth es k with
  | nil => simp at hk
  | cons i' rest ih =>
    obtain ⟨next, es', hstep, hrest, rfl⟩ := computeFrom_cons_eq_ok.1 h
    cases k with
    | zero =>
      simp only [List.getElem?_cons_zero, Option.some.injEq] at hk
      subst hk
      exact ⟨depth, next, hstep, rfl⟩
    | succ k =>
      obtain ⟨before, next', hstep', hes'⟩ := ih hrest hk
      exact ⟨before, next', by rwa [Nat.add_right_comm] at hstep', hes'⟩

theorem eq_zero_of_step_isExit {index before next : Nat} {op : Operation}
    (hexit : op.isExit = true) (h : step index before op = .ok next) : next = 0 := by
  cases op with
  | «return» => cases h; rfl
  | throw =>
    simp only [step] at h
    split at h
    · cases h
    · cases h; rfl
  | _ => simp [Operation.isExit] at hexit

/-- A step changes the depth by the delta of the operation, except that an exit empties the
stack. -/
theorem eq_of_step {index before next : Nat} {op : Operation}
    (h : step index before op = .ok next) :
    (next : Int) = if op.isExit then 0 else (before : Int) + op.stackDelta := by
  by_cases hexit : op.isExit = true
  · rw [if_pos hexit, eq_zero_of_step_isExit hexit h]
    rfl
  · rw [if_neg hexit]
    cases op with
    | «return» | throw => exact absurd rfl hexit
    | other opcode =>
      simp only [step] at h
      split at h
      · cases h
      · cases h
        simp [Operation.stackDelta]
    | _ =>
      simp only [step] at h
      split at h
      · cases h
      · cases h
        omega

/-- An exit leaves the stack empty. -/
theorem after_of_isExit {code : List Instruction} {d : StackDepths} (h : compute code = .ok d)
    {k : Nat} {i : Instruction} (hk : code[k]? = some i) (hexit : i.isExit = true) :
    d.after k = 0 := by
  obtain ⟨before, next, hstep, hes⟩ := getElem?_of_computeFrom (compute_eq_ok.1 h) hk
  rw [eq_zero_of_step_isExit hexit hstep] at hes
  simp [after, get?, hes, cap]

/-- Each instruction is entered at the depth that the one before it left, the first one at 0. -/
structure Linked (d : StackDepths) : Prop where
  zero : d.before 0 = 0
  succ : ∀ i, i + 1 < d.size → d.before (i + 1) = d.after i

theorem before_eq {d : StackDepths} {i : Nat} (h : i < d.size) :
    d.before i = (d.entries.get ⟨i, h⟩).before := by
  simp only [size] at h
  simp [before, get?, h]

theorem after_eq {d : StackDepths} {i : Nat} (h : i < d.size) :
    d.after i = (d.entries.get ⟨i, h⟩).after := by
  simp only [size] at h
  simp [after, get?, h]

theorem linked_of_compute {code : List Instruction} {d : StackDepths} (h : compute code = .ok d) :
    d.Linked where
  zero := by
    have hhead := head_of_computeFrom (compute_eq_ok.1 h)
    cases hes : d.entries with
    | nil => simp [before, get?, hes]
    | cons e es =>
      rw [hes] at hhead
      simpa [before, get?, hes, cap] using hhead e (by simp)
  succ i hi := by
    rw [before_eq hi, after_eq (Nat.lt_of_succ_lt hi)]
    exact (chain_of_computeFrom (compute_eq_ok.1 h)).getElem i hi

/-! ## Bounds of a statement -/

section
variable {d : StackDepths}

/-- Between its start and an instruction, a statement never has an empty stack. -/
theorem before_pos_of_start_lt {i j : Nat} (hlt : d.start i < j) (hle : j ≤ i) :
    0 < d.before j := by
  induction i with
  | zero => omega
  | succ i ih =>
    simp only [start] at hlt
    split at hlt
    · omega
    · rename_i hpos
      rcases Nat.lt_or_eq_of_le hle with hj | rfl
      · exact ih hlt (by omega)
      · omega

/-- Instructions with no empty stack between them have the same start. -/
theorem start_eq_of_pos {i j : Nat} (hij : i ≤ j) (hpos : ∀ k, i < k → k ≤ j → 0 < d.before k) :
    d.start j = d.start i := by
  induction j, hij using Nat.le_induction with
  | base => rfl
  | succ j hij ih =>
    have hj : d.before (j + 1) ≠ 0 := Nat.ne_of_gt (hpos (j + 1) (by omega) le_rfl)
    rw [start, if_neg hj]
    exact ih fun k hk hkj => hpos k hk (by omega)

theorem Linked.before_start (hd : d.Linked) (i : Nat) : d.before (d.start i) = 0 := by
  induction i with
  | zero => exact hd.zero
  | succ i ih =>
    rw [start]
    split
    · assumption
    · exact ih

theorem stop?_eq_some_iff {i e : Nat} :
    d.stop? i = some e ↔
      i ≤ e ∧ e < d.size ∧ d.after e = 0 ∧ ∀ j, i ≤ j → j < e → 0 < d.after j := by
  simp only [stop?, Option.map_eq_some_iff, List.findIdx?_eq_some_iff_getElem, List.length_drop,
    List.getElem_drop, decide_eq_true_eq]
  constructor
  · rintro ⟨k, ⟨hk, hzero, hpos⟩, rfl⟩
    have hsize : i + k < d.size := by simp only [size]; omega
    refine ⟨by omega, by omega, ?_, fun j hij hj => ?_⟩
    · rw [Nat.add_comm, after_eq hsize]; exact hzero
    · obtain ⟨l, rfl⟩ := Nat.exists_eq_add_of_le hij
      rw [after_eq (by omega)]
      exact Nat.pos_of_ne_zero (hpos l (by omega))
  · rintro ⟨hie, hsize, hzero, hpos⟩
    obtain ⟨k, rfl⟩ := Nat.exists_eq_add_of_le hie
    refine ⟨k, ⟨by simp only [size] at hsize; omega, ?_, fun l hl hzero' => ?_⟩, by omega⟩
    · rwa [after_eq hsize] at hzero
    · have := hpos (i + l) (by omega) (by omega)
      rw [after_eq (by omega)] at this
      exact absurd hzero' (Nat.ne_of_gt this)

/-- An instruction that some later one closes has an end. -/
theorem exists_stop? {i e : Nat} (hie : i ≤ e) (hsize : e < d.size)
    (hzero : d.after e = 0) : ∃ e', d.stop? i = some e' := by
  have hex : ∃ e, i ≤ e ∧ e < d.size ∧ d.after e = 0 := ⟨e, hie, hsize, hzero⟩
  classical
  obtain ⟨hle, hlt, hafter⟩ := Nat.find_spec hex
  refine ⟨Nat.find hex, stop?_eq_some_iff.2 ⟨hle, hlt, hafter, fun j hij hj => ?_⟩⟩
  refine Nat.pos_of_ne_zero fun hj0 => Nat.find_min hex hj ⟨hij, hj.trans hlt, hj0⟩

/-- The end of the statement around an instruction has the start of that statement. -/
theorem Linked.start_of_stop? (hd : d.Linked) {i e : Nat} (h : d.stop? i = some e) :
    d.start e = d.start i := by
  obtain ⟨hie, hsize, -, hpos⟩ := stop?_eq_some_iff.1 h
  refine start_eq_of_pos hie fun k hik hke => ?_
  obtain ⟨k, rfl⟩ := Nat.exists_eq_add_one_of_ne_zero (by omega : k ≠ 0)
  rw [hd.succ k (by omega)]
  exact hpos k (by omega) (by omega)

/-- A statement has one end. -/
theorem Linked.end_unique (hd : d.Linked) {e e' : Nat} (he : d.after e = 0) (hsize : e' < d.size)
    (hmem : e ∈ Set.Icc (d.start e') e') : e = e' := by
  obtain ⟨hstart, hle⟩ := hmem
  by_contra hne
  have hlt : e + 1 ≤ e' := by omega
  have hpos := before_pos_of_start_lt (d := d) (Nat.lt_succ_of_le hstart) hlt
  rw [hd.succ e (by omega), he] at hpos
  exact absurd hpos (by omega)

/-- The first instruction of a statement has the end of the statement. -/
theorem Linked.stop?_start (hd : d.Linked) {i e : Nat} (h : d.stop? i = some e) :
    d.stop? (d.start i) = some e := by
  obtain ⟨hie, hsize, hzero, hpos⟩ := stop?_eq_some_iff.1 h
  refine stop?_eq_some_iff.2 ⟨(d.start_le i).trans hie, hsize, hzero, fun j hj hje => ?_⟩
  rcases Nat.lt_or_ge j i with hji | hij
  · -- up to the instruction, the depths that are left are those that are found
    rw [← hd.succ j (by omega)]
    exact before_pos_of_start_lt (Nat.lt_succ_of_le hj) hji
  · exact hpos j hij hje

/-- Once a statement has no end, nothing after it has one. -/
theorem stop?_eq_none_of_le {i j : Nat} (hij : i ≤ j) (h : d.stop? i = none) :
    d.stop? j = none := by
  rw [Option.eq_none_iff_forall_ne_some]
  intro e he
  obtain ⟨hje, hsize, hzero, -⟩ := stop?_eq_some_iff.1 he
  obtain ⟨e', he'⟩ := exists_stop? (hij.trans hje) hsize hzero
  rw [h] at he'
  cases he'

/-- The statements of two ends are the same or have nothing in common. -/
theorem Linked.eq_or_disjoint (hd : d.Linked) {e e' : Nat} (hsize : e < d.size)
    (he : d.after e = 0) (hsize' : e' < d.size) (he' : d.after e' = 0) :
    e = e' ∨ Disjoint (Set.Icc (d.start e) e) (Set.Icc (d.start e') e') := by
  refine or_iff_not_imp_right.2 fun hmeet => ?_
  obtain ⟨k, hk, hk'⟩ := Set.not_disjoint_iff.1 hmeet
  rcases Nat.le_total e e' with hle | hle
  · exact hd.end_unique he hsize' ⟨hk'.1.trans hk.2, hle⟩
  · exact (hd.end_unique he' hsize ⟨hk.1.trans hk'.2, hle⟩).symm

end

end StackDepths

open StackDepths in
/-- **Statements partition the code.** If the depth check accepts it, each instruction lies after
the last point with an empty stack, and before the next one if there is any; all instructions in
between have the same bounds. Once there is no next one, there is none for later instructions, and
statements that have an end are the same or have nothing in common. -/
theorem statements_partition {code : List Instruction} {d : StackDepths}
    (h : compute code = .ok d) :
    (∀ i < code.length, ∃ s, d.start? i = some s ∧ s ≤ i ∧ d.before s = 0 ∧
      ∀ j, s < j → j ≤ i → 0 < d.before j) ∧
    (∀ i e, d.stop? i = some e →
      i ≤ e ∧ e < code.length ∧ d.after e = 0 ∧ (∀ j, i ≤ j → j < e → 0 < d.after j) ∧
      ∃ s, d.start? i = some s ∧ d.start? e = some s ∧ d.stop? s = some e) ∧
    (∀ i j, i ≤ j → d.stop? i = none → d.stop? j = none) ∧
    ∀ i j e e' s s', d.stop? i = some e → d.stop? j = some e' → d.start? e = some s →
      d.start? e' = some s' →
      Set.Icc s e = Set.Icc s' e' ∨ Disjoint (Set.Icc s e) (Set.Icc s' e') := by
  have hd := linked_of_compute h
  have hsize : d.size = code.length := size_of_compute h
  have hstart : ∀ i < code.length, d.start? i = some (d.start i) := fun i hi =>
    if_pos (Or.inr (hi.trans_eq hsize.symm))
  refine ⟨fun i hi => ?_, fun i e he => ?_, fun i j => stop?_eq_none_of_le,
    fun i j e e' s s' he he' hs hs' => ?_⟩
  · exact ⟨d.start i, hstart i hi, d.start_le i, hd.before_start i,
      fun j => before_pos_of_start_lt⟩
  · obtain ⟨hie, hlt, hzero, hpos⟩ := stop?_eq_some_iff.1 he
    rw [hsize] at hlt
    refine ⟨hie, hlt, hzero, hpos, d.start i, hstart i (hie.trans_lt hlt), ?_, hd.stop?_start he⟩
    rw [hstart e hlt, hd.start_of_stop? he]
  · obtain ⟨-, hlt, hzero, -⟩ := stop?_eq_some_iff.1 he
    obtain ⟨-, hlt', hzero', -⟩ := stop?_eq_some_iff.1 he'
    cases hs.symm.trans (hstart e (hlt.trans_eq hsize))
    cases hs'.symm.trans (hstart e' (hlt'.trans_eq hsize))
    refine (hd.eq_or_disjoint hlt hzero hlt' hzero').imp_left ?_
    rintro rfl
    rfl

/-- Two assignments, and the beginning of a third one. -/
def assigning : List Instruction :=
  [⟨.push (.int 1) "I", none⟩, ⟨.store 1 "I" none, none⟩,
   ⟨.push (.int 2) "I", none⟩, ⟨.push (.int 3) "I", none⟩, ⟨.resize "IADD" 1 2, none⟩,
   ⟨.store 2 "I" none, none⟩, ⟨.load 2 "I" none, none⟩]

theorem statements_partition_assigning :
    let d : StackDepths := ⟨[⟨0, 1⟩, ⟨1, 0⟩, ⟨0, 1⟩, ⟨1, 2⟩, ⟨2, 1⟩, ⟨1, 0⟩, ⟨0, 1⟩]⟩
    StackDepths.compute assigning = .ok d ∧ d.stop? 4 = some 5 ∧
      (∃ s, d.start? 4 = some s ∧ d.start? 5 = some s ∧ d.stop? s = some 5) ∧
      d.stop? 6 = none ∧ d.stop? 7 = none := by
  intro d
  have h : StackDepths.compute assigning = .ok d := rfl
  have hstop : d.stop? 4 = some 5 := rfl
  have hnone : d.stop? 6 = none := rfl
  obtain ⟨-, hends, htail, -⟩ := statements_partition h
  obtain ⟨-, -, -, -, hbounds⟩ := hends 4 5 hstop
  exact ⟨h, hstop, hbounds, hnone, htail 6 7 (by omega) hnone⟩

end ReturnFlow

import ReturnFlow.Proofs.KeptDepth

/-!
The slice of a body as a body of its own.

* `Body.reduced`: the slice, with the entries that its instructions have in the table of the body.
  That is the table of the slice (`Body.compute_reduced`): statements are kept or dropped as a
  whole, so that the instructions around a dropped one find the depth they had.
* `Body.start_reduced` and `Body.stop?_reduced`: a statement of the slice has the bounds that it has
  in the body, and every one comes to its end.
* `Body.covers_reduced`: the slice of the slice is all of it, since the positions that it covers
  make up a closed set of the body.
-/

namespace ReturnFlow

namespace StackDepths

/-! ## One more instruction -/

/-- The index of an instruction matters for errors only. -/
theorem step_eq_ok_index {index before next : Nat} {op : Operation} (index' : Nat)
    (h : step index before op = .ok next) : step index' before op = .ok next := by
  cases op with
  | «return» => exact h
  | _ =>
    simp only [step] at h ⊢
    split at h
    · cases h
    · rename_i hcond
      rw [if_neg hcond]
      exact h

theorem computeFrom_concat (pre : List Instruction) {xs : List Instruction}
    {index depth before next : Nat} {es : List StackDepth} {i : Instruction}
    (hdepth : (depth : Int) = depthAfter pre) (h : computeFrom index depth xs = .ok es)
    (hbefore : (before : Int) = depthAfter (pre ++ xs))
    (hstep : step (index + xs.length) before i.op = .ok next) :
    computeFrom index depth (xs ++ [i]) = .ok (es ++ [⟨cap before, cap next⟩]) := by
  induction xs generalizing pre index depth es with
  | nil =>
    cases h
    rw [List.append_nil, ← hdepth, Int.ofNat_inj] at hbefore
    subst hbefore
    exact computeFrom_cons_eq_ok.2 ⟨next, [], hstep, rfl, rfl⟩
  | cons x xs ih =>
    obtain ⟨after, es', hx, hxs, rfl⟩ := computeFrom_cons_eq_ok.1 h
    have hafter : (after : Int) = depthAfter (pre ++ [x]) := by
      rw [depthAfter_concat, ← hdepth]
      exact eq_of_step hx
    refine computeFrom_cons_eq_ok.2 ⟨after, _, hx, ih (pre ++ [x]) hafter hxs ?_ ?_, rfl⟩
    · rwa [List.append_assoc]
    · rwa [Nat.add_right_comm]

/-- The table of a longer listing goes on from the depth that the deltas leave. -/
theorem compute_concat {code : List Instruction} {d : StackDepths} (h : compute code = .ok d)
    {i : Instruction} {before next : Nat} (hbefore : (before : Int) = depthAfter code)
    (hstep : step code.length before i.op = .ok next) :
    compute (code ++ [i]) = .ok ⟨d.entries ++ [⟨cap before, cap next⟩]⟩ := by
  refine compute_eq_ok.2 (computeFrom_concat [] rfl (compute_eq_ok.1 h) hbefore ?_)
  rwa [Nat.zero_add]

theorem start_eq_self {d : StackDepths} {i : Nat} (h : d.before i = 0) : d.start i = i := by
  cases i with
  | zero => rfl
  | succ i => rw [start, if_pos h]

end StackDepths

/-! ## The slice and its table -/

namespace Body

variable {b : Body} {p e k : Nat}

/-- The slice of a body, with the entries that its instructions have in the table of the body. -/
def reduced (b : Body) : Body where
  code := b.slice.kept b.code
  depths := ⟨b.slice.select b.depths.entries⟩
  ignored := b.ignored

theorem getElem?_reduced (hp : b.slice.covers p = true) :
    b.reduced.code[b.slice.rank p]? = b.code[p]? :=
  Slice.getElem?_select b.code hp

theorem get?_reduced (hp : b.slice.covers p = true) :
    b.reduced.depths.get? (b.slice.rank p) = b.depths.get? p :=
  Slice.getElem?_select b.depths.entries hp

theorem before_reduced (hp : b.slice.covers p = true) :
    b.reduced.depths.before (b.slice.rank p) = b.depths.before p := by
  unfold StackDepths.before
  rw [get?_reduced hp]

theorem after_reduced (hp : b.slice.covers p = true) :
    b.reduced.depths.after (b.slice.rank p) = b.depths.after p := by
  unfold StackDepths.after
  rw [get?_reduced hp]

theorem length_reduced (b : Body) : b.reduced.code.length = b.slice.rank b.code.length :=
  b.slice.length_select b.code

/-- Every instruction of the slice comes from a covered position. -/
theorem exists_rank_eq (hk : k < b.reduced.code.length) :
    ∃ p, b.slice.covers p = true ∧ b.slice.rank p = k := by
  rw [length_reduced] at hk
  obtain ⟨p, -, hp⟩ := Slice.exists_rank_eq hk
  exact ⟨p, hp⟩

section
variable (hb : StackDepths.compute b.code = .ok b.depths)
include hb

/-- **The depth check accepts the slice**, in which each instruction has the depths that it has in
the body. -/
theorem compute_reduced : StackDepths.compute b.reduced.code = .ok b.reduced.depths := by
  have hsize : b.depths.entries.length = b.code.length := StackDepths.size_of_compute hb
  -- position by position: an instruction that is kept is entered at the depth that it had
  have hupTo : ∀ n ≤ b.code.length, StackDepths.compute (b.slice.kept (b.code.take n)) =
      .ok ⟨b.slice.select (b.depths.entries.take n)⟩ := by
    intro n
    induction n with
    | zero => intro _; rfl
    | succ n ih =>
      intro hn
      obtain ⟨i, hi⟩ : ∃ i, b.code[n]? = some i := ⟨_, List.getElem?_eq_getElem hn⟩
      obtain ⟨depth, next, hdepth, hstep, hentry⟩ := StackDepths.exists_step hb hi
      have hkept := depthAfter_kept hb hi
      rw [kept_take_succ b.slice hi, b.slice.select_take_succ hentry]
      cases hcov : b.slice.covers n with
      | true =>
        rw [hcov, if_pos rfl, ← hdepth] at hkept
        exact StackDepths.compute_concat (ih (Nat.le_of_succ_le hn)) hkept.symm
          (StackDepths.step_eq_ok_index _ hstep)
      | false => simpa using ih (Nat.le_of_succ_le hn)
  have hall := hupTo b.code.length le_rfl
  rwa [List.take_length, ← hsize, List.take_length] at hall

theorem size_reduced : b.reduced.depths.size = b.reduced.code.length :=
  StackDepths.size_of_compute (compute_reduced hb)

theorem rank_lt_size (hp : b.slice.covers p = true) :
    b.slice.rank p < b.reduced.depths.size := by
  rw [size_reduced hb, length_reduced]
  exact Slice.rank_lt_rank hp ((b.inv_slice hb).covers_lt hb hp)

/-! ## Statements of the slice -/

/-- A kept instruction belongs to a statement that comes to its end and is kept as a whole. -/
theorem exists_statement (hp : b.slice.covers p = true) :
    ∃ e, b.depths.stop? p = some e ∧ b.statement e ⊆ {q | b.slice.covers q = true} := by
  obtain ⟨span, hspan, hstart, hstop⟩ := Slice.covers_iff.1 hp
  obtain ⟨hbegin, hend⟩ := (b.inv_slice hb).span span hspan
  refine ⟨span.stop, ?_, fun q hq => Slice.covers_iff.2 ⟨span, hspan, ?_⟩⟩
  · refine StackDepths.stop?_eq_some_iff.2 ⟨hstop, hend.1, hend.2, fun j hpj hj => ?_⟩
    have hlt := hend.1
    rw [← (StackDepths.linked_of_compute hb).succ j (by omega)]
    exact StackDepths.before_pos_of_start_lt (i := span.stop) (by omega) hj
  · rwa [hbegin]

/-- The statement around a kept instruction, up to its end, is kept. -/
theorem covers_of_stop? (hp : b.slice.covers p = true) (h : b.depths.stop? p = some e) :
    b.slice.covers e = true ∧ b.slice.covers (b.depths.start p) = true := by
  obtain ⟨e', he', hsub⟩ := exists_statement hb hp
  cases h.symm.trans he'
  have hstart := (StackDepths.linked_of_compute hb).start_of_stop? h
  have hle : b.depths.start e ≤ e := b.depths.start_le e
  refine ⟨hsub ⟨hle, le_rfl⟩, ?_⟩
  rw [← hstart]
  exact hsub ⟨le_rfl, hle⟩

theorem start_reduced (hp : b.slice.covers p = true) :
    b.reduced.depths.start (b.slice.rank p) = b.slice.rank (b.depths.start p) := by
  obtain ⟨e, he, -⟩ := exists_statement hb hp
  obtain ⟨-, hcov⟩ := covers_of_stop? hb hp he
  have hzero : b.reduced.depths.before (b.slice.rank (b.depths.start p)) = 0 := by
    rw [before_reduced hcov]
    exact (StackDepths.linked_of_compute hb).before_start p
  rw [← StackDepths.start_eq_self hzero]
  refine StackDepths.start_eq_of_pos (b.slice.rank_mono (b.depths.start_le p)) fun k hlt hle => ?_
  have hsize := rank_lt_size hb hp
  rw [size_reduced hb] at hsize
  obtain ⟨q, hq, rfl⟩ := exists_rank_eq (hle.trans_lt hsize)
  rw [before_reduced hq]
  exact StackDepths.before_pos_of_start_lt (Slice.lt_of_rank_lt hlt) (Slice.le_of_rank_le hp hle)

theorem stop?_reduced (hp : b.slice.covers p = true) (h : b.depths.stop? p = some e) :
    b.reduced.depths.stop? (b.slice.rank p) = some (b.slice.rank e) := by
  obtain ⟨hcov, -⟩ := covers_of_stop? hb hp h
  obtain ⟨hle, -, hzero, hpos⟩ := StackDepths.stop?_eq_some_iff.1 h
  have hsize := rank_lt_size hb hcov
  refine StackDepths.stop?_eq_some_iff.2 ⟨b.slice.rank_mono hle, hsize, ?_, fun k hpk hke => ?_⟩
  · rw [after_reduced hcov, hzero]
  · rw [size_reduced hb] at hsize
    obtain ⟨q, hq, rfl⟩ := exists_rank_eq (hke.trans hsize)
    rw [after_reduced hq]
    exact hpos q (Slice.le_of_rank_le hq hpk) (Slice.lt_of_rank_lt hke)

/-- In the slice every statement comes to its end. -/
theorem exists_stop?_reduced (hk : k < b.reduced.code.length) :
    ∃ e, b.reduced.depths.stop? k = some e := by
  obtain ⟨p, hp, rfl⟩ := exists_rank_eq hk
  obtain ⟨e, he, -⟩ := exists_statement hb hp
  exact ⟨_, stop?_reduced hb hp he⟩

/-- The slice leaves nothing on the stack. -/
theorem after_getLast?_reduced : ∀ e ∈ b.reduced.depths.entries.getLast?, e.after = 0 := by
  intro e he
  have hsize := size_reduced hb
  have hpos : 0 < b.reduced.depths.size := List.length_pos_of_mem (List.mem_of_getLast? he)
  obtain ⟨stop, hstop⟩ := exists_stop?_reduced hb (k := b.reduced.depths.size - 1) (by omega)
  obtain ⟨hle, hlt, hzero, -⟩ := StackDepths.stop?_eq_some_iff.1 hstop
  have hlast : b.reduced.depths.get? stop = some e := by
    rw [show stop = b.reduced.depths.size - 1 by omega]
    rwa [List.getLast?_eq_getElem?] at he
  simpa [StackDepths.after, hlast] using hzero

/-! ## The slice of the slice -/

/-- The positions of a statement keep their places among each other. -/
theorem rank_mem_statement (he : b.slice.covers e = true) (hp : p ∈ b.statement e) :
    b.slice.rank p ∈ b.reduced.statement (b.slice.rank e) := by
  refine ⟨?_, b.slice.rank_mono hp.2⟩
  rw [start_reduced hb he]
  exact b.slice.rank_mono hp.1

/-- What the slice of the slice covers is closed in the body. -/
theorem closed_covers_reduced :
    b.Closed {p | b.slice.covers p = true ∧ b.reduced.slice.covers (b.slice.rank p) = true} := by
  have hslice := (b.isLeast_slice hb).1
  have hagain := (b.reduced.isLeast_slice (compute_reduced hb)).1
  constructor
  · intro p i hi hexit hpos q hq
    have hsub := hslice.exit p i hi hexit hpos
    have hp : b.slice.covers p = true := hsub ⟨b.depths.start_le p, le_rfl⟩
    refine ⟨hsub hq, hagain.exit (b.slice.rank p) i ?_ hexit ?_ (rank_mem_statement hb hp hq)⟩
    · rwa [getElem?_reduced hp]
    · rwa [before_reduced hp]
  · intro p hp i slot hi hreads q j e hj huses hstop r hr
    have hsub := hslice.follow p hp.1 i slot hi hreads q j e hj huses hstop
    have hle : q ≤ e := (StackDepths.stop?_eq_some_iff.1 hstop).1
    have hq : b.slice.covers q = true := by
      refine hsub ⟨?_, hle⟩
      rw [(StackDepths.linked_of_compute hb).start_of_stop? hstop]
      exact b.depths.start_le q
    have he : b.slice.covers e = true := hsub ⟨b.depths.start_le e, le_rfl⟩
    refine ⟨hsub hr, hagain.follow (b.slice.rank p) hp.2 i slot ?_ hreads (b.slice.rank q) j
      (b.slice.rank e) ?_ huses (stop?_reduced hb hq hstop) (rank_mem_statement hb he hr)⟩
    · rwa [getElem?_reduced hp.1]
    · rwa [getElem?_reduced hq]

/-- The slice of the slice is all of it. -/
theorem covers_reduced (hk : k < b.reduced.code.length) : b.reduced.slice.covers k = true := by
  obtain ⟨p, hp, rfl⟩ := exists_rank_eq hk
  exact ((b.isLeast_slice hb).2 (closed_covers_reduced hb) hp).2

end

end Body

/-! ## Reductions -/

/-- **Reduction keeps whole, balanced statements.** If the depth check accepts a body, it accepts
the reduction too, and each instruction that is kept has the depths that it had; every statement of
the reduction comes to its end, so that its last instruction leaves an empty stack. -/
theorem reduce_keeps_depths (ignored : List String) {code : List Instruction}
    {depths : StackDepths} (h : StackDepths.compute code = .ok depths) :
    ∃ r kept, reduce ignored code = .ok r ∧ StackDepths.compute r.code = .ok kept ∧
      r.code.length = r.positions.length ∧
      (∀ k p, r.positions[k]? = some p →
        r.code[k]? = code[p]? ∧ kept.get? k = depths.get? p) ∧
      (∀ k < r.code.length, ∃ e, kept.stop? k = some e) ∧
      ∀ e ∈ kept.entries.getLast?, e.after = 0 := by
  let b : Body := ⟨code, depths, ignored⟩
  refine ⟨⟨b.slice, code.length, b.reduced.code⟩, b.reduced.depths,
    reduce_eq_ok_iff.2 ⟨depths, h, rfl⟩, b.compute_reduced h, ?_, fun k p hk => ?_,
    fun k => b.exists_stop?_reduced h, b.after_getLast?_reduced h⟩
  · show b.reduced.code.length = (b.slice.positions code.length).length
    rw [Body.length_reduced, Slice.positions_eq_select, Slice.length_select, List.length_range]
  · obtain ⟨-, hcov, rfl⟩ := Slice.getElem?_positions.1 hk
    exact ⟨Body.getElem?_reduced hcov, Body.get?_reduced hcov⟩

/-- Stores a value that nothing reads, returns a variable, and goes on to set that variable from
another one, which a last statement loads without an end. -/
def abandoned : List Instruction :=
  [⟨.push (.int 1) "I", none⟩, ⟨.store 3 "I" none, none⟩,
   ⟨.load 1 "I" none, none⟩, ⟨.return, none⟩,
   ⟨.load 2 "I" none, none⟩, ⟨.store 1 "I" none, none⟩,
   ⟨.load 2 "I" none, none⟩]

theorem reduce_keeps_depths_abandoned :
    let depths : StackDepths := ⟨[⟨0, 1⟩, ⟨1, 0⟩, ⟨0, 1⟩, ⟨1, 0⟩, ⟨0, 1⟩, ⟨1, 0⟩, ⟨0, 1⟩]⟩
    StackDepths.compute abandoned = .ok depths ∧
      ∃ r kept, reduce [] abandoned = .ok r ∧ r.positions = [2, 3, 4, 5] ∧
        StackDepths.compute r.code = .ok kept ∧ kept.get? 3 = some ⟨1, 0⟩ ∧
        ∀ e ∈ kept.entries.getLast?, e.after = 0 := by
  intro depths
  have h : StackDepths.compute abandoned = .ok depths := rfl
  obtain ⟨r, kept, hreduce, hkept, -, hentries, -, hlast⟩ := reduce_keeps_depths [] h
  have hpos : r.positions = [2, 3, 4, 5] := by
    have hmap : (reduce [] abandoned).map Reduction.positions = .ok [2, 3, 4, 5] := by
      decide +kernel
    rw [hreduce] at hmap
    exact Except.ok.inj hmap
  refine ⟨h, r, kept, hreduce, hpos, hkept, ?_, hlast⟩
  rw [(hentries 3 5 (by rw [hpos]; rfl)).2]
  rfl

/-- **Reduction is idempotent.** A reduction can be reduced again, and keeps all it has. -/
theorem reduce_idempotent (ignored : List String) (code : List Instruction) (r : Reduction)
    (h : reduce ignored code = .ok r) :
    ∃ again, reduce ignored r.code = .ok again ∧ again.code = r.code := by
  obtain ⟨depths, hdepths, rfl⟩ := reduce_eq_ok_iff.1 h
  let b : Body := ⟨code, depths, ignored⟩
  refine ⟨_, reduce_eq_ok_iff.2 ⟨b.reduced.depths, b.compute_reduced hdepths, rfl⟩, ?_⟩
  exact Slice.select_eq_self fun k hk => b.covers_reduced hdepths hk

theorem reduce_idempotent_abandoned :
    ∃ r again, reduce [] abandoned = .ok r ∧ r.code = (abandoned.drop 2).take 4 ∧
      reduce [] r.code = .ok again ∧ again.code = r.code := by
  have hreduce : ∃ r, reduce [] abandoned = .ok r ∧ r.code = (abandoned.drop 2).take 4 :=
    ⟨_, rfl, by decide +kernel⟩
  obtain ⟨r, hr, hcode⟩ := hreduce
  obtain ⟨again, hagain, hsame⟩ := reduce_idempotent [] abandoned r hr
  exact ⟨r, again, hr, hcode, hagain, hsame⟩

end ReturnFlow

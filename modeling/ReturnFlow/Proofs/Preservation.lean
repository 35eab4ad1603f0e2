import Mathlib.Tactic.IntervalCases
import ReturnFlow.Proofs.Closure
import ReturnFlow.Proofs.Rank
import ReturnFlow.Proofs.Relocation

/-!
A body and its slice compute the same result.

The two runs go side by side. `Body.Aligned` relates their frames at a position: the outcomes are
the same; a statement of the slice is entered with the same operands, a statement outside with none
in the slice; and as long as more of the slice is to come, the variables that it loads are the same.
`Body.Aligned.keep` and `Body.Aligned.skip` carry this over an instruction, the second one because a
dropped instruction changes no variable that the slice follows (`Body.covers_of_use`).
-/

namespace ReturnFlow

/-- Loads the slot under a name that is ignored, so that it is not followed. -/
def Instruction.ReadsIgnored (ignored : List String) (i : Instruction) (slot : Nat) : Prop :=
  ∃ type name, i.op = .load slot type (some name) ∧ name ∈ ignored

theorem Instruction.reads_or_readsIgnored (ignored : List String) {i : Instruction} {slot : Nat}
    {type : String} {name : Option String} (h : i.op = .load slot type name) :
    i.Reads ignored slot ∨ i.ReadsIgnored ignored slot := by
  by_cases hname : ∃ n, name = some n ∧ n ∈ ignored
  · obtain ⟨n, rfl, hn⟩ := hname
    exact Or.inr ⟨type, n, h, hn⟩
  · exact Or.inl ⟨type, name, h, fun n hn hmem => hname ⟨n, hn, hmem⟩⟩

namespace Body

variable {b : Body} {ask : Call → Element} {locals : Locals} {p : Nat} {f g : Frame}

/-! ## Along the run of a body -/

/-- The frame in which the run of a body comes to a position. -/
def Reaches (b : Body) (ask : Call → Element) (locals : Locals) (p : Nat) (f : Frame) : Prop :=
  (Frame.init locals).run ask 0 (b.code.take p) = .ok f

theorem reaches_succ {i : Instruction} (hi : b.code[p]? = some i) :
    b.Reaches ask locals (p + 1) g ↔
      ∃ f, b.Reaches ask locals p f ∧ i.op.need ≤ f.stack.length ∧
        g = (f.effect p i.op).frame ask := by
  have hlen : (b.code.take p).length = p :=
    List.length_take_of_le (Nat.le_of_lt (List.getElem?_eq_some_iff.1 hi).1)
  unfold Reaches
  rw [List.take_add_one, hi, Option.toList_some, Frame.run_append, hlen, Nat.zero_add]
  cases (Frame.init locals).run ask 0 (b.code.take p) with
  | error e => simp [Except.bind]
  | ok f =>
    by_cases hneed : i.op.need ≤ f.stack.length
    · simp [Except.bind, Frame.run, hneed, eq_comm]
    · simp [Except.bind, Frame.run, hneed]

section
variable (hb : StackDepths.compute b.code = .ok b.depths)
include hb

/-- The table goes on from a position with the depth of the run. -/
theorem computeFrom_of_reaches (hp : p ≤ b.code.length) (h : b.Reaches ask locals p f) :
    StackDepths.computeFrom p f.stack.length (b.code.drop p) = .ok (b.depths.entries.drop p) := by
  induction p generalizing f with
  | zero =>
    cases h
    exact StackDepths.compute_eq_ok.1 hb
  | succ p ih =>
    obtain ⟨i, hi⟩ : ∃ i, b.code[p]? = some i := ⟨_, List.getElem?_eq_getElem hp⟩
    obtain ⟨f₀, hf₀, hneed, rfl⟩ := (reaches_succ hi).1 h
    have hrest := ih (Nat.le_of_succ_le hp) hf₀
    rw [List.drop_eq_getElem?_toList_append, hi, Option.toList_some, List.singleton_append] at hrest
    obtain ⟨next, es, hstep, hes, hsplit⟩ := StackDepths.computeFrom_cons_eq_ok.1 hrest
    have hnext : next = ((f₀.effect p i.op).frame ask).stack.length := by
      have hdepth := Frame.depth_effect p hneed
      rw [← StackDepths.eq_of_step hstep] at hdepth
      rw [Step.length_frame]
      exact (Int.ofNat_inj.1 hdepth).symm
    rw [← hnext, hes, ← List.tail_drop, hsplit]
    rfl

theorem before_of_reaches (hp : p < b.code.length) (h : b.Reaches ask locals p f) :
    b.depths.before p = StackDepths.cap f.stack.length := by
  have hrest := computeFrom_of_reaches hb hp.le h
  rw [List.drop_eq_getElem_cons hp] at hrest
  obtain ⟨next, es, -, -, hsplit⟩ := StackDepths.computeFrom_cons_eq_ok.1 hrest
  have hentry : b.depths.entries[p]? =
      some ⟨StackDepths.cap f.stack.length, StackDepths.cap next⟩ := by
    rw [← List.head?_drop, hsplit]
    rfl
  simp [StackDepths.before, StackDepths.get?, hentry]

theorem before_eq_zero_iff (hp : p < b.code.length) (h : b.Reaches ask locals p f) :
    b.depths.before p = 0 ↔ f.stack = [] := by
  rw [before_of_reaches hb hp h, StackDepths.cap_eq_zero_iff, List.length_eq_zero_iff]

/-- An operand that comes from a variable was loaded in the statement that is being run. -/
theorem exists_use_of_holds {x : Nat} (hp : p < b.code.length) (h : b.Reaches ask locals p f)
    (hx : f.Holds x) :
    ∃ q i, q < p ∧ b.code[q]? = some i ∧ i.Uses x ∧
      ∀ k, q < k → k ≤ p → 0 < b.depths.before k := by
  induction p generalizing f with
  | zero =>
    cases h
    obtain ⟨o, ho, -⟩ := hx
    cases ho
  | succ p ih =>
    have hlt : p < b.code.length := Nat.lt_of_succ_lt hp
    obtain ⟨i, hi⟩ : ∃ i, b.code[p]? = some i := ⟨_, List.getElem?_eq_getElem hlt⟩
    have hpos : 0 < b.depths.before (p + 1) := by
      refine Nat.pos_of_ne_zero fun hzero => ?_
      obtain ⟨o, ho, -⟩ := hx
      rw [(before_eq_zero_iff hb hp h).1 hzero] at ho
      cases ho
    obtain ⟨f₀, hf₀, -, rfl⟩ := (reaches_succ hi).1 h
    rcases hx.of_effect with hx | ⟨type, name, hop⟩
    · obtain ⟨q, j, hq, hqj, huses, hbetween⟩ := ih hlt hf₀ hx
      refine ⟨q, j, Nat.lt_succ_of_lt hq, hqj, huses, fun k hqk hkp => ?_⟩
      rcases Nat.lt_or_eq_of_le hkp with hkp | rfl
      · exact hbetween k hqk (Nat.le_of_lt_succ hkp)
      · exact hpos
    · refine ⟨p, i, Nat.lt_succ_self p, hi, ⟨type, name, Or.inl hop⟩, fun k hpk hkp => ?_⟩
      rwa [show k = p + 1 by omega]

/-! ## What the slice takes with it -/

/-- Where the slice begins or ends, the stack is empty. -/
theorem before_eq_zero_of_covers_ne (hp : p + 1 < b.code.length)
    (hne : b.slice.covers p ≠ b.slice.covers (p + 1)) : b.depths.before (p + 1) = 0 := by
  have hinv := b.inv_slice hb
  have hlinked := StackDepths.linked_of_compute hb
  have hsize := StackDepths.size_of_compute hb
  cases hcov : b.slice.covers p with
  | true =>
    obtain ⟨q, hq, hstart, hstop⟩ := Slice.covers_iff.1 hcov
    obtain ⟨-, -, hzero⟩ := hinv.span q hq
    have hend : p = q.stop := by
      by_contra hlt
      refine hne (hcov.trans (Slice.covers_iff.2 ⟨q, hq, ?_⟩).symm)
      exact ⟨by omega, by omega⟩
    rw [hlinked.succ p (by omega), hend, hzero]
  | false =>
    have hcov' : b.slice.covers (p + 1) = true := by
      cases h : b.slice.covers (p + 1) with
      | true => rfl
      | false => exact absurd (hcov.trans h.symm) hne
    obtain ⟨q, hq, hstart, hstop⟩ := Slice.covers_iff.1 hcov'
    have hbegin : q.start = p + 1 := by
      by_contra hlt
      have : b.slice.covers p = true := Slice.covers_iff.2 ⟨q, hq, by omega, by omega⟩
      rw [hcov] at this
      cases this
    rw [← hbegin, (hinv.span q hq).1]
    exact hlinked.before_start q.stop

/-- A statement that uses a variable which the slice follows belongs to the slice, unless it is
never closed. -/
theorem covers_of_use {x q r : Nat} {i j : Instruction} (hr : b.slice.covers r = true)
    (hri : b.code[r]? = some i) (hreads : i.Reads b.ignored x) (hqp : q ≤ p)
    (hqj : b.code[q]? = some j) (huses : j.Uses x)
    (hbetween : ∀ k, q < k → k ≤ p → 0 < b.depths.before k)
    (hlater : ∃ l, p ≤ l ∧ b.slice.covers l = true) : b.slice.covers p = true := by
  have hlinked := StackDepths.linked_of_compute hb
  obtain ⟨l, hpl, hl⟩ := hlater
  obtain ⟨span, hspan, -, hle⟩ := Slice.covers_iff.1 hl
  obtain ⟨-, hsize, hzero⟩ := (b.inv_slice hb).span span hspan
  obtain ⟨e, he⟩ := StackDepths.exists_stop? (hqp.trans (hpl.trans hle)) hsize hzero
  obtain ⟨hqe, hesize, hezero, -⟩ := StackDepths.stop?_eq_some_iff.1 he
  have hpe : p ≤ e := by
    by_contra hep
    have hpos := hbetween (e + 1) (by omega) (by omega)
    rw [hlinked.succ e (by omega), hezero] at hpos
    exact absurd hpos (Nat.lt_irrefl 0)
  refine (b.isLeast_slice hb).1.follow r hr i x hri hreads q j e hqj huses he ⟨?_, hpe⟩
  rw [hlinked.start_of_stop? he]
  exact (b.depths.start_le q).trans hqp

end

/-- The slots that the slice loads, followed or not. -/
def loaded (b : Body) : Set Nat :=
  {x | ∃ q i type name, b.slice.covers q = true ∧ b.code[q]? = some i ∧ i.op = .load x type name}

/-- Along the run, the variables that are read under an ignored name stay as they were. -/
def Keeps (b : Body) (ask : Call → Element) (locals : Locals) : Prop :=
  ∀ x, (∃ i ∈ b.code, i.ReadsIgnored b.ignored x) →
    ∀ p f, b.Reaches ask locals p f → f.locals.get? x = locals.get? x

section
variable (hb : StackDepths.compute b.code = .ok b.depths) (hkeeps : b.Keeps ask locals)
include hb hkeeps

/-- A dropped instruction changes no variable that the slice has yet to load. -/
theorem get?_of_dropped {x : Nat} {i : Instruction} (hx : x ∈ b.loaded)
    (hi : b.code[p]? = some i) (hcov : b.slice.covers p = false)
    (hlater : ∃ l, p ≤ l ∧ b.slice.covers l = true) (hf : b.Reaches ask locals p f)
    (hneed : i.op.need ≤ f.stack.length) :
    ((f.effect p i.op).frame ask).locals.get? x = f.locals.get? x := by
  obtain ⟨r, i', type, name, hr, hri, hload⟩ := hx
  have hp : p < b.code.length := (List.getElem?_eq_some_iff.1 hi).1
  rcases Instruction.reads_or_readsIgnored b.ignored hload with hreads | hreads
  · -- a use of the variable in this statement would have drawn it into the slice
    have hnone : ∀ q j, q ≤ p → b.code[q]? = some j → j.Uses x →
        ¬∀ k, q < k → k ≤ p → 0 < b.depths.before k := by
      intro q j hqp hqj huses hbetween
      rw [covers_of_use hb hr hri hreads hqp hqj huses hbetween hlater] at hcov
      cases hcov
    refine Frame.get?_effect ask p (fun hholds => ?_) fun type' name' hop => ?_
    · obtain ⟨q, j, hqp, hqj, huses, hbetween⟩ := exists_use_of_holds hb hp hf hholds
      exact hnone q j hqp.le hqj huses hbetween
    · exact hnone p i le_rfl hi ⟨type', name', Or.inr hop⟩ fun k _ _ => by omega
  · have hkept := hkeeps x ⟨i', List.mem_of_getElem? hri, hreads⟩
    rw [hkept p f hf]
    exact hkept (p + 1) _ ((reaches_succ hi).2 ⟨f, hf, hneed, rfl⟩)

end

/-! ## The two runs side by side -/

/-- The frame `f` of the body at a position and the frame `r` of its slice, which is at index
`j`. -/
structure Aligned (b : Body) (p j : Nat) (f r : Frame) : Prop where
  le : j ≤ p
  outcomes : f.outcomes = r.outcomes
  locals : (∃ l, p ≤ l ∧ b.slice.covers l = true) →
    ∀ x ∈ b.loaded, f.locals.get? x = r.locals.get? x
  kept : b.slice.covers p = true → f.stack = r.stack.map (Operand.shift (p - j))
  dropped : p < b.code.length → b.slice.covers p = false → r.stack = []

theorem aligned_init (b : Body) (locals : Locals) :
    b.Aligned 0 0 (.init locals) (.init locals) where
  le := le_rfl
  outcomes := rfl
  locals _ _ _ := rfl
  kept _ := rfl
  dropped _ _ := rfl

namespace Aligned

variable {j : Nat} {r : Frame} {i : Instruction}

theorem shifted (h : b.Aligned p j f r) (hcov : b.slice.covers p = true) :
    Frame.Shifted (p - j) b.loaded r f where
  stack := h.kept hcov
  locals := h.locals ⟨p, le_rfl, hcov⟩
  outcomes := h.outcomes

section
variable (hb : StackDepths.compute b.code = .ok b.depths)
include hb

/-- An instruction of the slice is run on both sides. -/
theorem keep (h : b.Aligned p j f r) (hi : b.code[p]? = some i) (hcov : b.slice.covers p = true)
    (hf : b.Reaches ask locals p f) (hneed : i.op.need ≤ f.stack.length) :
    b.Aligned (p + 1) (j + 1) ((f.effect p i.op).frame ask) ((r.effect j i.op).frame ask) := by
  have hload : ∀ x type name, i.op = .load x type name → x ∈ b.loaded :=
    fun x type name hop => ⟨p, i, type, name, hcov, hi, hop⟩
  have hshift := (h.shifted hcov).effect ask j hload
  rw [Nat.add_sub_cancel' h.le] at hshift
  refine ⟨Nat.succ_le_succ h.le, hshift.outcomes, fun _ => hshift.locals, fun _ => ?_, ?_⟩
  · rw [Nat.add_sub_add_right]
    exact hshift.stack
  · intro hp hcov'
    have hzero := before_eq_zero_of_covers_ne hb hp (by rw [hcov, hcov']; simp)
    have hnil := (before_eq_zero_iff hb hp ((reaches_succ hi).2 ⟨f, hf, hneed, rfl⟩)).1 hzero
    rwa [hshift.stack, List.map_eq_nil_iff] at hnil

/-- A dropped instruction is run in the body only. -/
theorem skip (hkeeps : b.Keeps ask locals) (h : b.Aligned p j f r) (hi : b.code[p]? = some i)
    (hcov : b.slice.covers p = false) (hf : b.Reaches ask locals p f)
    (hneed : i.op.need ≤ f.stack.length) :
    b.Aligned (p + 1) j ((f.effect p i.op).frame ask) r := by
  have hp : p < b.code.length := (List.getElem?_eq_some_iff.1 hi).1
  have hr : r.stack = [] := h.dropped hp hcov
  have hexit : i.op.isExit = true → f.stack = [] := by
    intro hexit
    rw [← before_eq_zero_iff hb hp hf]
    by_contra hpos
    have hmem := (b.isLeast_slice hb).1.exit p i hi hexit (Nat.pos_of_ne_zero hpos)
      ⟨b.depths.start_le p, le_rfl⟩
    rw [Set.mem_ofPred_eq, hcov] at hmem
    cases hmem
  refine ⟨Nat.le_succ_of_le h.le, ?_, ?_, ?_, fun _ _ => hr⟩
  · rw [Frame.outcomes_effect ask p hneed hexit, h.outcomes]
  · rintro ⟨l, hl, hlcov⟩ x hx
    have hlater : ∃ l, p ≤ l ∧ b.slice.covers l = true := ⟨l, Nat.le_of_succ_le hl, hlcov⟩
    rw [get?_of_dropped hb hkeeps hx hi hcov hlater hf hneed]
    exact h.locals hlater x hx
  · intro hcov'
    have hp' : p + 1 < b.code.length := (b.inv_slice hb).covers_lt hb hcov'
    have hzero := before_eq_zero_of_covers_ne hb hp' (by rw [hcov, hcov']; simp)
    rw [(before_eq_zero_iff hb hp' ((reaches_succ hi).2 ⟨f, hf, hneed, rfl⟩)).1 hzero, hr]
    rfl

end

end Aligned

theorem kept_take_succ (s : Slice) {code : List Instruction} {i : Instruction}
    (hi : code[p]? = some i) :
    s.kept (code.take (p + 1)) =
      s.kept (code.take p) ++ if s.covers p = true then [i] else [] :=
  s.select_take_succ hi

section
variable (hb : StackDepths.compute b.code = .ok b.depths) (hkeeps : b.Keeps ask locals)
include hb hkeeps

/-- As far as the body runs, its slice runs too, in aligned frames. -/
theorem exists_aligned (hp : p ≤ b.code.length) (hf : b.Reaches ask locals p f) :
    ∃ r, (Frame.init locals).run ask 0 (b.slice.kept (b.code.take p)) = .ok r ∧
      b.Aligned p (b.slice.kept (b.code.take p)).length f r := by
  induction p generalizing f with
  | zero =>
    cases hf
    exact ⟨_, rfl, aligned_init b locals⟩
  | succ p ih =>
    obtain ⟨i, hi⟩ : ∃ i, b.code[p]? = some i := ⟨_, List.getElem?_eq_getElem hp⟩
    obtain ⟨f₀, hf₀, hneed, rfl⟩ := (reaches_succ hi).1 hf
    obtain ⟨r, hr, hal⟩ := ih (Nat.le_of_succ_le hp) hf₀
    rw [kept_take_succ b.slice hi]
    cases hcov : b.slice.covers p with
    | true =>
      refine ⟨_, ?_, by simpa using hal.keep hb hi hcov hf₀ hneed⟩
      have hneed' := hneed
      rw [(hal.shifted hcov).length_eq] at hneed'
      rw [if_pos rfl, Frame.run_append, hr, Nat.zero_add]
      exact if_pos hneed'
    | false =>
      refine ⟨r, by simpa using hr, ?_⟩
      simpa using hal.skip hb hkeeps hi hcov hf₀ hneed

/-- The slice of a body ends with the outcomes of the body. -/
theorem exists_run_kept (hf : (Frame.init locals).run ask 0 b.code = .ok f) :
    ∃ r, (Frame.init locals).run ask 0 (b.slice.kept b.code) = .ok r ∧
      r.outcomes = f.outcomes := by
  rw [← List.take_length (l := b.code)] at hf
  obtain ⟨r, hr, hal⟩ := exists_aligned hb hkeeps le_rfl hf
  rw [List.take_length] at hr
  exact ⟨r, hr, hal.outcomes.symm⟩

end

end Body

/-! ## Simulations -/

namespace Simulation

/-- Does a simulation with a pool of its own leave a variable as it was, all the way? -/
def Unchanged (env : Setting) (code : List Instruction) (locals : Locals) (slot : Nat) : Prop :=
  ∀ p f, ((reach env code locals p).run .empty).1 = .ok f →
    f.locals.get? slot = locals.get? slot

end Simulation

open Simulation in
/-- **The slice preserves meaning.** If a body is simulated with a result, and the variables that it
reads under an ignored name stay as they were, then its reduction is simulated with the same
result. -/
theorem simulate_reduce (env : Setting) (ignored : List String) (code : List Instruction)
    (locals : Locals) (r : Reduction) (e : Element) (hreduce : reduce ignored code = .ok r)
    (hsim : ((simulate env code locals).run .empty).1 = .ok e)
    (hkeep : ∀ slot, (∃ i ∈ code, i.ReadsIgnored ignored slot) →
      Unchanged env code locals slot) :
    ((simulate env r.code locals).run .empty).1 = .ok e := by
  rw [← (gives_simulate env code locals).eq_run_empty] at hsim
  rw [← (gives_simulate env r.code locals).eq_run_empty]
  unfold reduce at hreduce
  cases hdepths : StackDepths.compute code with
  | error cause =>
    rw [hdepths] at hreduce
    cases hreduce
  | ok depths =>
    rw [hdepths] at hreduce
    cases hreduce
    let b : Body := ⟨code, depths, ignored⟩
    have hkeeps : b.Keeps (callResult env env.maxCallDepth []) locals := by
      intro slot hslot p f hf
      refine hkeep slot hslot p f ?_
      rw [← (gives_reach env code locals p).eq_run_empty]
      exact hf
    cases hrun : (Frame.init locals).run (callResult env env.maxCallDepth []) 0 code with
    | error cause =>
      rw [hrun] at hsim
      cases hsim
    | ok f =>
      rw [hrun] at hsim
      cases hsim
      obtain ⟨f', hrun', houtcomes⟩ := Body.exists_run_kept (b := b) hdepths hkeeps hrun
      show Except.map Frame.result ((Frame.init locals).run _ 0 (b.slice.kept code)) = _
      rw [hrun']
      exact congrArg Except.ok (congrArg Element.join houtcomes)

/-- A body that hands out a field of the receiver and then a new object. -/
def handingOut : List Instruction :=
  [⟨.push (.int 1) "I", none⟩, ⟨.store 2 "I" none, none⟩,
   ⟨.new "Lshop/Cart;", none⟩, ⟨.store 1 "Lshop/Cart;" none, none⟩,
   ⟨.load 0 "Lshop/Shop;" (some "this"), none⟩, ⟨.getField "shop/Shop" "size" "I", none⟩,
   ⟨.return, none⟩,
   ⟨.load 1 "Lshop/Cart;" (some "cart"), none⟩, ⟨.return, none⟩]

open Simulation in
theorem simulate_reduce_handingOut :
    let env : Setting := { maxCallDepth := 0, ignored := ["this"], resolver := Resolver.none }
    let locals := Locals.empty.bind 0 (.unknown "Lshop/Shop;")
    let e := Element.join [.unknown "Lshop/Cart;", .unknown "I"]
    ∃ r, reduce ["this"] handingOut = .ok r ∧ r.code = handingOut.drop 2 ∧
      Unchanged env handingOut locals 0 ∧
      ((simulate env handingOut locals).run .empty).1 = .ok e ∧
      ((simulate env r.code locals).run .empty).1 = .ok e := by
  intro env locals e
  have hreduce : ∃ r, reduce ["this"] handingOut = .ok r ∧ r.code = handingOut.drop 2 :=
    ⟨_, rfl, by decide +kernel⟩
  have hsim : ((simulate env handingOut locals).run .empty).1 = .ok e := rfl
  have hsame : Unchanged env handingOut locals 0 := by
    intro p f hf
    rcases Nat.lt_or_ge p 9 with hp | hp
    · interval_cases p <;> cases hf <;> rfl
    · rw [reach, List.take_of_length_le hp] at hf
      cases hf
      rfl
  obtain ⟨r, hr, hcode⟩ := hreduce
  refine ⟨r, hr, hcode, hsame, hsim, simulate_reduce env ["this"] handingOut locals r e hr hsim ?_⟩
  rintro slot ⟨i, hi, type, name, hop, hname⟩
  have hslot : slot = 0 := by
    simp only [handingOut, List.mem_cons, List.not_mem_nil, or_false] at hi
    rcases hi with rfl | rfl | rfl | rfl | rfl | rfl | rfl | rfl | rfl <;> simp_all
  rw [hslot]
  exact hsame

end ReturnFlow

import Mathlib.Data.Set.Card
import ReturnFlow.Proofs.Machine

/-!
The call stack of a simulation, and what its bound is good for.

* `Machine.move_step`: a step keeps the call stack, puts on it a method that is not yet there as
  long as the bound allows, or takes the top off.
* `Machine.Inv`: so the stack always holds the callees of the bodies that were left, each of them
  once, and no more than allowed.
* `Machine.forbids_withBound`: if the bound is not below the number of methods with a body, a full
  stack holds all of them, so that only the methods on the stack are kept from being entered.
-/

namespace ReturnFlow

/-! ## Bodies from the project -/

namespace Pool

/-- The bodies in the pool are those of methods that the resolver knows. -/
def DrawnFrom (resolver : Resolver) (p : Pool) : Prop :=
  ∀ m callee, p.answer? m = some (.ok callee) → (resolver m).isSome

variable {resolver : Resolver} {ignored : List String} {p : Pool}

theorem isSome_of_resolve {m : Method} {callee : ReducedMethod}
    (h : (resolve resolver ignored m).1 = .ok callee) : (resolver m).isSome := by
  unfold resolve at h
  split at h
  · cases h
  · rename_i hm
    rw [hm]
    rfl

theorem DrawnFrom.isSome_of_lookup (h : p.DrawnFrom resolver) {m : Method}
    {callee : ReducedMethod} (hm : (p.lookup resolver ignored m).1 = .ok callee) :
    (resolver m).isSome := by
  unfold Pool.lookup at hm
  split at hm
  · rename_i answer hanswer
    cases hm
    exact h m callee hanswer
  · exact isSome_of_resolve hm

theorem DrawnFrom.lookup (h : p.DrawnFrom resolver) (m : Method) :
    (p.lookup resolver ignored m).2.1.DrawnFrom resolver := by
  intro m' callee hm'
  unfold Pool.lookup at hm'
  split at hm'
  · exact h m' callee hm'
  · simp only [answer?, List.lookup_append, Option.or_eq_some_iff] at hm'
    rcases hm' with hm' | ⟨-, hm'⟩
    · exact h m' callee hm'
    · rw [List.lookup_cons] at hm'
      split at hm'
      · rename_i heq
        rw [beq_iff_eq.1 heq]
        exact isSome_of_resolve (Option.some.inj hm')
      · cases hm'

end Pool

/-! ## Steps -/

namespace Machine

/-- What a step does to the call stack and to the pool. -/
inductive Move (env : Setting) (s t : Machine) : Prop
  | stay (callers : t.callers = s.callers) (active : t.active = s.active)
      (pool : t.session.pool = s.session.pool ∨
        ∃ m, t.session.pool = (s.session.pool.lookup env.resolver env.ignored m).2.1)
  /-- A body that was found is entered. -/
  | enter (m : Method) (p : Pending) (callee : ReducedMethod)
      (found : (s.session.pool.lookup env.resolver env.ignored m).1 = .ok callee)
      (callers : t.callers = ⟨m, p⟩ :: s.callers) (active : t.active = m :: s.active)
      (depth : s.active.length < env.maxCallDepth) (fresh : m ∉ s.active)
      (pool : t.session.pool = (s.session.pool.lookup env.resolver env.ignored m).2.1)
  /-- A body has ended, well or not. -/
  | exit (caller : Caller) (callers : s.callers = caller :: t.callers)
      (active : t.active = s.active.tail) (pool : t.session.pool = s.session.pool)

theorem move_call (env : Setting) (s : Machine) (p : Pending) (c : Call) :
    Move env s (s.call env p c) := by
  cases hasked : ((Session.lookup env c.method).run s.session).1 with
  | error cause =>
    simp only [call, hasked]
    exact .stay rfl rfl (Or.inr ⟨c.method, rfl⟩)
  | ok callee =>
    by_cases hguard : s.Forbids env c.method
    · simp only [call, hasked, if_pos hguard]
      exact .stay rfl rfl (Or.inr ⟨c.method, rfl⟩)
    · simp only [call, hasked, if_neg hguard]
      rw [Forbids, not_or, Nat.not_le] at hguard
      exact .enter c.method p callee hasked rfl rfl hguard.1 hguard.2 rfl

theorem pool_afterInstruction (index : Nat) (f : Frame) (i : Instruction)
    (rest : List Instruction) (σ : Session) :
    ((Control.afterInstruction index f i rest).run σ).2.pool = σ.pool := by
  unfold Control.afterInstruction
  cases f.step index i.op with
  | error cause => rfl
  | ok s => cases s <;> rfl

theorem pool_returned (m : Method) (r : Except Failure Element) (σ : Session) :
    ((Simulation.returned m r).run σ).2.pool = σ.pool := by
  cases r <;> rfl

theorem move_step (env : Setting) (s : Machine) : Move env s (s.step env) := by
  obtain ⟨control, callers, active, σ⟩ := s
  cases control with
  | execute index f rest =>
    cases rest with
    | nil => exact .stay rfl rfl (Or.inl rfl)
    | cons i rest => exact .stay rfl rfl (Or.inl (pool_afterInstruction index f i rest σ))
  | answer p =>
    obtain ⟨index, f, rest, type, targets, answers⟩ := p
    cases targets with
    | nil => exact .stay rfl rfl (Or.inl rfl)
    | cons t targets =>
      cases t with
      | known e => exact .stay rfl rfl (Or.inl rfl)
      | project c => exact move_call env _ _ c
  | finish result =>
    cases callers with
    | nil => exact .stay rfl rfl (Or.inl rfl)
    | cons caller callers => exact .exit caller rfl rfl (pool_returned caller.callee result σ)

/-- What every move keeps holds along a run. -/
theorem Leads.preserves {env : Setting} {base : List Caller} {P : Machine → Prop}
    (hP : ∀ s t, P s → Move env s t → P t) {s t : Machine} (hst : Leads env base s t)
    (h : P s) : P t := by
  induction hst with
  | refl => exact h
  | tail _ hstep ih =>
    rw [hstep.2]
    exact hP _ _ ih (move_step env _)

/-! ## What the call stack holds -/

/-- The call stack holds the callees of the bodies that were left, each of them once, and no more
than allowed. -/
structure Inv (env : Setting) (s : Machine) : Prop where
  active : s.active = s.callers.map Caller.callee
  nodup : s.active.Nodup
  length : s.active.length ≤ env.maxCallDepth

theorem inv_start (env : Setting) (code : List Instruction) (locals : Locals) (σ : Session) :
    Inv env (start code locals σ) where
  active := rfl
  nodup := List.nodup_nil
  length := Nat.zero_le _

theorem Inv.move {env : Setting} {s t : Machine} (h : Inv env s) (hst : Move env s t) :
    Inv env t := by
  cases hst with
  | stay callers active _ =>
    refine ⟨?_, ?_, ?_⟩ <;> rw [active]
    · rw [callers, h.active]
    · exact h.nodup
    · exact h.length
  | enter m p callee _ callers active depth fresh _ =>
    refine ⟨?_, ?_, ?_⟩ <;> rw [active]
    · rw [callers, List.map_cons, h.active]
    · exact List.nodup_cons.2 ⟨fresh, h.nodup⟩
    · exact depth
  | exit caller callers active _ =>
    refine ⟨?_, ?_, ?_⟩ <;> rw [active]
    · rw [h.active, callers, List.map_cons, List.tail_cons]
    · exact h.nodup.tail
    · rw [List.length_tail]
      exact (Nat.sub_le _ _).trans h.length

open Simulation in
/-- **A simulation comes to an end and keeps its call stack in order.** Whatever the project, the
machine halts with what the simulation computes. On the way, the methods that are being followed are
pairwise distinct and no more than allowed; and after each call, however it was answered, they are
what they were before it, while in between no body below the call is gone back to. -/
theorem simulate_halts (env : Setting) (code : List Instruction) (locals : Locals) (σ : Session) :
    Leads env [] (start code locals σ) (halted ((simulate env code locals).run σ)) ∧
    ∀ s, Leads env [] (start code locals σ) s →
      s.active = s.callers.map Caller.callee ∧ s.active.Nodup ∧
      s.active.length ≤ env.maxCallDepth ∧
      ∀ index f m label rest, s.control = .execute index f (⟨.invoke m, label⟩ :: rest) →
        ∃ control σ', Leads env s.callers s ⟨control, s.callers, s.active, σ'⟩ ∧
          ((∃ g, control = .execute (index + 1) g rest) ∨
            f.stack.length < (Operation.invoke m).need ∧
              control = .finish (.error (.underflow index))) := by
  refine ⟨leads_halted env code locals σ, fun s hs => ?_⟩
  have hinv := hs.preserves (fun _ _ => Inv.move) (inv_start env code locals σ)
  refine ⟨hinv.active, hinv.nodup, hinv.length, fun index f m label rest hcontrol => ?_⟩
  obtain ⟨control, K, A, τ⟩ := s
  cases hcontrol
  by_cases hneed : (Operation.invoke m).need ≤ f.stack.length
  · have hfollow := leads_follow (env.maxCallDepth - A.length) K A (Nat.sub_add_cancel hinv.length)
    exact ⟨_, _, leads_instruction hfollow index f ⟨.invoke m, label⟩ rest τ hneed,
      Or.inl ⟨_, rfl⟩⟩
  · have hlt := Nat.not_le.1 hneed
    exact ⟨_, _, Leads.of_step (List.suffix_refl K)
      (step_of_lt_need index f ⟨.invoke m, label⟩ rest τ hlt), Or.inr ⟨hlt, rfl⟩⟩

/-! ## A bound that covers the project -/

/-- What is followed, and what is in the pool, comes from the project. -/
structure Within (resolver : Resolver) (s : Machine) : Prop where
  active : ∀ m ∈ s.active, (resolver m).isSome
  pool : s.session.pool.DrawnFrom resolver

theorem Within.move {env : Setting} {s t : Machine} (h : Within env.resolver s)
    (hst : Move env s t) : Within env.resolver t := by
  cases hst with
  | stay _ active pool =>
    refine ⟨?_, ?_⟩
    · rw [active]
      exact h.active
    · rcases pool with pool | ⟨m, pool⟩ <;> rw [pool]
      · exact h.pool
      · exact h.pool.lookup m
  | enter m p callee found _ active _ _ pool =>
    refine ⟨?_, ?_⟩
    · rw [active]
      intro m' hm'
      rcases List.mem_cons.1 hm' with rfl | hm'
      · exact h.pool.isSome_of_lookup found
      · exact h.active m' hm'
    · rw [pool]
      exact h.pool.lookup m
  | exit _ _ active pool =>
    refine ⟨?_, ?_⟩
    · rw [active]
      exact fun m hm => h.active m (List.mem_of_mem_tail hm)
    · rw [pool]
      exact h.pool

/-- A list of distinct methods that is as long as the project is large holds each of them. -/
theorem mem_of_encard_le {S : Set Method} {n : Nat} (hn : S.encard ≤ n) {A : List Method}
    (hnodup : A.Nodup) (hA : ∀ m ∈ A, m ∈ S) (hlen : n ≤ A.length) {m : Method} (hm : m ∈ S) :
    m ∈ A := by
  by_contra hmem
  have hsub : ((m :: A).toFinset : Set Method) ⊆ S := by
    intro m' hm'
    rcases List.mem_cons.1 (List.mem_toFinset.1 hm') with rfl | hm'
    · exact hm
    · exact hA m' hm'
  have hcard := (Set.encard_le_encard hsub).trans hn
  rw [Set.encard_coe_eq_coe_finsetCard,
    List.toFinset_card_of_nodup (List.nodup_cons.2 ⟨hmem, hnodup⟩)] at hcard
  have hle : A.length + 1 ≤ n := by exact_mod_cast hcard
  omega

end Machine

/-- The same setting with another bound on nested calls. -/
def Setting.withBound (env : Setting) (d : Nat) : Setting := { env with maxCallDepth := d }

namespace Machine

theorem Leads.eq_of_halted {env : Setting} {s : Machine}
    {r r' : Except Failure Element × Session} (h : Leads env [] s (halted r))
    (h' : Leads env [] s (halted r')) : r = r' := by
  have hfix : ∀ {r t}, Leads env [] (halted r) t → t = halted r := by
    intro r t ht
    induction ht with
    | refl => rfl
    | tail _ hstep ih =>
      rw [hstep.2, ih]
      rfl
  have heq : halted r = halted r' := by
    rcases Relation.ReflTransGen.total_of_right_unique
        (fun _ _ _ h₁ h₂ => h₁.2.trans h₂.2.symm) h h' with hle | hle
    · exact (hfix hle).symm
    · exact hfix hle
  cases r
  cases r'
  cases heq
  rfl

section
variable {env : Setting} {n : Nat} (hn : {m | (env.resolver m).isSome}.encard ≤ n)
include hn

/-- If the bound covers the project, it forbids nothing that the methods on the call stack do not
forbid. -/
theorem forbids_withBound {d : Nat} (hd : n ≤ d) {s : Machine} (hnodup : s.active.Nodup)
    (hs : Within env.resolver s) {m : Method} {callee : ReducedMethod}
    (hfound : ((Session.lookup env m).run s.session).1 = .ok callee) :
    s.Forbids (env.withBound d) m ↔ m ∈ s.active := by
  refine ⟨?_, Or.inr⟩
  rintro (hfull | hmem)
  · exact mem_of_encard_le hn hnodup hs.active (hd.trans hfull) (hs.pool.isSome_of_lookup hfound)
  · exact hmem

variable {d d' : Nat} (hd : n ≤ d) (hd' : n ≤ d')
include hd hd'

theorem call_withBound {s : Machine} (hnodup : s.active.Nodup) (hs : Within env.resolver s)
    (p : Pending) (c : Call) :
    s.call (env.withBound d) p c = s.call (env.withBound d') p c := by
  cases hasked : ((Session.lookup env c.method).run s.session).1 with
  | error cause =>
    have hlookup : ∀ d, ((Session.lookup (env.withBound d) c.method).run s.session).1 =
        .error cause := fun _ => hasked
    simp only [call, hlookup]
    rfl
  | ok callee =>
    have hlookup : ∀ d, ((Session.lookup (env.withBound d) c.method).run s.session).1 =
        .ok callee := fun _ => hasked
    have hsame : s.Forbids (env.withBound d) c.method ↔ s.Forbids (env.withBound d') c.method := by
      rw [forbids_withBound hn hd hnodup hs hasked, forbids_withBound hn hd' hnodup hs hasked]
    by_cases hguard : s.Forbids (env.withBound d) c.method
    · simp only [call, hlookup, if_pos hguard, if_pos (hsame.1 hguard)]
      rfl
    · simp only [call, hlookup, if_neg hguard, if_neg (mt hsame.2 hguard)]
      rfl

/-- Under two bounds that cover the project, the machine takes the same step. -/
theorem step_withBound {s : Machine} (hnodup : s.active.Nodup) (hs : Within env.resolver s) :
    s.step (env.withBound d) = s.step (env.withBound d') := by
  obtain ⟨control, callers, active, σ⟩ := s
  cases control with
  | execute index f rest => cases rest <;> rfl
  | answer p =>
    obtain ⟨index, f, rest, type, targets, answers⟩ := p
    cases targets with
    | nil => rfl
    | cons t targets =>
      cases t with
      | known e => rfl
      | project c => exact call_withBound hn hd hd' hnodup hs _ c
  | finish result => rfl

/-- Under two bounds that cover the project, the machine takes the same steps. -/
theorem leads_withBound {s t : Machine} (hinv : Inv (env.withBound d) s)
    (hs : Within env.resolver s) (h : Leads (env.withBound d) [] s t) :
    Leads (env.withBound d') [] s t := by
  induction h with
  | refl => exact .refl s
  | @tail t u hst hstep ih =>
    have hst : Leads (env.withBound d) [] s t := hst
    have hnodup := (hst.preserves (fun _ _ => Inv.move) hinv).nodup
    have ht : Within env.resolver t := hst.preserves (fun _ _ => Within.move) hs
    refine ih.trans (.of_step List.nil_suffix ?_)
    rw [hstep.2, step_withBound hn hd hd' hnodup ht]

end

/-- **A bound that covers the project makes no difference.** If no more than `n` methods have a
body, then under any two bounds of at least `n` a simulation has the same result, and leaves the same
pool and log; and on the way a method whose body is found is kept from being entered exactly if it is
being followed already. -/
theorem simulate_withBound (env : Setting) {n d d' : Nat}
    (hn : {m | (env.resolver m).isSome}.encard ≤ n) (hd : n ≤ d) (hd' : n ≤ d')
    (code : List Instruction) (locals : Locals) (σ : Session)
    (hσ : σ.pool.DrawnFrom env.resolver) :
    (simulate (env.withBound d) code locals).run σ =
        (simulate (env.withBound d') code locals).run σ ∧
      ∀ s, Leads (env.withBound d) [] (start code locals σ) s →
        ∀ m callee, ((Session.lookup env m).run s.session).1 = .ok callee →
          (s.Forbids (env.withBound d) m ↔ m ∈ s.active) := by
  have hinv := inv_start (env.withBound d) code locals σ
  have hwithin : Within env.resolver (start code locals σ) := ⟨by simp [start], hσ⟩
  constructor
  · have hhalt := leads_withBound hn hd hd' hinv hwithin
      (leads_halted (env.withBound d) code locals σ)
    exact hhalt.eq_of_halted (leads_halted (env.withBound d') code locals σ)
  · intro s hs m callee hfound
    have hnodup := (hs.preserves (fun _ _ => Inv.move) hinv).nodup
    have hs' : Within env.resolver s := hs.preserves (fun _ _ => Within.move) hwithin
    exact forbids_withBound hn hd hnodup hs' hfound

/-- A method of which only the name matters. -/
def named (name : String) : Method := ⟨"shop/Shop", name, Descriptor.string, true, []⟩

/-- Two methods that call each other, the second of which may also return a constant. -/
def roundTrip : Resolver := .ofList
  [(named "there", [⟨.invoke (named "back"), none⟩, ⟨.return, none⟩]),
   (named "back", [⟨.invoke (named "there"), none⟩, ⟨.return, none⟩,
     ⟨.push (.string "end") Descriptor.string, none⟩, ⟨.return, none⟩])]

theorem encard_roundTrip : {m | (roundTrip m).isSome}.encard ≤ 2 := by
  have hsub : {m | (roundTrip m).isSome} ⊆ {named "there", named "back"} := by
    intro m hm
    simp only [roundTrip, Resolver.ofList, Set.mem_ofPred_eq, List.lookup_isSome_iff] at hm
    obtain ⟨entry, hentry, heq⟩ := hm
    rw [beq_iff_eq] at heq
    subst heq
    simp only [List.mem_cons, List.not_mem_nil, or_false] at hentry
    rcases hentry with rfl | rfl <;> simp
  exact (Set.encard_le_encard hsub).trans (Set.encard_pair (by decide)).le

/-- Two calls have to be nested to find the constant, and more make no difference. -/
theorem simulate_withBound_roundTrip :
    let env : Setting := { resolver := roundTrip }
    let code : List Instruction := [⟨.invoke (named "there"), none⟩, ⟨.return, none⟩]
    let run := fun d => (simulate (env.withBound d) code .empty).run .empty
    {m | (env.resolver m).isSome}.encard ≤ 2 ∧ run 2 = run 32 ∧
      (run 2).1.map Element.strings = .ok ["end"] ∧ (run 1).1.map Element.strings = .ok [] := by
  intro env code run
  have hempty : Session.empty.pool.DrawnFrom env.resolver := by
    intro m callee h
    cases h
  exact ⟨encard_roundTrip,
    (simulate_withBound env encard_roundTrip le_rfl (by decide) code .empty .empty hempty).1,
    by decide +kernel, by decide +kernel⟩

end Machine

end ReturnFlow

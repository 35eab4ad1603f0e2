import Mathlib.Data.List.Perm.Basic
import ReturnFlow.Analysis
import ReturnFlow.Proofs.Answer

/-!
Methods that are analysed with one pool.

* `Analysis.gives_run`: an analysis gives, in every session with a sound pool, the outcome that it
  has with a pool of its own.
* `gives_analyzeScheduled`: in whatever order analyses are run, they have the outcomes that they
  have alone.
* `mem_methods_analyzeScheduled`: the pool holds what any one of them asks for.
* `analyzeAll_congr`: a run logs and measures nothing but these outcomes and the size of the pool.
-/

namespace ReturnFlow

theorem exists_gives_simulateMethod (env : Setting) (code : List Instruction) (locals : Locals) :
    ∃ r, Gives env (simulateMethod env code locals) r := by
  obtain ⟨r, h⟩ : ∃ r, Gives env (simulate env code locals) r :=
    ⟨_, Simulation.gives_simulate env code locals⟩
  refine ⟨r, h.bind ?_⟩
  cases r with
  | error cause => exact .pure _
  | ok e => exact (Gives.emit _).bind (.pure _)

namespace Analysis

theorem exists_gives_run (env : Setting) (body : MethodBody) : ∃ r, Gives env (run env body) r := by
  unfold run
  cases reduce env.ignored body.code with
  | error e => exact ⟨_, .pure _⟩
  | ok r =>
    obtain ⟨result, hresult⟩ := exists_gives_simulateMethod env r.code (.ofUnknown body.method)
    have hevents : Gives env (r.events.forM Session.emit) () := Gives.forM fun e _ => Gives.emit e
    cases result with
    | error cause => exact ⟨_, hevents.bind ((Gives.emit _).bind (hresult.bind (.pure _)))⟩
    | ok e => exact ⟨_, hevents.bind ((Gives.emit _).bind (hresult.bind (.pure _)))⟩

/-- An analysis gives the outcome that it has with a pool of its own. -/
theorem gives_run (env : Setting) (body : MethodBody) :
    Gives env (run env body) (analyze env body).1 := by
  obtain ⟨r, h⟩ := exists_gives_run env body
  rwa [h.eq_run_empty] at h

end Analysis

/-- What one analysis after the other leaves in the pool of a session. -/
theorem mem_methods_mapM {α β : Type} {env : Setting} {f : α → StateM Session β} {g : α → β}
    (hf : ∀ x, Gives env (f x) (g x)) (l : List α) {σ : Session} (hσ : σ.pool.Sound env)
    (m : Method) :
    m ∈ ((l.mapM f).run σ).2.pool.methods ↔
      m ∈ σ.pool.methods ∨ ∃ x ∈ l, m ∈ ((f x).run .empty).2.pool.methods := by
  induction l generalizing σ with
  | nil => exact (or_iff_left (by simp)).symm
  | cons x l ih =>
    obtain ⟨-, hsound, hasked⟩ := (hf x).run hσ
    have hrest := ih hsound
    have hrun : (((x :: l).mapM f).run σ).2 = ((l.mapM f).run ((f x).run σ).2).2 := by
      rw [List.mapM_cons]; rfl
    rw [hrun, hrest, hasked, or_assoc]
    simp

/-! ## Analyses in any order -/

theorem filterMap_getElem?_range {α : Type} (l : List α) :
    (List.range l.length).filterMap (fun i => l[i]?) = l := by
  induction l with
  | nil => rfl
  | cons a l ih =>
    rw [List.length_cons, List.range_succ_eq_map, List.filterMap_cons, List.filterMap_map]
    exact congrArg (a :: ·) ih

section
variable {env : Setting} {bodies : List MethodBody} {schedule : List (MethodBody × Nat)}
  (hperm : schedule.Perm bodies.zipIdx)
include hperm

theorem mem_schedule {body : MethodBody} {position : Nat} :
    (body, position) ∈ schedule ↔ bodies[position]? = some body := by
  rw [hperm.mem_iff, List.mk_mem_zipIdx_iff_getElem?]

/-- Looking an outcome up by its position finds that of the body there, wherever in the schedule
it was run. -/
theorem lookup_done {α : Type} (outcome : MethodBody → α) (position : Nat) :
    (schedule.map fun job => (job.2, outcome job.1)).lookup position =
      (bodies.map outcome)[position]? := by
  rw [List.getElem?_map]
  cases hbody : bodies[position]? with
  | none =>
    rw [Option.map_none, List.lookup_eq_none_iff]
    rintro p hp
    obtain ⟨⟨body, position'⟩, hjob, rfl⟩ := List.mem_map.1 hp
    rw [bne_iff_ne]
    rintro rfl
    rw [mem_schedule hperm, hbody] at hjob
    cases hjob
  | some body =>
    have hmem : (body, position) ∈ schedule := (mem_schedule hperm).2 hbody
    cases hlook : (schedule.map fun job => (job.2, outcome job.1)).lookup position with
    | none =>
      rw [List.lookup_eq_none_iff] at hlook
      have := hlook (position, outcome body) (List.mem_map.2 ⟨(body, position), hmem, rfl⟩)
      simp at this
    | some r =>
      obtain ⟨l₁, l₂, hsplit, -⟩ := List.lookup_eq_some_iff.1 hlook
      have hr : (position, r) ∈ schedule.map fun job => (job.2, outcome job.1) := by
        rw [hsplit]; simp
      obtain ⟨⟨body', position'⟩, hjob, heq⟩ := List.mem_map.1 hr
      cases heq
      rw [mem_schedule hperm, hbody] at hjob
      cases hjob
      rfl

theorem gives_analyzeScheduled :
    Gives env (analyzeScheduled env schedule) (bodies.map fun body => (analyze env body).1) := by
  have hdone : Gives env
      (schedule.mapM fun job => do return (job.2, ← Analysis.run env job.1))
      (schedule.map fun job => (job.2, (analyze env job.1).1)) :=
    Gives.mapM fun job _ => (Analysis.gives_run env job.1).bind (.pure _)
  have hlist : (List.range schedule.length).filterMap (fun position =>
        (schedule.map fun job => (job.2, (analyze env job.1).1)).lookup position) =
      bodies.map fun body => (analyze env body).1 := by
    have hlen : schedule.length = (bodies.map fun body => (analyze env body).1).length := by
      rw [hperm.length_eq, List.length_zipIdx, List.length_map]
    simp only [lookup_done hperm fun body => (analyze env body).1]
    rw [hlen, filterMap_getElem?_range]
  rw [← hlist]
  exact hdone.bind (.pure _)

/-- The pool of a schedule holds what some analysis alone asks for. -/
theorem mem_methods_analyzeScheduled (m : Method) :
    m ∈ ((analyzeScheduled env schedule).run .empty).2.pool.methods ↔
      ∃ body ∈ bodies, m ∈ (analyze env body).2.pool.methods := by
  have hjob : ∀ job : MethodBody × Nat,
      Gives env (do return (job.2, ← Analysis.run env job.1)) (job.2, (analyze env job.1).1) :=
    fun job => (Analysis.gives_run env job.1).bind (.pure _)
  have key := mem_methods_mapM hjob schedule (Session.sound_empty env) m
  refine key.trans ?_
  simp only [Session.empty, Pool.methods, Pool.empty, List.map_nil, List.not_mem_nil, false_or]
  constructor
  · rintro ⟨⟨body, position⟩, hmem, hm⟩
    rw [mem_schedule hperm] at hmem
    exact ⟨body, List.mem_of_getElem? hmem, hm⟩
  · rintro ⟨body, hbody, hm⟩
    obtain ⟨position, hposition⟩ := List.mem_iff_getElem?.1 hbody
    exact ⟨(body, position), (mem_schedule hperm).2 hposition, hm⟩

end

/-! ## What a run reports -/

theorem gauges_recordOutcome (results : List (Except AnalysisError Analysis)) (m : Metrics) :
    (results.foldl Metrics.recordOutcome m).gauges = m.gauges := by
  induction results generalizing m with
  | nil => rfl
  | cons r results ih =>
    rw [List.foldl_cons, ih]
    cases r <;> rfl

theorem gauge_analyzeAll (env : Setting) (threads : Nat) (bodies : List MethodBody)
    (milliseconds : Nat) (schedule : List (MethodBody × Nat)) :
    (analyzeAll env threads bodies milliseconds schedule).metrics.gauge? Metrics.poolMethods =
      some (.ofInt (analyzeAll env threads bodies milliseconds schedule).pool.size) := by
  show Keyed.get? Metrics.poolMethods (Keyed.set Metrics.poolMethods _
    (List.foldl Metrics.recordOutcome .empty _).gauges) = _
  rw [gauges_recordOutcome]
  exact List.lookup_cons_self

/-- What a run logs and measures is determined by the outcomes and the size of the pool. -/
theorem analyzeAll_congr {env : Setting} {schedule schedule' : List (MethodBody × Nat)}
    (hresults : ((analyzeScheduled env schedule).run .empty).1 =
      ((analyzeScheduled env schedule').run .empty).1)
    (hsize : ((analyzeScheduled env schedule).run .empty).2.pool.size =
      ((analyzeScheduled env schedule').run .empty).2.pool.size)
    (threads : Nat) (bodies : List MethodBody) (milliseconds : Nat) :
    (analyzeAll env threads bodies milliseconds schedule).log =
        (analyzeAll env threads bodies milliseconds schedule').log ∧
      (analyzeAll env threads bodies milliseconds schedule).metrics =
        (analyzeAll env threads bodies milliseconds schedule').metrics := by
  simp only [analyzeAll]
  generalize (analyzeScheduled env schedule).run .empty = done at hresults hsize ⊢
  generalize (analyzeScheduled env schedule').run .empty = done' at hresults hsize ⊢
  obtain ⟨results, session⟩ := done
  obtain ⟨results', session'⟩ := done'
  simp only at hresults hsize
  simp only [hresults, hsize, and_self]

/-- **Sharing a pool cannot be observed.** In whatever order methods are analysed with one pool,
each has the outcome that it has with a pool of its own, whether others fail or not; the run over
all of them lists these outcomes in the order of the methods; and the pool ends up with the same
methods as in the order of the methods, so that the run logs and measures the same, the size of the
pool included. -/
theorem analyzeScheduled_eq_analyze (env : Setting) (threads milliseconds : Nat)
    (bodies : List MethodBody) (schedule : List (MethodBody × Nat))
    (hperm : schedule.Perm bodies.zipIdx) :
    let shared := (analyzeScheduled env schedule).run .empty
    let report := analyzeAll env threads bodies milliseconds schedule
    let inOrder := analyzeAll env threads bodies milliseconds
    shared.1 = bodies.map (fun body => (analyze env body).1) ∧
      report.results = bodies.map (fun body => (analyze env body).1) ∧
      shared.2.pool.methods.Perm inOrder.pool.methods ∧ report.pool = shared.2.pool ∧
      (∀ m, m ∈ report.pool.methods ↔ ∃ body ∈ bodies, m ∈ (analyze env body).2.pool.methods) ∧
      report.log = inOrder.log ∧ report.metrics = inOrder.metrics ∧
      report.metrics.gauge? Metrics.poolMethods = some (.ofInt shared.2.pool.size) ∧
      ∃ failed, report.log.getLast? =
        some (.analysisComplete bodies.length failed shared.2.pool.size threads) := by
  intro shared report inOrder
  have hscheduled := (gives_analyzeScheduled hperm).run (Session.sound_empty env)
  have hordered := (gives_analyzeScheduled (.refl bodies.zipIdx)).run (Session.sound_empty env)
  have hmethods : shared.2.pool.methods.Perm inOrder.pool.methods := by
    refine (List.perm_ext_iff_of_nodup hscheduled.2.1.nodup hordered.2.1.nodup).2 fun m => ?_
    rw [mem_methods_analyzeScheduled hperm]
    exact (mem_methods_analyzeScheduled (.refl bodies.zipIdx) m).symm
  have hsize : shared.2.pool.size = inOrder.pool.size := by
    have hlen := hmethods.length_eq
    simpa [Pool.methods, Pool.size] using hlen
  obtain ⟨hlog, hmetrics⟩ :=
    analyzeAll_congr (hscheduled.1.trans hordered.1.symm) hsize threads bodies milliseconds
  exact ⟨hscheduled.1, hscheduled.1, hmethods, rfl, mem_methods_analyzeScheduled hperm, hlog,
    hmetrics, gauge_analyzeAll env threads bodies milliseconds schedule, _, List.getLast?_concat⟩

/-- A method whose body calls another one and returns its answer. -/
def caller (name : String) (callee : Method) : MethodBody :=
  ⟨⟨"shop/Shop", name, "I", true, []⟩, [⟨.invoke callee, none⟩, ⟨.return, none⟩]⟩

/-- From the last to the first: the methods are asked for in another order, and a method that cannot
be analysed stands between two that can. -/
theorem analyzeScheduled_reverse :
    let known : Method := ⟨"shop/Cart", "size", "I", true, []⟩
    let unknown : Method := ⟨"shop/Cart", "total", "I", true, []⟩
    let env : Setting :=
      { resolver := .ofList [(known, [⟨.push (.int 3) "I", none⟩, ⟨.return, none⟩])] }
    let failing : MethodBody := ⟨⟨"shop/Shop", "failing", "V", true, []⟩, [⟨.throw, none⟩]⟩
    let bodies := [caller "first" known, failing, caller "last" unknown]
    let schedule := bodies.zipIdx.reverse
    let shared := (analyzeScheduled env schedule).run .empty
    let report := analyzeAll env 1 bodies 0 schedule
    let inOrder := analyzeAll env 1 bodies 0
    schedule.Perm bodies.zipIdx ∧
      shared.1 = bodies.map (fun body => (analyze env body).1) ∧
      shared.2.pool.methods = [unknown, known] ∧ inOrder.pool.methods = [known, unknown] ∧
      report.log = inOrder.log ∧ report.metrics = inOrder.metrics := by
  intro known unknown env failing bodies schedule shared report inOrder
  have hperm : schedule.Perm bodies.zipIdx := List.reverse_perm _
  obtain ⟨houtcomes, -, -, -, -, hlog, hmetrics, -⟩ :=
    analyzeScheduled_eq_analyze env 1 0 bodies schedule hperm
  exact ⟨hperm, houtcomes, by decide +kernel, by decide +kernel, hlog, hmetrics⟩

end ReturnFlow

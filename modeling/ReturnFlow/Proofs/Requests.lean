import Mathlib.Data.Finset.Card
import Mathlib.Data.List.DropRight
import ReturnFlow.Proofs.Answer

/-!
The pool over a history of requests.

Each request may bring a project and ignored names of its own. What the pool holds after a history
is a matter of the queries since it was last cleared (`Request.queries`): `Pool.Records` says that
it has the answer of the first query for each method, and counts each method once. Every request
keeps this (`Pool.Records.serve`), so that it holds after every history (`Pool.records_after`).
-/

namespace ReturnFlow

/-! ## Requests and histories -/

/-- A method that is asked for, with what to resolve it by if the pool has no answer yet. -/
structure Query where
  method : Method
  resolver : Resolver
  ignored : List String

/-- The answer that a query alone leads to: the reduced body, or why there is none. -/
inductive Query.Yields (q : Query) : Except Failure ReducedMethod → Prop
  | unresolvable : q.resolver q.method = none → q.Yields (.error (.unresolvable q.method))
  | reduced {code : List Instruction} {r : Reduction} : q.resolver q.method = some code →
      reduce q.ignored code = .ok r → q.Yields (.ok ⟨q.method, r.code⟩)
  | refused {code : List Instruction} {e : FlowError} : q.resolver q.method = some code →
      reduce q.ignored code = .error e → q.Yields (.error (.flow e))

/-- What a pool can be asked to do. -/
inductive Request where
  | lookup (q : Query)
  | getOrResolve (q : Query)
  | get (m : Method)
  | clear

inductive Reply where
  | answer (a : Except Failure ReducedMethod)
  | method (r : Option ReducedMethod)
  | done

namespace Request

/-- The query of a request that has the pool resolve a method. -/
def query? : Request → Option Query
  | .lookup q | .getOrResolve q => some q
  | .get _ | .clear => none

def isClear : Request → Bool
  | .clear => true
  | _ => false

/-- The queries of a history since the pool was last cleared, in order. -/
def queries (history : List Request) : List Query :=
  (history.rtakeWhile fun r => !r.isClear).filterMap query?

/-- The first query for a method since the pool was last cleared. -/
def first? (history : List Request) (m : Method) : Option Query :=
  (queries history).find? fun q => q.method = m

end Request

namespace Pool

/-- Fulfils a request. -/
def serve (p : Pool) : Request → Reply × Pool
  | .lookup q =>
    let (answer, pool, _) := p.lookup q.resolver q.ignored q.method
    (.answer answer, pool)
  | .getOrResolve q =>
    let (method, pool, _) := p.getOrResolve q.resolver q.ignored q.method
    (.method method, pool)
  | .get m => (.method (p.get? m), p)
  | .clear => (.done, p.clear)

/-- The pool after a history of requests. -/
def after (history : List Request) : Pool :=
  history.foldl (fun p r => (p.serve r).2) .empty

end Pool

/-! ## Queries -/

/-- What resolving the method of a query gives. -/
def Query.answer (q : Query) : Except Failure ReducedMethod :=
  (Pool.resolve q.resolver q.ignored q.method).1

theorem Query.yields_iff {q : Query} {a : Except Failure ReducedMethod} :
    q.Yields a ↔ q.answer = a := by
  unfold answer Pool.resolve
  constructor
  · rintro (hnone | ⟨hsome, hok⟩ | ⟨hsome, herr⟩)
    · simp only [hnone]
    · simp only [hsome, hok]
    · simp only [hsome, herr]
  · rintro rfl
    split
    · next hnone => exact .unresolvable hnone
    · next code hsome =>
      split
      · next r hok => exact .reduced hsome hok
      · next e herr => exact .refused hsome herr

theorem Request.queries_concat (history : List Request) (r : Request) :
    queries (history ++ [r]) =
      if r.isClear then [] else queries history ++ r.query?.toList := by
  unfold queries
  rw [List.rtakeWhile_concat]
  cases r <;> simp [isClear, query?]

/-! ## What a pool records -/

namespace Pool

/-- The pool has the answer of the first query for each method, and has counted each method once. -/
structure Records (qs : List Query) (p : Pool) : Prop where
  answers : ∀ m, p.answer? m = (qs.find? fun q => q.method = m).map Query.answer
  nodup : p.methods.Nodup
  counted : p.resolutions = p.size

theorem records_empty : empty.Records [] where
  answers _ := rfl
  nodup := List.nodup_nil
  counted := rfl

variable {p : Pool} {qs : List Query}

theorem answer?_add (p : Pool) (m m' : Method) (a : Except Failure ReducedMethod) :
    (p.add m a).answer? m' = (p.answer? m').or (if m = m' then some a else none) := by
  simp only [add, answer?, List.lookup_append]
  by_cases hm : m = m'
  · subst hm
    simp
  · have hne : (m' == m) = false := by simpa using Ne.symm hm
    simp [List.lookup_cons, hne, hm]

namespace Records

variable (h : p.Records qs) (q : Query)
include h

/-- A query is answered by the first one for its method, which is the query itself if there was none
before. -/
theorem fst_lookup :
    ∃ f, (qs ++ [q]).find? (fun f => f.method = q.method) = some f ∧
      (p.lookup q.resolver q.ignored q.method).1 = f.answer := by
  have hrecorded := h.answers q.method
  rw [List.find?_append]
  rcases p.lookup_cases q.resolver q.ignored q.method with ⟨a, ha, heq⟩ | ⟨hm, heq⟩ <;> rw [heq]
  · rw [ha] at hrecorded
    obtain ⟨f, hf, hfa⟩ := Option.map_eq_some_iff.1 hrecorded.symm
    exact ⟨f, by rw [hf]; rfl, hfa.symm⟩
  · have hnone : p.answer? q.method = none := by
      rw [← Option.not_isSome_iff_eq_none, Option.isSome_iff_exists, ← mem_methods]
      exact hm
    rw [hnone] at hrecorded
    have hfirst := Option.map_eq_none_iff.1 hrecorded.symm
    exact ⟨q, by rw [hfirst]; simp, rfl⟩

/-- A query for a method that has an answer changes nothing; otherwise its own answer is added. -/
theorem lookup : (p.lookup q.resolver q.ignored q.method).2.1.Records (qs ++ [q]) := by
  have hnodup := nodup_methods_lookup h.nodup q.resolver q.ignored q.method
  have hfind (m : Method) : ((qs ++ [q]).find? fun f => f.method = m).map Query.answer =
      (p.answer? m).or (if q.method = m then some q.answer else none) := by
    rw [h.answers, List.find?_append]
    by_cases hm : q.method = m <;> simp [hm]
  rcases p.lookup_cases q.resolver q.ignored q.method with ⟨a, ha, heq⟩ | ⟨hm, heq⟩ <;>
    rw [heq] at hnodup ⊢
  · refine ⟨fun m => ?_, hnodup, h.counted⟩
    rw [hfind]
    by_cases hm : q.method = m
    · rw [← hm, ha]
      rfl
    · simp [hm]
  · refine ⟨fun m => ?_, hnodup, ?_⟩
    · rw [hfind, answer?_add]
      rfl
    · simp [add, size, h.counted]

omit q in
/-- A request keeps the pool a record of the queries. -/
theorem serve (r : Request) :
    (p.serve r).2.Records (if r.isClear then [] else qs ++ r.query?.toList) := by
  cases r with
  | lookup q => exact h.lookup q
  | getOrResolve q => exact h.lookup q
  | get m => simpa [Pool.serve, Request.isClear, Request.query?] using h
  | clear => exact records_empty

omit q in
theorem toFinset_methods : p.methods.toFinset = (qs.map Query.method).toFinset := by
  ext m
  rw [List.mem_toFinset, List.mem_toFinset, mem_methods, h.answers]
  simp only [Option.map_eq_some_iff, List.mem_map]
  constructor
  · rintro ⟨a, f, hf, -⟩
    exact ⟨f, List.mem_of_find?_eq_some hf, by simpa using List.find?_some hf⟩
  · rintro ⟨f, hf, hm⟩
    have hsome : (qs.find? fun f => f.method = m).isSome := by
      rw [List.find?_isSome]
      exact ⟨f, hf, by simpa using hm⟩
    obtain ⟨f', hf'⟩ := Option.isSome_iff_exists.1 hsome
    exact ⟨f'.answer, f', hf', rfl⟩

omit q in
/-- The pool holds each method once that was asked for. -/
theorem size_eq : p.size = (qs.map Query.method).toFinset.card := by
  rw [← h.toFinset_methods, List.toFinset_card_of_nodup h.nodup]
  simp [size, methods]

end Records

theorem after_concat (history : List Request) (r : Request) :
    after (history ++ [r]) = ((after history).serve r).2 := by
  simp [after]

/-- After every history, the pool is the record of the queries since it was last cleared. -/
theorem records_after (history : List Request) :
    (after history).Records (Request.queries history) := by
  induction history using List.reverseRecOn with
  | nil => exact records_empty
  | append_singleton history r ih =>
    rw [after_concat, Request.queries_concat]
    exact ih.serve r

end Pool

open Request in
/-- **The pool answers each method once.** After every history of requests, whatever project and
ignored names each of them came with: a query is answered with what the first query for its method
since the last clearing leads to; a body can be got without resolving exactly if a query for it was
made and led to one, and getting it leaves the pool alone; and the pool has counted, and holds, as
many methods as were asked for. -/
theorem pool_answers_first (history : List Request) :
    let p := Pool.after history
    (∀ q, ∃ f a, first? (history ++ [.lookup q]) q.method = some f ∧ f.Yields a ∧
      (p.serve (.lookup q)).1 = .answer a ∧
      (p.serve (.getOrResolve q)).1 = .method a.toOption) ∧
    (∀ m, ∃ r, p.serve (.get m) = (.method r, p) ∧
      ∀ reduced, r = some reduced ↔ ∃ f, first? history m = some f ∧ f.Yields (.ok reduced)) ∧
    p.size = ((queries history).map Query.method).toFinset.card ∧ p.resolutions = p.size := by
  intro p
  have h := Pool.records_after history
  refine ⟨fun q => ?_, fun m => ⟨p.get? m, rfl, fun reduced => ?_⟩, h.size_eq, h.counted⟩
  · obtain ⟨f, hf, hanswer⟩ := h.fst_lookup q
    have hfirst : first? (history ++ [.lookup q]) q.method = some f := by
      rw [first?, queries_concat]
      exact hf
    refine ⟨f, f.answer, hfirst, Query.yields_iff.2 rfl, ?_, ?_⟩
    · exact congrArg Reply.answer hanswer
    · exact congrArg (fun a => Reply.method (Except.toOption a)) hanswer
  · have hget : p.get? m = (first? history m).bind fun f => f.answer.toOption := by
      rw [Pool.get?, h.answers, Option.bind_map]
      rfl
    rw [hget, Option.bind_eq_some_iff]
    refine exists_congr fun f => and_congr_right fun _ => ?_
    rw [Query.yields_iff]
    cases f.answer <;> simp [Except.toOption]

end ReturnFlow

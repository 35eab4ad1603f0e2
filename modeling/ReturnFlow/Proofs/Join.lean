import Mathlib.Data.List.Induction
import ReturnFlow.Proofs.Sorting
import ReturnFlow.Response
import ReturnFlow.Simulation

/-!
Merging is a join.

* `Element.Canonical`, `Response.Canonical`: all the lists of an element or a response are sets.
  What merging gives is so, whatever is merged, and sets are equal if their members are.
* `Element.foldl_merge`: merging elements one after the other gives their join, so that a run may
  record its outcomes in any order (`Element.join_congr`).
-/

namespace ReturnFlow

/-! ## Elements -/

namespace Element

/-- The types and the values are sets. -/
@[mk_iff]
structure Canonical (e : Element) : Prop where
  types : Sorted.Increasing e.types
  values : Sorted.Increasing e.values

theorem canonical_merge (a b : Element) : (a.merge b).Canonical :=
  ⟨Sorted.increasing_union _ _, Sorted.increasing_union _ _⟩

theorem merge_comm (a b : Element) : a.merge b = b.merge a := by
  simp only [merge, Sorted.union_comm b.types, Sorted.union_comm b.values]

theorem merge_assoc (a b c : Element) : a.merge (b.merge c) = (a.merge b).merge c := by
  simp only [merge, Sorted.union_assoc]

theorem merge_self_iff {a : Element} : a.merge a = a ↔ a.Canonical := by
  obtain ⟨types, values⟩ := a
  simp only [merge, mk.injEq, Sorted.union_self_iff, canonical_iff]

theorem merge_empty_iff {a : Element} : a.merge empty = a ↔ a.Canonical := by
  obtain ⟨types, values⟩ := a
  simp only [merge, empty, mk.injEq, Sorted.union_nil_iff, canonical_iff]

/-- A join depends on which elements are joined, not on their order and repetition. -/
theorem join_congr {es es' : List Element} (h : ∀ e, e ∈ es ↔ e ∈ es') : join es = join es' := by
  rw [join, join, mk.injEq, Sorted.ofList_eq_ofList_iff, Sorted.ofList_eq_ofList_iff]
  simp only [List.mem_flatMap, h, implies_true, and_self]

theorem join_append_singleton (es : List Element) (e : Element) :
    join (es ++ [e]) = (join es).merge e := by
  rw [join, merge, mk.injEq, Sorted.union, Sorted.union, Sorted.ofList_eq_ofList_iff,
    Sorted.ofList_eq_ofList_iff]
  simp [join]

/-- Merging elements one after the other joins them. -/
theorem foldl_merge (es : List Element) : es.foldl merge empty = join es := by
  induction es using List.reverseRecOn with
  | nil => rfl
  | append_singleton es e ih =>
    rw [List.foldl_append, ih, join_append_singleton]
    rfl

end Element

/-! ## Responses -/

namespace Response

/-- The five collections of facts are sets. -/
@[mk_iff]
structure Canonical (r : Response) : Prop where
  statuses : Sorted.Increasing r.statuses
  headers : Sorted.Increasing r.headers
  contentTypes : Sorted.Increasing r.contentTypes
  entityTypes : Sorted.Increasing r.entityTypes
  inline : Sorted.Increasing r.inline

theorem canonical_merge (r s : Response) : (r.merge s).Canonical := by
  constructor <;> exact Sorted.increasing_union _ _

theorem merge_comm (r s : Response) : r.merge s = s.merge r := by
  rw [merge, merge, mk.injEq]
  refine ⟨?_, ?_, ?_, ?_, ?_⟩ <;> exact Sorted.union_comm _ _

theorem merge_assoc (r s t : Response) : r.merge (s.merge t) = (r.merge s).merge t := by
  simp only [merge, Sorted.union_assoc]

theorem merge_self_iff {r : Response} : r.merge r = r ↔ r.Canonical := by
  cases r
  simp only [merge, mk.injEq, Sorted.union_self_iff, canonical_iff]

theorem merge_empty_iff {r : Response} : r.merge empty = r ↔ r.Canonical := by
  cases r
  simp only [merge, empty, mk.injEq, Sorted.union_nil_iff, canonical_iff]

end Response

/-! ## Runs -/

/-- **Merging is a join**, for elements and for responses: it is commutative and associative, it
gives sets, and on sets it is idempotent with the empty one as identity. So a run, of a method or of
one that it calls, has the merge of its outcomes as its result, in whatever order they are merged
and however often each of them. -/
theorem merge_isJoin :
    ((∀ a b : Element, a.merge b = b.merge a) ∧
      (∀ a b c : Element, a.merge (b.merge c) = (a.merge b).merge c) ∧
      (∀ a : Element, a.Canonical → a.merge a = a ∧ a.merge .empty = a) ∧
      ∀ a b : Element, (a.merge b).Canonical) ∧
    ((∀ r s : Response, r.merge s = s.merge r) ∧
      (∀ r s t : Response, r.merge (s.merge t) = (r.merge s).merge t) ∧
      (∀ r : Response, r.Canonical → r.merge r = r ∧ r.merge .empty = r) ∧
      ∀ r s : Response, (r.merge s).Canonical) ∧
    ∀ (follow : Call → StateM Session Element) (code : List Instruction) (locals : Locals)
      (σ : Session) (f : Frame),
      ((Simulation.execute follow 0 (.init locals) code).run σ).1 = .ok f →
      ∀ outcomes : List Element, (∀ e, e ∈ outcomes ↔ e ∈ f.outcomes) →
        ((Simulation.runBody follow code locals).run σ).1 =
          .ok (outcomes.foldl Element.merge .empty) := by
  refine ⟨⟨Element.merge_comm, Element.merge_assoc, ?_, Element.canonical_merge⟩,
    ⟨Response.merge_comm, Response.merge_assoc, ?_, Response.canonical_merge⟩, ?_⟩
  · exact fun a ha => ⟨Element.merge_self_iff.2 ha, Element.merge_empty_iff.2 ha⟩
  · exact fun r hr => ⟨Response.merge_self_iff.2 hr, Response.merge_empty_iff.2 hr⟩
  · intro follow code locals σ f hf outcomes hmem
    have hrun : ((Simulation.runBody follow code locals).run σ).1 =
        ((Simulation.execute follow 0 (.init locals) code).run σ).1.map Frame.result := rfl
    rw [hrun, hf, Element.foldl_merge, Element.join_congr hmem]
    rfl

/-- An object with an array in it, and the array. -/
def nested : List Json :=
  let array : Json := .array [.int 1, .unknown "I"]
  [.object [("a", .ofValue "La;" (.json array)), ("b", .string "x")], array]

def answering : Response := ⟨[200, 404], ["Location"], [], ["I"], nested⟩

/-- Both zeros and a NaN, and all the kinds of values that hold elements. -/
def mixed : Element :=
  let doubles := [.ofCode true 0, .ofCode false 0, .nan false]
  let method : Method := ⟨"shop/Shop", "plus", "I", true, ["I", "I"]⟩
  ⟨["D", "I"], doubles.map (fun d => .literal (.double d)) ++ nested.map .json ++
    [.response answering, .handle ⟨method, [.ofValues "La;" (nested.map .json)]⟩]⟩

/-- Returns `1`, then `2`, then `1` again. -/
def returning : List Instruction :=
  [⟨.push (.int 1) "I", none⟩, ⟨.return, none⟩, ⟨.push (.int 2) "I", none⟩, ⟨.return, none⟩,
   ⟨.push (.int 1) "I", none⟩, ⟨.return, none⟩]

theorem merge_isJoin_mixed :
    (mixed.Canonical ∧ mixed.merge mixed = mixed ∧ mixed.merge .empty = mixed) ∧
    (answering.Canonical ∧ answering.merge answering = answering ∧
      answering.merge .empty = answering) ∧
    ∀ follow, ((Simulation.runBody follow returning .empty).run .empty).1 =
      .ok (Element.merge (.merge .empty (.int 2)) (.int 1)) := by
  have hmixed : mixed.Canonical := ⟨by decide, by decide⟩
  have hanswering : answering.Canonical :=
    ⟨by decide, by decide, by decide, by decide, by decide⟩
  refine ⟨⟨hmixed, merge_isJoin.1.2.2.1 mixed hmixed⟩,
    ⟨hanswering, merge_isJoin.2.1.2.2.1 answering hanswering⟩, fun follow => ?_⟩
  refine merge_isJoin.2.2 follow returning .empty .empty _ rfl [.int 2, .int 1] fun e => ?_
  show e ∈ [Element.int 2, .int 1] ↔ e ∈ [Element.int 1, .int 2, .int 1]
  simp [or_comm]

end ReturnFlow

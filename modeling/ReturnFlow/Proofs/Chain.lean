import Mathlib.Data.List.Forall2
import ReturnFlow.Rule

/-!
Chains of calls on a builder.

A builder may stand for several things, and a call is followed along each of them. `Rule.Follows`
says this of one call: every alternative of the receiver is led on by itself, as a relation says.
`Rule.chain_along` says it of a chain, with the relations of its calls taken one after the other
(`Rule.Along`); so it is enough to look at the calls of a family one by one.
-/

namespace ReturnFlow.Rule

variable {α δ : Type}

/-- The answer to the last call of a chain, the first one made on the given receiver. -/
def lastAnswer? (receiver : Element) (calls : List (Method × List Element)) : Option Known :=
  (chain (some receiver) calls).getLast?.join

/-- What one alternative may be led to by steps taken in order. -/
inductive Along (act : δ → α → α → Prop) : List δ → α → α → Prop
  | nil (x : α) : Along act [] x x
  | cons {d : δ} {ds : List δ} {x y z : α} (hstep : act d x y) (hrest : Along act ds y z) :
      Along act (d :: ds) x z

@[simp]
theorem along_nil_iff {act : δ → α → α → Prop} {x y : α} : Along act [] x y ↔ y = x := by
  constructor
  · rintro ⟨⟩
    rfl
  · rintro rfl
    exact .nil y

@[simp]
theorem along_cons_iff {act : δ → α → α → Prop} {d : δ} {ds : List δ} {x z : α} :
    Along act (d :: ds) x z ↔ ∃ y, act d x y ∧ Along act ds y z := by
  constructor
  · rintro (_ | ⟨hstep, hrest⟩)
    exact ⟨_, hstep, hrest⟩
  · rintro ⟨y, hstep, hrest⟩
    exact .cons hstep hrest

/-- Steps that leave no choice are a fold. -/
theorem along_iff_foldl {f : α → δ → α} {ds : List δ} {x y : α} :
    Along (fun d x y => y = f x d) ds x y ↔ y = ds.foldl f x := by
  induction ds generalizing x with
  | nil => simp
  | cons d ds ih => simp [ih]

/-- A rule answers the call on every receiver, with a result made for its return type, and leads the
alternatives of the receiver (`view`) on to those of the result. -/
def Follows (view : Element → List α) (made : String → Element → Prop) (act : α → α → Prop)
    (c : Method × List Element) : Prop :=
  ∀ e, ∃ k, call? ⟨c.1, some e, c.2⟩ = some k ∧ made c.1.returnType k.result ∧
    ∀ y, y ∈ view k.result ↔ ∃ x ∈ view e, act x y

theorem chain_cons_of_some {e : Element} {c : Method × List Element} {k : Known}
    (h : call? ⟨c.1, some e, c.2⟩ = some k) (calls : List (Method × List Element)) :
    chain (some e) (c :: calls) = some k :: chain (some k.result) calls := by
  rw [chain, h]
  rfl

/-- A chain of calls leads each alternative of the receiver on by itself. -/
theorem chain_along {view : Element → List α} {made : String → Element → Prop}
    {act : δ → α → α → Prop} {calls : List (Method × List Element)} {ds : List δ}
    (hcalls : List.Forall₂ (fun c d => Follows view made (act d) c) calls ds) (hne : calls ≠ [])
    (e : Element) :
    none ∉ chain (some e) calls ∧ ∃ k, lastAnswer? e calls = some k ∧
      made (calls.getLast hne).1.returnType k.result ∧
      ∀ y, y ∈ view k.result ↔ ∃ x ∈ view e, Along act ds x y := by
  induction hcalls generalizing e with
  | nil => exact absurd rfl hne
  | @cons c d calls ds hcall hcalls ih =>
    obtain ⟨k, hk, hmade, hview⟩ := hcall e
    cases hcalls with
    | nil =>
      have hchain : chain (some e) [c] = [some k] := chain_cons_of_some hk []
      refine ⟨by rw [hchain]; simp, k, by rw [lastAnswer?, hchain]; rfl, hmade, ?_⟩
      simpa using hview
    | @cons c' d' calls ds hcall' hcalls =>
      have hchain := chain_cons_of_some hk (c' :: calls)
      obtain ⟨hnone, k', hlast, hmade', hview'⟩ := ih (by simp) k.result
      refine ⟨?_, k', ?_, hmade', fun z => ?_⟩
      · rw [hchain, List.mem_cons, not_or]
        exact ⟨nofun, hnone⟩
      · rw [← hlast, lastAnswer?, lastAnswer?, hchain]
        rfl
      · rw [hview' z]
        constructor
        · rintro ⟨y, hy, hrest⟩
          obtain ⟨x, hx, hstep⟩ := (hview y).1 hy
          exact ⟨x, hx, .cons hstep hrest⟩
        · rintro ⟨x, hx, _ | ⟨hstep, hrest⟩⟩
          exact ⟨_, (hview _).2 ⟨x, hx, hstep⟩, hrest⟩

end ReturnFlow.Rule

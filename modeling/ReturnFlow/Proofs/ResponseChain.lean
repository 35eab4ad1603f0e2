import Mathlib.Data.List.Perm.Basic
import ReturnFlow.Proofs.Chain
import ReturnFlow.Proofs.Join
import ReturnFlow.Proofs.Occurrence

/-!
Chains of calls on a response builder.

Each call adds the facts that its name and arguments stand for (`Rule.Rest.builderDelta?`) to every
response that the builder may be (`Rule.Rest.follows_builder`). Facts are only ever added, and in
whatever order they come, so a chain adds the facts of all its calls to each response by itself
(`Rule.Rest.chain_builder`).
-/

namespace ReturnFlow

instance : RightCommutative Response.merge where
  right_comm r s t := by
    rw [← Response.merge_assoc, Response.merge_comm s t, Response.merge_assoc]

namespace Rule.Rest

/-! ## The responses of an element -/

/-- The builder may be this response: it holds it, or holds none and the response has no facts. -/
def Starts (e : Element) (r : Response) : Prop :=
  r ∈ e.responses ∨ e.responses = [] ∧ r = .empty

theorem mem_responsesOrBlank {e : Element} {r : Response} :
    r ∈ responsesOrBlank e ↔ Starts e r := by
  unfold responsesOrBlank Starts
  split
  · next hnil => simp [hnil]
  · next hne => exact ⟨Or.inl, fun h => h.elim id fun hnil => absurd hnil.1 hne⟩

theorem responsesOrBlank_ne_nil (e : Element) : responsesOrBlank e ≠ [] := by
  unfold responsesOrBlank
  split
  · simp
  · assumption

theorem mem_values_ofResponses {type : String} {rs : List Response} {v : Value} :
    v ∈ (ofResponses type rs).values ↔ ∃ r ∈ rs, v = .response r := by
  simp [ofResponses, Element.ofValues, eq_comm]

/-- An element made of responses may be each of them and nothing else. -/
theorem mem_responsesOrBlank_ofResponses {type : String} {rs : List Response} (hrs : rs ≠ [])
    {r : Response} : r ∈ responsesOrBlank (ofResponses type rs) ↔ r ∈ rs := by
  have hmem (s : Response) : s ∈ (ofResponses type rs).responses ↔ s ∈ rs := by
    simp [Element.mem_responses, mem_values_ofResponses]
  have hne : (ofResponses type rs).responses ≠ [] := by
    obtain ⟨s, hs⟩ := List.exists_mem_of_ne_nil rs hrs
    exact List.ne_nil_of_mem ((hmem s).2 hs)
  rw [mem_responsesOrBlank, Starts, hmem]
  simp [hne]

theorem values_ofResponses_congr {type type' : String} {rs rs' : List Response}
    (h : ∀ r, r ∈ rs ↔ r ∈ rs') :
    (ofResponses type rs).values = (ofResponses type' rs').values := by
  refine Sorted.ofList_eq_ofList_iff.2 fun v => ?_
  simp only [List.mem_map, h]

/-! ## One call -/

/-- The methods of the response builder. -/
def IsBuilder (m : Method) : Prop :=
  Descriptor.apiName? m.owner = some "ws/rs/core/Response$ResponseBuilder"

theorem call?_builder {m : Method} (hm : IsBuilder m) (e : Element) (args : List Element) :
    Rule.call? ⟨m, some e, args⟩ = builder? ⟨m, some e, args⟩ e := by
  rw [Rule.call?, hm]
  rfl

/-- What a builder call answers: responses, at least one of them. -/
def Made (type : String) (e : Element) : Prop := ∃ rs, rs ≠ [] ∧ e = ofResponses type rs

/-- A call adds its facts to each response by itself. -/
theorem follows_builder {c : Method × List Element} {delta : Response} (hc : IsBuilder c.1)
    (hdelta : builderDelta? c.1.name c.2 = some delta) :
    Follows responsesOrBlank Made (fun r s => s = r.merge delta) c := by
  intro e
  let rs := (responsesOrBlank e).map fun r => r.merge delta
  have hrs : rs ≠ [] := by simpa [rs] using responsesOrBlank_ne_nil e
  have hanswer : ∃ k : Known, Rule.call? ⟨c.1, some e, c.2⟩ = some k ∧
      k.result = ofResponses c.1.returnType rs := by
    rw [call?_builder hc, builder?, hdelta]
    refine ⟨_, rfl, ?_⟩
    split <;> rfl
  obtain ⟨k, hk, hresult⟩ := hanswer
  refine ⟨k, hk, ⟨rs, hrs, hresult⟩, fun s => ?_⟩
  rw [hresult, mem_responsesOrBlank_ofResponses hrs]
  simp [rs, eq_comm]

/-! ## A chain of calls -/

/-- The calls have these facts to add, each by its name and its arguments alone. -/
def Adds (calls : List (Method × List Element)) (deltas : List Response) : Prop :=
  List.Forall₂ (fun c delta => builderDelta? c.1.name c.2 = some delta) calls deltas

/-- Calls that are all answered have facts to add. -/
theorem exists_adds {e : Element} {calls : List (Method × List Element)}
    (hcalls : ∀ c ∈ calls, IsBuilder c.1) (hrules : none ∉ chain (some e) calls) :
    ∃ deltas, Adds calls deltas := by
  induction calls generalizing e with
  | nil => exact ⟨[], .nil⟩
  | cons c calls ih =>
    cases hdelta : builderDelta? c.1.name c.2 with
    | none =>
      have hnone : Rule.call? ⟨c.1, some e, c.2⟩ = none := by
        rw [call?_builder (hcalls c (by simp)), builder?, hdelta]
        rfl
      rw [chain, hnone] at hrules
      simp at hrules
    | some delta =>
      obtain ⟨k, hk, -⟩ := follows_builder (hcalls c (by simp)) hdelta e
      rw [chain_cons_of_some hk, List.mem_cons, not_or] at hrules
      obtain ⟨deltas, hadds⟩ := ih (fun c' hc' => hcalls c' (by simp [hc'])) hrules.2
      exact ⟨delta :: deltas, .cons hdelta hadds⟩

/-- A chain of calls adds the facts of all of them to each response by itself. -/
theorem chain_builder {calls : List (Method × List Element)} {deltas : List Response}
    (hcalls : ∀ c ∈ calls, IsBuilder c.1) (hadds : Adds calls deltas) (hne : calls ≠ [])
    (e : Element) :
    none ∉ chain (some e) calls ∧ ∃ k, lastAnswer? e calls = some k ∧
      k.result.types = [(calls.getLast hne).1.returnType] ∧
      k.result.values = (ofResponses (calls.getLast hne).1.returnType
        ((responsesOrBlank e).map fun r => deltas.foldl Response.merge r)).values := by
  have hfollows : List.Forall₂ (fun c delta =>
      Follows responsesOrBlank Made (fun r s => s = r.merge delta) c) calls deltas := by
    refine List.forall₂_iff_get.2 ⟨hadds.length_eq, fun i h h' => ?_⟩
    exact follows_builder (hcalls _ (List.get_mem calls ⟨i, h⟩)) (hadds.get h h')
  obtain ⟨hrules, k, hlast, ⟨rs, hrs, hresult⟩, hview⟩ := chain_along hfollows hne e
  refine ⟨hrules, k, hlast, by rw [hresult]; rfl, ?_⟩
  rw [hresult]
  refine values_ofResponses_congr fun s => ?_
  rw [← mem_responsesOrBlank_ofResponses hrs, ← hresult, hview s]
  simp [along_iff_foldl, eq_comm]

end Rule.Rest

open Rule Rule.Rest in
/-- **Builder calls accumulate facts, in any order.** After a chain of calls on a response builder to
which rules apply, the result has the return type of the last call, and its values are the responses
that the builder may have been, each with the facts of all the calls. A chain on one of them alone
gives that one alone, so facts of different responses do not mix; and the calls in another order
give the same values. -/
theorem responses_accumulate (R : Element) (calls : List (Method × List Element))
    (hne : calls ≠ []) (hcalls : ∀ c ∈ calls, IsBuilder c.1)
    (hrules : none ∉ chain (some R) calls) :
    ∃ deltas k, Adds calls deltas ∧ lastAnswer? R calls = some k ∧
      k.result.types = [(calls.getLast hne).1.returnType] ∧
      (∀ v, v ∈ k.result.values ↔
        ∃ r, Starts R r ∧ v = .response (deltas.foldl Response.merge r)) ∧
      (∀ type r, ∃ k₁, lastAnswer? (.ofValue type (.response r)) calls = some k₁ ∧
        k₁.result.values = [.response (deltas.foldl Response.merge r)]) ∧
      ∀ calls', calls'.Perm calls → none ∉ chain (some R) calls' ∧
        ∃ k', lastAnswer? R calls' = some k' ∧ k'.result.values = k.result.values := by
  obtain ⟨deltas, hadds⟩ := exists_adds hcalls hrules
  obtain ⟨-, k, hlast, htypes, hvalues⟩ := chain_builder hcalls hadds hne R
  refine ⟨deltas, k, hadds, hlast, htypes, fun v => ?_, fun type r => ?_, fun calls' hperm => ?_⟩
  · rw [hvalues, mem_values_ofResponses]
    simp [mem_responsesOrBlank]
  · obtain ⟨-, k₁, hlast₁, -, hvalues₁⟩ :=
      chain_builder hcalls hadds hne (.ofValue type (.response r))
    exact ⟨k₁, hlast₁, hvalues₁⟩
  · -- the facts are permuted with the calls
    obtain ⟨deltas', hadds', hdeltas⟩ := List.perm_comp_forall₂ hperm hadds
    have hcalls' : ∀ c ∈ calls', IsBuilder c.1 := fun c hc => hcalls c (hperm.mem_iff.1 hc)
    have hne' : calls' ≠ [] := fun hnil => hne (List.nil_perm.1 (hnil ▸ hperm))
    obtain ⟨hrules', k', hlast', -, hvalues'⟩ := chain_builder hcalls' hadds' hne' R
    refine ⟨hrules', k', hlast', ?_⟩
    rw [hvalues', hvalues]
    simp only [hdeltas.foldl_eq]
    rfl

/-- A builder that may be three responses, two of which differ in one header only. -/
def undecided : Element :=
  ⟨["Ljavax/ws/rs/core/Response$ResponseBuilder;"],
    [.literal .null, .response ⟨[200], [], [], [], []⟩, .response ⟨[200], ["ETag"], [], [], []⟩,
      .response ⟨[404], [], [], [], []⟩]⟩

/-- Adds a header of the caller's choice and a tag, and builds the response. -/
def tagging : List (Method × List Element) :=
  let builder := "javax/ws/rs/core/Response$ResponseBuilder"
  let type := "Ljavax/ws/rs/core/Response$ResponseBuilder;"
  [(⟨builder, "header", type, false, [Descriptor.string, Descriptor.object]⟩,
      [.string "X-Trace", .object]),
    (⟨builder, "tag", type, false, [Descriptor.string]⟩, [.object]),
    (⟨builder, "build", "Ljavax/ws/rs/core/Response;", false, []⟩, [])]

open Rule Rule.Rest in
/-- The two responses that differ in the tag become one, in whatever order the calls are made. -/
theorem responses_accumulate_tagging :
    ∃ deltas k, Adds tagging deltas ∧ lastAnswer? undecided tagging = some k ∧
      k.result = ⟨["Ljavax/ws/rs/core/Response;"],
        [.response ⟨[200], ["ETag", "X-Trace"], [], [], []⟩,
          .response ⟨[404], ["ETag", "X-Trace"], [], [], []⟩]⟩ ∧
      (∀ v, v ∈ k.result.values ↔
        ∃ r, Starts undecided r ∧ v = .response (deltas.foldl Response.merge r)) ∧
      ∃ k', lastAnswer? undecided tagging.reverse = some k' ∧
        k'.result.values = k.result.values := by
  have hcalls : ∀ c ∈ tagging, IsBuilder c.1 := by
    unfold IsBuilder
    decide +kernel
  have hanswers : (chain (some undecided) tagging).all Option.isSome = true := by
    decide +kernel
  have hrules : none ∉ chain (some undecided) tagging := fun hnone => by
    simpa using List.all_eq_true.1 hanswers none hnone
  obtain ⟨deltas, k, hadds, hlast, -, hvalues, -, hperm⟩ :=
    responses_accumulate undecided tagging (by simp [tagging]) hcalls hrules
  have hresult : (lastAnswer? undecided tagging).map Known.result =
      some ⟨["Ljavax/ws/rs/core/Response;"],
        [.response ⟨[200], ["ETag", "X-Trace"], [], [], []⟩,
          .response ⟨[404], ["ETag", "X-Trace"], [], [], []⟩]⟩ := by
    decide +kernel
  rw [hlast] at hresult
  obtain ⟨-, hreversed⟩ := hperm tagging.reverse (List.reverse_perm tagging)
  exact ⟨deltas, k, hadds, hlast, Option.some.inj hresult, hvalues, hreversed⟩

end ReturnFlow

import ReturnFlow.Proofs.Everywhere
import ReturnFlow.Proofs.Occurrence

/-!
The status codes that analyses report.

What the built-in rules make of valid elements is valid (`Rule.Makes.valid`). What else makes
elements in a simulation keeps this too, so that it is a property of all elements in the sense of
`Inherited` (`Element.inherited_valid`).
-/

namespace ReturnFlow

/-! ## Built-in rules -/

namespace Rule

variable {c : Call} (hc : c.All Element.Valid)
include hc

theorem Puts.valid {e : Element} (h : Puts c e) : e.Valid := by
  rcases h with he | rfl
  · exact hc.of_passes he
  · exact Element.valid_literal _ _

theorem MakesJson.valid {j : Json} (h : MakesJson c j) : j.Valid := by
  induction h with
  | found he hj => exact (hc.of_passes he).of_mem_jsonValues hj
  | emptyObject => exact Json.valid_object.2 (List.forall_mem_nil _)
  | emptyArray => exact Json.valid_array.2 (List.forall_mem_nil _)
  | withMember _ key he ih => exact ih.withMember key (he.valid hc)
  | withoutMember _ key ih => exact ih.withoutMember key
  | withElement _ he ih => exact ih.withElement (he.valid hc)
  | merge _ _ hmerged ih ih' => exact ih.merge? ih' hmerged

theorem MakesResponse.valid {r : Response} (h : MakesResponse c r) : r.Valid := by
  induction h with
  | found he hr => exact (hc.of_passes he).of_mem_responses hr
  | empty => exact Response.valid_empty
  | ofStatus hstatus => exact Response.valid_ofStatus hstatus
  | addStatuses _ codes ih => exact ih.addStatuses codes
  | addHeader _ name ih => exact ih.addHeader name
  | addHeaders _ names ih => exact ih.addHeaders names
  | addContentTypes _ mediaTypes ih => exact ih.addContentTypes mediaTypes
  | addEntity _ hentity ih => exact ih.addEntity (hc.of_passes hentity)
  | merge _ _ ih ih' => exact ih.merge ih'

theorem MakesValue.valid {v : Value} (h : MakesValue c v) : v.Valid := by
  cases h with
  | literal l => exact Value.valid_literal l
  | json hj => exact Value.valid_json.2 (hj.valid hc)
  | response hr => exact Value.valid_response.2 (hr.valid hc)

/-- A built-in rule answers with valid elements if it was given such. -/
theorem Makes.valid {e : Element} (h : Makes c e) : e.Valid := by
  cases h with
  | operand he => exact hc.of_passes he
  | retyped he type => exact (hc.of_passes he).retyped type
  | values type hvs => exact Element.valid_ofValues.2 fun v hv => (hvs v hv).valid hc

end Rule

/-! ## Analyses -/

theorem Element.inherited_valid : Inherited Element.Valid where
  unknown := Element.valid_unknown
  literal := Element.valid_literal
  handle _ _ hcaptured := Element.valid_ofValue.2 (Value.valid_handle.2 hcaptured)
  captured _ he _ hh := Value.valid_handle.1 (Element.valid_iff.1 he _ (Element.mem_handles.1 hh))
  join _ hes _ := Element.valid_join hes
  rule _ _ hk hc := (Rule.makes_call? hk).valid hc

/-- **No analysis reports an impossible status code.** Whatever the body, the setting and the
session it runs in, the responses that occur anywhere in the result of an analysis have status codes
between 100 and 599. -/
theorem analysis_statuses_inRange (env : Setting) (body : MethodBody) (σ : Session) (a : Analysis)
    (ha : ((Analysis.run env body).run σ).1 = .ok a) (r : Response) (hr : r.InElement a.result) :
    ∀ status ∈ r.statuses, 100 ≤ status ∧ status ≤ 599 := by
  -- An empty result, which a method without an exit has, holds no responses.
  have hne : a.result.isEmpty = false := by
    obtain ⟨hv, -⟩ := hr
    simp [Element.isEmpty, List.ne_nil_of_mem hv]
  exact Element.inherited_valid.analysis ha hne r hr

/-- Puts a response into a JSON object and the object into the body of another response, to which
it then adds an integer that is no status code. -/
def reporting : MethodBody where
  method := ⟨"app/Orders", "report", "Ljavax/ws/rs/core/Response$ResponseBuilder;", true, []⟩
  code :=
    let builder := "Ljavax/ws/rs/core/Response$ResponseBuilder;"
    let object := "Ljavax/json/JsonObjectBuilder;"
    [⟨.invoke ⟨"javax/json/Json", "createObjectBuilder", object, true, []⟩, none⟩,
     ⟨.push (.string "cause") Descriptor.string, none⟩,
     ⟨.push (.int 404) "I", none⟩,
     ⟨.invoke ⟨"javax/ws/rs/core/Response", "status", builder, true, ["I"]⟩, none⟩,
     ⟨.invoke ⟨"javax/json/JsonObjectBuilder", "add", object, false,
       [Descriptor.string, Descriptor.object]⟩, none⟩,
     ⟨.invoke ⟨"javax/json/JsonObjectBuilder", "build", "Ljavax/json/JsonObject;", false, []⟩,
       none⟩,
     ⟨.invoke ⟨"javax/ws/rs/core/Response", "ok", builder, true, [Descriptor.object]⟩, none⟩,
     ⟨.push (.int 600) "I", none⟩,
     ⟨.invoke ⟨"javax/ws/rs/core/Response$ResponseBuilder", "status", builder, false, ["I"]⟩, none⟩,
     ⟨.return, none⟩]

theorem analysis_statuses_inRange_reporting :
    let env : Setting := { resolver := Resolver.none }
    let cause : Response := ⟨[404], [], [], [], []⟩
    ∃ a, (analyze env reporting).1 = .ok a ∧ cause.InElement a.result ∧
      ∀ status ∈ cause.statuses, 100 ≤ status ∧ status ≤ 599 := by
  intro env cause
  let type := "Ljavax/ws/rs/core/Response$ResponseBuilder;"
  let object := Json.object [("cause", .ofValue type (.response cause))]
  have hmap : (analyze env reporting).1.map (fun a => a.result) =
      .ok (.ofValue type (.response ⟨[200], [], [], ["Ljavax/json/JsonObject;"], [object]⟩)) := by
    decide +kernel
  obtain ⟨a, hrun, hresult⟩ := exists_ok_of_map hmap
  have hcause : cause.InElement a.result := by
    rw [hresult]
    have hmember : cause.InElement (.ofValue type (.response cause)) :=
      .value List.mem_cons_self .response
    have hobject : cause.InJson object := .member List.mem_cons_self hmember
    exact .value List.mem_cons_self (.inline List.mem_cons_self hobject)
  exact ⟨a, hrun, hcause, analysis_statuses_inRange env reporting .empty a hrun cause hcause⟩

end ReturnFlow

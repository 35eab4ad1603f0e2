import ReturnFlow.Rule

/-!
What the built-in rules make of the operands of a call.

A rule answers with an operand, with an operand under another type, or with values of one type
(`Rule.Makes`). Such a value is a literal, or it is a JSON structure or a response that comes from
what the operands hold by the operations on structures and responses (`Rule.MakesJson`,
`Rule.MakesResponse`). `Rule.makes_call?` goes through the rules, case by case, and no other module
has to: what is to be known of all answers follows from how they are made.
-/

namespace ReturnFlow

/-- The element is the receiver of the call or one of its arguments. -/
def Call.Passes (c : Call) (e : Element) : Prop :=
  c.receiver = some e ∨ e ∈ c.args

theorem Call.passes_head {c : Call} {e : Element} (h : c.args.head? = some e) : c.Passes e :=
  Or.inr (List.mem_of_head? h)

theorem Known.result_ite (p : Prop) [Decidable p] (e : Element) :
    (if p then Known.value e else Known.update e).result = e := by
  split <;> rfl

namespace Rule

/-! ## Answers -/

section
variable (c : Call)

/-- What a rule may put into a JSON structure: an operand or the constant `null`. -/
def Puts (e : Element) : Prop := c.Passes e ∨ e = JsonBuilder.nullElement

/-- The JSON structures that a rule may make in a call. -/
inductive MakesJson : Json → Prop
  | found {e : Element} {j : Json} (he : c.Passes e) (hj : j ∈ e.jsonValues) : MakesJson j
  | emptyObject : MakesJson .emptyObject
  | emptyArray : MakesJson .emptyArray
  | withMember {j : Json} (hj : MakesJson j) (key : String) {e : Element} (he : Puts c e) :
      MakesJson (j.withMember key e)
  | withoutMember {j : Json} (hj : MakesJson j) (key : String) : MakesJson (j.withoutMember key)
  | withElement {j : Json} (hj : MakesJson j) {e : Element} (he : Puts c e) :
      MakesJson (j.withElement e)
  | merge {j j' merged : Json} (hj : MakesJson j) (hj' : MakesJson j')
      (hmerged : j.merge? j' = some merged) : MakesJson merged

/-- The responses that a rule may make in a call. -/
inductive MakesResponse : Response → Prop
  | found {e : Element} {r : Response} (he : c.Passes e) (hr : r ∈ e.responses) : MakesResponse r
  | empty : MakesResponse .empty
  | ofStatus {status : Nat} (h : 100 ≤ status ∧ status ≤ 599) : MakesResponse (.ofStatus status)
  | addStatuses {r : Response} (hr : MakesResponse r) (codes : Element) :
      MakesResponse (r.addStatuses codes)
  | addHeader {r : Response} (hr : MakesResponse r) (name : String) :
      MakesResponse (r.addHeader name)
  | addHeaders {r : Response} (hr : MakesResponse r) (names : Element) :
      MakesResponse (r.addHeaders names)
  | addContentTypes {r : Response} (hr : MakesResponse r) (mediaTypes : Element) :
      MakesResponse (r.addContentTypes mediaTypes)
  | addEntity {r : Response} (hr : MakesResponse r) {entity : Element}
      (hentity : c.Passes entity) : MakesResponse (r.addEntity entity)
  | merge {r s : Response} (hr : MakesResponse r) (hs : MakesResponse s) :
      MakesResponse (r.merge s)

/-- The values that a rule may make in a call; there is no handle among them. -/
inductive MakesValue : Value → Prop
  | literal (l : Literal) : MakesValue (.literal l)
  | json {j : Json} (hj : MakesJson c j) : MakesValue (.json j)
  | response {r : Response} (hr : MakesResponse c r) : MakesValue (.response r)

/-- What a rule may answer to a call. -/
inductive Makes : Element → Prop
  | operand {e : Element} (he : c.Passes e) : Makes e
  | retyped {e : Element} (he : c.Passes e) (type : String) : Makes (e.retyped type)
  | values (type : String) {vs : List Value} (hvs : ∀ v ∈ vs, MakesValue c v) :
      Makes (.ofValues type vs)

end

variable {c : Call} {k : Known}

/-! ## Boxes and strings -/

theorem makes_literals {α : Type} (type : String) (xs : List α) (f : α → Literal) :
    Makes c (.ofValues type (xs.map fun x => .literal (f x))) := by
  refine .values type fun v hv => ?_
  obtain ⟨x, -, rfl⟩ := List.mem_map.1 hv
  exact .literal (f x)

theorem makes_converted (e : Element) (type : String) : Makes c (e.converted type) :=
  makes_literals type _ fun l => l

theorem Boxing.makes_call? (hk : Boxing.call? c = some k) : Makes c k.result := by
  unfold Boxing.call? at hk
  split at hk
  · cases hk
  · split at hk
    · split at hk
      · obtain ⟨arg, -, rfl⟩ := Option.map_eq_some_iff.1 hk
        exact makes_converted arg _
      · cases hk
    · split at hk
      · split at hk
        · cases hk
          exact makes_converted _ _
        · cases hk
      · split at hk
        · obtain ⟨receiver, -, rfl⟩ := Option.map_eq_some_iff.1 hk
          exact makes_converted receiver _
        · cases hk

/-! ## JSON builders -/

namespace JsonBuilder

theorem makes_ofJson (type : String) {js : List Json} (h : ∀ j ∈ js, MakesJson c j) :
    Makes c (ofJson type js) := by
  refine .values type fun v hv => ?_
  obtain ⟨j, hj, rfl⟩ := List.mem_map.1 hv
  exact .json (h j hj)

theorem makesJson_initial {isKind : Json → Bool} {blank : Json} (hblank : MakesJson c blank)
    {source : Option Element} (h : ∀ e, source = some e → c.Passes e) :
    ∀ j ∈ initial isKind blank source, MakesJson c j := by
  intro j hj
  unfold initial at hj
  split at hj
  · rw [List.mem_singleton.1 hj]
    exact hblank
  · have hmem := (List.mem_filter.1 hj).1
    cases source with
    | none => cases hmem
    | some e => exact .found (h e rfl) hmem

theorem makesJson_objects {source : Option Element} (h : ∀ e, source = some e → c.Passes e) :
    ∀ j ∈ objects source, MakesJson c j :=
  makesJson_initial .emptyObject h

theorem makesJson_arrays {source : Option Element} (h : ∀ e, source = some e → c.Passes e) :
    ∀ j ∈ arrays source, MakesJson c j :=
  makesJson_initial .emptyArray h

theorem makes_factory? (hk : factory? c = some k) : Makes c k.result := by
  unfold factory? at hk
  split at hk
  · cases hk
    exact makes_ofJson _ (makesJson_objects fun e he => Call.passes_head he)
  · cases hk
    exact makes_ofJson _ (makesJson_arrays fun e he => Call.passes_head he)
  · obtain ⟨arg, -, rfl⟩ := Option.map_eq_some_iff.1 hk
    exact makes_literals _ _ fun l => l
  · cases hk

section
variable {js js' : List Json} (hjs : ∀ j ∈ js, MakesJson c j)
include hjs

theorem makesJson_withMembers (key : Element) {value : Element} (hvalue : Puts c value) :
    ∀ j ∈ withMembers js key value, MakesJson c j := by
  intro j hj
  unfold withMembers at hj
  split at hj
  · exact hjs j hj
  · obtain ⟨object, hobject, hj⟩ := List.mem_flatMap.1 hj
    obtain ⟨k, -, rfl⟩ := List.mem_map.1 hj
    exact .withMember (hjs object hobject) k hvalue

theorem makesJson_mergedWith {other : Element} (hother : c.Passes other) :
    ∀ j ∈ mergedWith js other, MakesJson c j := by
  intro j hj
  obtain ⟨s, hs, hj⟩ := List.mem_flatMap.1 hj
  obtain ⟨j', hj', hmerged⟩ := List.mem_filterMap.1 hj
  exact .merge (hjs s hs) (.found hother hj') hmerged

theorem makesJson_withoutMembers (key : Element) :
    ∀ j ∈ withoutMembers js key, MakesJson c j := by
  intro j hj
  obtain ⟨object, hobject, rfl⟩ := List.mem_map.1 hj
  exact List.foldlRecOn key.strings _ (hjs object hobject) fun o ho k _ => .withoutMember ho k

theorem makesJson_withElement {value : Element} (hvalue : Puts c value) :
    ∀ j ∈ js.map (Json.withElement value), MakesJson c j := by
  intro j hj
  obtain ⟨array, harray, rfl⟩ := List.mem_map.1 hj
  exact .withElement (hjs array harray) hvalue

theorem makesJson_objectStep? {name : String} {args : List Element}
    (hargs : ∀ e ∈ args, c.Passes e) (hstep : objectStep? name js args = some js') :
    ∀ j ∈ js', MakesJson c j := by
  unfold objectStep? at hstep
  split at hstep <;> cases hstep
  · exact makesJson_withMembers hjs _ (Or.inl (hargs _ (by simp)))
  · exact makesJson_withMembers hjs _ (Or.inr rfl)
  · exact makesJson_mergedWith hjs (hargs _ (by simp))
  · exact makesJson_withoutMembers hjs _
  · exact hjs

theorem makesJson_arrayStep? {name : String} {args : List Element}
    (hargs : ∀ e ∈ args, c.Passes e) (hstep : arrayStep? name js args = some js') :
    ∀ j ∈ js', MakesJson c j := by
  unfold arrayStep? at hstep
  split at hstep
  · obtain ⟨value, hvalue, rfl⟩ := Option.map_eq_some_iff.1 hstep
    exact makesJson_withElement hjs (Or.inl (hargs value (List.mem_of_getLast? hvalue)))
  · cases hstep
    exact makesJson_withElement hjs (Or.inr rfl)
  · obtain ⟨other, hother, rfl⟩ := Option.map_eq_some_iff.1 hstep
    exact makesJson_mergedWith hjs (hargs other (List.mem_of_head? hother))
  · cases hstep
    exact hjs
  · cases hstep
    exact hjs
  · cases hstep
    exact hjs
  · cases hstep

theorem makes_finish {receiver : Element} (hreceiver : c.receiver = some receiver) :
    Makes c (finish c receiver js).result := by
  unfold finish
  rw [Known.result_ite]
  split
  · exact .retyped (Or.inl hreceiver) _
  · exact makes_ofJson _ hjs

end

theorem makes_call? {className : String} (hk : call? className c = some k) : Makes c k.result := by
  have hargs : ∀ e ∈ c.args, c.Passes e := fun e he => Or.inr he
  unfold call? at hk
  split at hk
  · exact makes_factory? hk
  · exact makes_factory? hk
  · obtain ⟨receiver, hreceiver, hk⟩ := Option.bind_eq_some_iff.1 hk
    obtain ⟨js, hjs, rfl⟩ := Option.map_eq_some_iff.1 hk
    have hobjects : ∀ j ∈ objects receiver, MakesJson c j :=
      makesJson_objects fun e he => Or.inl (hreceiver.trans he)
    exact makes_finish (makesJson_objectStep? hobjects hargs hjs) hreceiver
  · obtain ⟨receiver, hreceiver, hk⟩ := Option.bind_eq_some_iff.1 hk
    obtain ⟨js, hjs, rfl⟩ := Option.map_eq_some_iff.1 hk
    have harrays : ∀ j ∈ arrays receiver, MakesJson c j :=
      makesJson_arrays fun e he => Or.inl (hreceiver.trans he)
    exact makes_finish (makesJson_arrayStep? harrays hargs hjs) hreceiver
  · cases hk

end JsonBuilder

/-! ## Response classes -/

namespace Rest

theorem makes_ofResponses (type : String) {rs : List Response}
    (h : ∀ r ∈ rs, MakesResponse c r) : Makes c (ofResponses type rs) := by
  refine .values type fun v hv => ?_
  obtain ⟨r, hr, rfl⟩ := List.mem_map.1 hv
  exact .response (h r hr)

theorem makesResponse_responsesOrBlank {e : Element} (he : c.Passes e) :
    ∀ r ∈ responsesOrBlank e, MakesResponse c r := by
  intro r hr
  unfold responsesOrBlank at hr
  split at hr
  · rw [List.mem_singleton.1 hr]
    exact .empty
  · exact .found he hr

section
variable {r : Response} (hr : MakesResponse c r)
include hr

theorem makesResponse_withEntity {entity : Option Element}
    (h : ∀ e, entity = some e → c.Passes e) : MakesResponse c (withEntity r entity) := by
  cases entity with
  | none => exact hr
  | some e => exact .addEntity hr (h e rfl)

theorem makesResponse_withContentType (mediaType : Option Element) :
    MakesResponse c (withContentType r mediaType) := by
  cases mediaType with
  | none => exact hr
  | some e => exact .addContentTypes hr e

end

section
variable {name : String} {args : List Element} (hargs : ∀ e ∈ args, c.Passes e) {r : Response}
include hargs

theorem makesResponse_fresh? (hr : fresh? name args = some r) : MakesResponse c r := by
  have hhead : ∀ e, args.head? = some e → c.Passes e := fun e he => hargs e (List.mem_of_head? he)
  unfold fresh? at hr
  split at hr
  · obtain ⟨codes, -, rfl⟩ := Option.map_eq_some_iff.1 hr
    exact .addStatuses .empty codes
  all_goals cases hr
  · exact makesResponse_withContentType
      (makesResponse_withEntity (.ofStatus (by decide)) hhead) _
  · exact .addHeader (.ofStatus (by decide)) _
  · exact makesResponse_withEntity (.ofStatus (by decide)) hhead
  · exact .ofStatus (by decide)
  · exact .addHeader (.ofStatus (by decide)) _
  · split
    · exact .ofStatus (by decide)
    · exact .addHeader (.ofStatus (by decide)) _
  · exact .addHeader (.ofStatus (by decide)) _
  · exact .addHeader (.ofStatus (by decide)) _
  · exact .ofStatus (by decide)

theorem makesResponse_builderDelta? (hr : builderDelta? name args = some r) :
    MakesResponse c r := by
  unfold builderDelta? at hr
  split at hr
  · obtain ⟨codes, -, rfl⟩ := Option.map_eq_some_iff.1 hr
    exact .addStatuses .empty codes
  · obtain ⟨entity, hentity, rfl⟩ := Option.map_eq_some_iff.1 hr
    exact .addEntity .empty (hargs entity (List.mem_of_head? hentity))
  · obtain ⟨mediaTypes, -, rfl⟩ := Option.map_eq_some_iff.1 hr
    exact .addContentTypes .empty mediaTypes
  · obtain ⟨names, -, rfl⟩ := Option.map_eq_some_iff.1 hr
    exact .addHeaders .empty names
  · cases hr
    exact .empty
  · cases hr
    exact .empty
  · cases hr
    exact .empty
  · cases hr
    exact .empty
  · obtain ⟨header, -, rfl⟩ := Option.map_eq_some_iff.1 hr
    exact .addHeader .empty header

end

theorem makes_factory? (hk : factory? c = some k) : Makes c k.result := by
  unfold factory? at hk
  split at hk
  · obtain ⟨source, hsource, rfl⟩ := Option.map_eq_some_iff.1 hk
    exact makes_ofResponses _ (makesResponse_responsesOrBlank (Call.passes_head hsource))
  · obtain ⟨r, hr, rfl⟩ := Option.map_eq_some_iff.1 hk
    have hfresh : MakesResponse c r := makesResponse_fresh? (fun e he => Or.inr he) hr
    have hmakes : Makes c (ofResponses c.method.returnType [r]) :=
      makes_ofResponses _ (List.forall_mem_singleton.2 hfresh)
    exact hmakes

theorem makes_response? {receiver : Element} (hk : response? c receiver = some k) :
    Makes c k.result := by
  unfold response? at hk
  split at hk
  · cases hk
    exact makes_literals _ _ _
  · cases hk

theorem makes_builder? {receiver : Element} (hreceiver : c.receiver = some receiver)
    (hk : builder? c receiver = some k) : Makes c k.result := by
  obtain ⟨delta, hdelta, rfl⟩ := Option.map_eq_some_iff.1 hk
  have hadded : MakesResponse c delta := makesResponse_builderDelta? (fun e he => Or.inr he) hdelta
  simp only
  rw [Known.result_ite]
  refine makes_ofResponses _ fun s hs => ?_
  obtain ⟨r, hr, rfl⟩ := List.mem_map.1 hs
  exact .merge (makesResponse_responsesOrBlank (Or.inl hreceiver) r hr) hadded

theorem makes_status? (hk : status? c = some k) : Makes c k.result := by
  unfold status? at hk
  split at hk
  · obtain ⟨receiver, hreceiver, rfl⟩ := Option.map_eq_some_iff.1 hk
    exact .retyped (Or.inl hreceiver) _
  · obtain ⟨code, hcode, rfl⟩ := Option.map_eq_some_iff.1 hk
    exact .retyped (Call.passes_head hcode) _
  · obtain ⟨name, -, rfl⟩ := Option.map_eq_some_iff.1 hk
    exact makes_literals _ _ _
  · cases hk

theorem makes_wrapped? {receiver : Element} (hreceiver : c.receiver = some receiver)
    (hk : wrapped? c receiver = some k) : Makes c k.result := by
  unfold wrapped? at hk
  split at hk
  · obtain ⟨entity, hentity, rfl⟩ := Option.map_eq_some_iff.1 hk
    exact .operand (Call.passes_head hentity)
  · split at hk
    · cases hk
      exact .operand (Or.inl hreceiver)
    · cases hk

theorem makes_call? {className : String} (hk : call? className c = some k) : Makes c k.result := by
  unfold call? at hk
  split at hk
  · split at hk
    · exact makes_factory? hk
    · obtain ⟨receiver, -, hk⟩ := Option.bind_eq_some_iff.1 hk
      exact makes_response? hk
  · obtain ⟨receiver, hreceiver, hk⟩ := Option.bind_eq_some_iff.1 hk
    exact makes_builder? hreceiver hk
  · exact makes_status? hk
  · obtain ⟨receiver, hreceiver, hk⟩ := Option.bind_eq_some_iff.1 hk
    exact makes_wrapped? hreceiver hk
  · cases hk

end Rest

/-- Every answer of a rule is made from the operands of the call. -/
theorem makes_call? (hk : call? c = some k) : Makes c k.result := by
  unfold call? at hk
  split at hk
  · split at hk
    · exact Rest.makes_call? hk
    · split at hk
      · exact JsonBuilder.makes_call? hk
      · cases hk
  · exact Boxing.makes_call? hk

end Rule

end ReturnFlow

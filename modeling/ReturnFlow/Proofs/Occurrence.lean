import ReturnFlow.Json
import ReturnFlow.Proofs.Sorting
import ReturnFlow.Response

/-!
The responses in an element, and their status codes.

`Response.InElement` says that a response occurs in an element, at whatever depth: as one of its
values, in a JSON structure, in the JSON bodies of another response, or in what a handle captured.
`Element.Valid` says that all those responses have status codes in the range of status codes. This
is a matter of the parts of a value (`Element.valid_iff` and the lemmas after it), and what makes or
changes values from valid parts gives valid ones.
-/

namespace ReturnFlow

/-! ## Occurrences -/

mutual

/-- The response occurs in the element. -/
inductive Response.InElement (r : Response) : Element → Prop
  | value {e : Element} {v : Value} (hv : v ∈ e.values) (hr : Response.InValue r v) :
      Response.InElement r e

inductive Response.InValue (r : Response) : Value → Prop
  | response : Response.InValue r (.response r)
  | inline {s : Response} {j : Json} (hj : j ∈ s.inline) (hr : Response.InJson r j) :
      Response.InValue r (.response s)
  | json {j : Json} (hr : Response.InJson r j) : Response.InValue r (.json j)
  | captured {h : Handle} {e : Element} (he : e ∈ h.captured) (hr : Response.InElement r e) :
      Response.InValue r (.handle h)

inductive Response.InJson (r : Response) : Json → Prop
  | member {members : List (String × Element)} {m : String × Element} (hm : m ∈ members)
      (hr : Response.InElement r m.2) : Response.InJson r (.object members)
  | item {elements : List Element} {e : Element} (he : e ∈ elements)
      (hr : Response.InElement r e) : Response.InJson r (.array elements)

end

/-- All the status codes are in the range of status codes. -/
def Response.InRange (r : Response) : Prop :=
  ∀ status ∈ r.statuses, 100 ≤ status ∧ status ≤ 599

/-- All the responses in the element have status codes in range. -/
def Element.Valid (e : Element) : Prop := ∀ r : Response, r.InElement e → r.InRange

def Value.Valid (v : Value) : Prop := ∀ r : Response, r.InValue v → r.InRange

def Json.Valid (j : Json) : Prop := ∀ r : Response, r.InJson j → r.InRange

/-- The status codes are in range, and so are those of all the responses in the bodies. -/
structure Response.Valid (r : Response) : Prop where
  inRange : r.InRange
  inline : ∀ j ∈ r.inline, j.Valid

theorem Element.valid_iff {e : Element} : e.Valid ↔ ∀ v ∈ e.values, v.Valid := by
  constructor
  · intro h v hv r hr
    exact h r (.value hv hr)
  · rintro h r ⟨hv, hr⟩
    exact h _ hv r hr

namespace Value

@[simp]
theorem valid_literal (l : Literal) : (Value.literal l).Valid := by
  rintro r ⟨⟩

@[simp]
theorem valid_json {j : Json} : (Value.json j).Valid ↔ j.Valid := by
  constructor
  · intro h r hr
    exact h r (.json hr)
  · rintro h r ⟨⟩
    exact h r ‹_›

@[simp]
theorem valid_response {r : Response} : (Value.response r).Valid ↔ r.Valid := by
  constructor
  · intro h
    exact ⟨h r .response, fun j hj s hs => h s (.inline hj hs)⟩
  · intro h s hs
    cases hs with
    | response => exact h.inRange
    | inline hj hs => exact h.inline _ hj s hs

@[simp]
theorem valid_handle {h : Handle} : (Value.handle h).Valid ↔ ∀ e ∈ h.captured, e.Valid := by
  constructor
  · intro hvalid e he r hr
    exact hvalid r (.captured he hr)
  · rintro hvalid r ⟨⟩
    exact hvalid _ ‹_› r ‹_›

end Value

namespace Json

@[simp]
theorem valid_object {members : List (String × Element)} :
    (Json.object members).Valid ↔ ∀ m ∈ members, m.2.Valid := by
  constructor
  · intro h m hm r hr
    exact h r (.member hm hr)
  · rintro h r ⟨⟩
    exact h _ ‹_› r ‹_›

@[simp]
theorem valid_array {elements : List Element} :
    (Json.array elements).Valid ↔ ∀ e ∈ elements, e.Valid := by
  constructor
  · intro h e he r hr
    exact h r (.item he hr)
  · rintro h r ⟨⟩
    exact h _ ‹_› r ‹_›

end Json

/-! ## Making and changing values -/

namespace Element

theorem valid_unknown (type : String) : (unknown type).Valid :=
  valid_iff.2 fun v hv => by cases hv

theorem valid_ofValue {type : String} {v : Value} : (ofValue type v).Valid ↔ v.Valid := by
  simp [valid_iff, ofValue]

theorem valid_ofValues {type : String} {vs : List Value} :
    (ofValues type vs).Valid ↔ ∀ v ∈ vs, v.Valid := by
  simp [valid_iff, ofValues]

theorem valid_literal (type : String) (l : Literal) : (literal type l).Valid :=
  valid_ofValue.2 (Value.valid_literal l)

theorem Valid.retyped {e : Element} (h : e.Valid) (type : String) : (e.retyped type).Valid :=
  valid_iff.2 fun v hv => valid_iff.1 h v hv

theorem valid_join {es : List Element} (h : ∀ e ∈ es, e.Valid) : (join es).Valid := by
  refine valid_iff.2 fun v hv => ?_
  obtain ⟨e, he, hv⟩ := List.mem_flatMap.1 (Sorted.mem_ofList.1 hv)
  exact valid_iff.1 (h e he) v hv

theorem mem_literals {e : Element} {l : Literal} : l ∈ e.literals ↔ .literal l ∈ e.values := by
  have hview (v : Value) : v.literal? = some l ↔ v = .literal l := by
    cases v <;> simp [Value.literal?]
  simp [literals, List.mem_filterMap, hview]

theorem mem_jsonValues {e : Element} {j : Json} : j ∈ e.jsonValues ↔ .json j ∈ e.values := by
  have hview (v : Value) : v.json? = some j ↔ v = .json j := by cases v <;> simp [Value.json?]
  simp [jsonValues, List.mem_filterMap, hview]

theorem mem_responses {e : Element} {r : Response} : r ∈ e.responses ↔ .response r ∈ e.values := by
  have hview (v : Value) : v.response? = some r ↔ v = .response r := by
    cases v <;> simp [Value.response?]
  simp [responses, List.mem_filterMap, hview]

theorem mem_handles {e : Element} {h : Handle} : h ∈ e.handles ↔ .handle h ∈ e.values := by
  have hview (v : Value) : v.handle? = some h ↔ v = .handle h := by cases v <;> simp [Value.handle?]
  simp [handles, List.mem_filterMap, hview]

theorem Valid.of_mem_jsonValues {e : Element} (h : e.Valid) {j : Json} (hj : j ∈ e.jsonValues) :
    j.Valid :=
  Value.valid_json.1 (valid_iff.1 h _ (mem_jsonValues.1 hj))

theorem Valid.of_mem_responses {e : Element} (h : e.Valid) {r : Response} (hr : r ∈ e.responses) :
    r.Valid :=
  Value.valid_response.1 (valid_iff.1 h _ (mem_responses.1 hr))

end Element

theorem Keyed.mem_set {β : Type} {key : String} {value : β} {entries : List (String × β)}
    {entry : String × β} (h : entry ∈ Keyed.set key value entries) :
    entry = (key, value) ∨ entry ∈ entries := by
  induction entries with
  | nil => exact Or.inl (List.mem_singleton.1 h)
  | cons head rest ih =>
    obtain ⟨k, v⟩ := head
    rw [Keyed.set] at h
    split at h
    · exact List.mem_cons.1 h
    · exact (List.mem_cons.1 h).imp_right (List.mem_cons_of_mem _)
    · rcases List.mem_cons.1 h with rfl | h
      · exact Or.inr List.mem_cons_self
      · exact (ih h).imp_right (List.mem_cons_of_mem _)

theorem Keyed.mem_ofList {β : Type} {entries : List (String × β)} :
    ∀ entry ∈ Keyed.ofList entries, entry ∈ entries := by
  refine List.foldlRecOn (motive := fun map => ∀ entry ∈ map, entry ∈ entries) entries _
    (List.forall_mem_nil _) ?_
  intro map hmap head hhead entry hmem
  rcases Keyed.mem_set hmem with rfl | hmem
  · exact hhead
  · exact hmap entry hmem

namespace Json

variable {j : Json}

theorem Valid.withMember (h : j.Valid) (key : String) {e : Element} (he : e.Valid) :
    (j.withMember key e).Valid := by
  cases j with
  | object members =>
    refine valid_object.2 fun m hm => ?_
    rcases Keyed.mem_set hm with rfl | hm
    · exact he
    · exact valid_object.1 h m hm
  | array elements => exact h

theorem Valid.withoutMember (h : j.Valid) (key : String) : (j.withoutMember key).Valid := by
  cases j with
  | object members =>
    exact valid_object.2 fun m hm => valid_object.1 h m (List.mem_of_mem_filter hm)
  | array elements => exact h

theorem Valid.withElement (h : j.Valid) {e : Element} (he : e.Valid) :
    (j.withElement e).Valid := by
  cases j with
  | object members => exact h
  | array elements =>
    refine valid_array.2 fun e' he' => ?_
    rcases List.mem_append.1 he' with he' | he'
    · exact valid_array.1 h e' he'
    · rw [List.mem_singleton.1 he']
      exact he

theorem Valid.merge? (h : j.Valid) {j' merged : Json} (h' : j'.Valid)
    (hmerged : j.merge? j' = some merged) : merged.Valid := by
  cases j with
  | object ours =>
    cases j' with
    | object theirs =>
      cases hmerged
      refine valid_object.2 fun m hm => ?_
      rcases List.mem_append.1 (Keyed.mem_ofList m hm) with hm | hm
      · exact valid_object.1 h m hm
      · exact valid_object.1 h' m hm
    | array elements => cases hmerged
  | array ours =>
    cases j' with
    | object members => cases hmerged
    | array theirs =>
      cases hmerged
      refine valid_array.2 fun e he => ?_
      rcases List.mem_append.1 he with he | he
      · exact valid_array.1 h e he
      · exact valid_array.1 h' e he

end Json

namespace Response

variable {r : Response}

theorem valid_empty : empty.Valid where
  inRange _ hstatus := by cases hstatus
  inline _ hj := by cases hj

theorem valid_ofStatus {status : Nat} (h : 100 ≤ status ∧ status ≤ 599) :
    (ofStatus status).Valid where
  inRange s hs := by rwa [List.mem_singleton.1 hs]
  inline _ hj := by cases hj

theorem status?_inRange {code : Int64} {status : Nat} (h : status? code = some status) :
    100 ≤ status ∧ status ≤ 599 := by
  unfold status? at h
  split at h
  · cases h
    omega
  · cases h

/-- Integers that are no status codes are left out. -/
theorem Valid.addStatuses (h : r.Valid) (codes : Element) : (r.addStatuses codes).Valid where
  inRange status hstatus := by
    rcases Sorted.mem_union.1 hstatus with hstatus | hstatus
    · exact h.inRange status hstatus
    · obtain ⟨code, -, hcode⟩ := List.mem_filterMap.1 hstatus
      exact status?_inRange hcode
  inline := h.inline

theorem Valid.addHeader (h : r.Valid) (name : String) : (r.addHeader name).Valid :=
  ⟨h.inRange, h.inline⟩

theorem Valid.addHeaders (h : r.Valid) (names : Element) : (r.addHeaders names).Valid :=
  ⟨h.inRange, h.inline⟩

theorem Valid.addContentTypes (h : r.Valid) (mediaTypes : Element) :
    (r.addContentTypes mediaTypes).Valid :=
  ⟨h.inRange, h.inline⟩

theorem Valid.addEntity (h : r.Valid) {entity : Element} (hentity : entity.Valid) :
    (r.addEntity entity).Valid where
  inRange := h.inRange
  inline j hj := by
    rcases Sorted.mem_union.1 hj with hj | hj
    · exact h.inline j hj
    · exact hentity.of_mem_jsonValues hj

theorem Valid.merge (h : r.Valid) {s : Response} (hs : s.Valid) : (r.merge s).Valid where
  inRange status hstatus := (Sorted.mem_union.1 hstatus).elim (h.inRange status) (hs.inRange status)
  inline j hj := (Sorted.mem_union.1 hj).elim (h.inline j) (hs.inline j)

end Response

end ReturnFlow

import ReturnFlow.Proofs.Everywhere
import ReturnFlow.Proofs.Occurrence

/-!
The types of all the elements in a simulation.

`Element.Typed` says that an element has a type, and so has all that its handles captured. The
built-in rules make no handles, and type what they make (`Element.typed_of_makes`), so that this is
a property of all elements in the sense of `Inherited`, and holds in all the frames of a machine
(`Machine.frames`).
-/

namespace ReturnFlow

/-! ## Typed elements -/

theorem Rule.MakesValue.handle?_eq_none {c : Call} {v : Value} (h : MakesValue c v) :
    v.handle? = none := by
  cases h <;> rfl

namespace Element

/-- The element has a type, and so has all that its handles captured. -/
inductive Typed : Element → Prop
  | intro {e : Element} (htypes : e.types ≠ [])
      (hcaptured : ∀ h ∈ e.handles, ∀ e' ∈ h.captured, Typed e') : Typed e

variable {e : Element}

theorem Typed.types_ne_nil (h : e.Typed) : e.types ≠ [] := by
  cases h
  assumption

theorem Typed.captured (h : e.Typed) : ∀ h ∈ e.handles, ∀ e' ∈ h.captured, e'.Typed := by
  cases h
  assumption

theorem typed_ofValues (type : String) {vs : List Value} (hvs : ∀ v ∈ vs, v.handle? = none) :
    (ofValues type vs).Typed := by
  refine .intro (List.cons_ne_nil type []) fun h hh => ?_
  have hnone := hvs _ (Sorted.mem_ofList.1 (mem_handles.1 hh))
  cases hnone

theorem typed_unknown (type : String) : (unknown type).Typed :=
  typed_ofValues type (List.forall_mem_nil _)

theorem typed_literal (type : String) (l : Literal) : (literal type l).Typed := by
  refine .intro (List.cons_ne_nil type []) fun h hh => ?_
  cases hh

theorem typed_handle (type : String) {h : Handle} (hcaptured : ∀ e ∈ h.captured, e.Typed) :
    (ofValue type (.handle h)).Typed := by
  refine .intro (List.cons_ne_nil type []) fun h' hh' => ?_
  rw [List.mem_singleton.1 hh']
  exact hcaptured

theorem Typed.retyped (h : e.Typed) (type : String) : (e.retyped type).Typed :=
  .intro (List.cons_ne_nil type []) h.captured

theorem types_join_ne_nil {es : List Element} (hes : ∀ e ∈ es, e.Typed) (hne : es ≠ []) :
    (join es).types ≠ [] := by
  obtain ⟨e, he⟩ := List.exists_mem_of_ne_nil es hne
  obtain ⟨type, htype⟩ := List.exists_mem_of_ne_nil e.types (hes e he).types_ne_nil
  exact List.ne_nil_of_mem (Sorted.mem_ofList.2 (List.mem_flatMap.2 ⟨e, he, htype⟩))

theorem typed_join {es : List Element} (hes : ∀ e ∈ es, e.Typed) (hne : es ≠ []) :
    (join es).Typed := by
  refine .intro (types_join_ne_nil hes hne) fun h hh => ?_
  obtain ⟨e, he, hv⟩ := List.mem_flatMap.1 (Sorted.mem_ofList.1 (mem_handles.1 hh))
  exact (hes e he).captured h (mem_handles.2 hv)

theorem typed_of_makes {c : Call} (hc : c.All Typed) (h : Rule.Makes c e) : e.Typed := by
  cases h with
  | operand he => exact hc.of_passes he
  | retyped he type => exact (hc.of_passes he).retyped type
  | values type hvs => exact typed_ofValues type fun v hv => (hvs v hv).handle?_eq_none

theorem inherited_typed : Inherited Typed where
  unknown := typed_unknown
  literal := typed_literal
  handle type _ hcaptured := typed_handle type hcaptured
  captured _ he := he.captured
  join es hes hne := by
    refine typed_join hes ?_
    rintro rfl
    cases hne
  rule _ _ hk hc := typed_of_makes hc (Rule.makes_call? hk)

end Element

/-! ## Frames of a machine -/

/-- The frame of the present body, unless the body has ended. -/
def Control.frames : Control → List Frame
  | .execute _ f _ => [f]
  | .answer p => [p.frame]
  | .finish _ => []

/-- The frames of the present body and of those that were left for it. -/
def Machine.frames (s : Machine) : List Frame :=
  s.control.frames ++ s.callers.map fun caller => caller.pending.frame

theorem Machine.All.frames {P : Element → Prop} {s : Machine} (h : s.All P) :
    ∀ f ∈ s.frames, f.All P := by
  intro f hf
  rcases List.mem_append.1 hf with hf | hf
  · have hcontrol := h.control
    revert hf hcontrol
    cases s.control with
    | execute index g rest => exact fun hf hcontrol => List.mem_singleton.1 hf ▸ hcontrol
    | answer p => exact fun hf hcontrol => List.mem_singleton.1 hf ▸ hcontrol.frame
    | finish result => exact fun hf => by cases hf
  · obtain ⟨caller, hcaller, rfl⟩ := List.mem_map.1 hf
    exact (h.callers caller hcaller).frame

end ReturnFlow

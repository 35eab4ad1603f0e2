import ReturnFlow.Rule

/-!
The classes that have built-in rules: boxes and strings by their names (`Rule.isValueClass_iff`), the
others by their names inside one of the two API namespaces (`Descriptor.apiName?_eq_some_iff`).
-/

namespace ReturnFlow

namespace Descriptor

theorem className?_ofClass (name : String) : className? (ofClass name) = some name := by
  simp [className?, ofClass, String.toList_append]

theorem after?_eq_some_iff {cs text rest : List Char} :
    after? cs text = some rest ↔ text = cs ++ rest := by
  induction cs generalizing text with
  | nil => simp [after?]
  | cons c cs ih =>
    cases text with
    | nil => simp [after?]
    | cons d text =>
      rw [after?, Option.ite_none_right_eq_some, ih, List.cons_append, List.cons.injEq, eq_comm]

/-- A class lies in one of the two namespaces exactly if its name begins with it. -/
theorem apiName?_eq_some_iff {name rest : String} :
    apiName? name = some rest ↔ name = "javax/" ++ rest ∨ name = "jakarta/" ++ rest := by
  have hinside (space : String) :
      after? space.toList name.toList = some rest.toList ↔ name = space ++ rest := by
    rw [after?_eq_some_iff, ← String.toList_append, String.toList_inj]
  have hapart : after? "jakarta/".toList name.toList = some rest.toList →
      after? "javax/".toList name.toList = none := by
    rw [after?_eq_some_iff]
    intro h
    rw [h]
    rfl
  have hname : apiName? name = ((after? "javax/".toList name.toList).or
      (after? "jakarta/".toList name.toList)).map String.ofList := by
    dsimp only [apiName?]
    cases after? "javax/".toList name.toList <;> rfl
  rw [← hinside, ← hinside, hname, Option.map_eq_some_iff]
  constructor
  · rintro ⟨cs, hcs, rfl⟩
    have hrest : (String.ofList cs).toList = cs := String.toList_ofList
    rw [hrest]
    exact (Option.or_eq_some_iff.1 hcs).imp_right And.right
  · intro h
    refine ⟨rest.toList, ?_, String.ofList_toList⟩
    rw [Option.or_eq_some_iff]
    exact h.imp_right fun h => ⟨hapart h, h⟩

end Descriptor

namespace Rule

/-- The classes of boxes and strings. -/
def valueClasses : List String :=
  ["java/lang/Boolean", "java/lang/Byte", "java/lang/Character", "java/lang/Short",
    "java/lang/Integer", "java/lang/Long", "java/lang/Float", "java/lang/Double",
    "java/lang/String"]

/-- The classes of entities wrapped with their type. -/
def entityClasses : List String :=
  ["javax/ws/rs/core/GenericEntity", "jakarta/ws/rs/core/GenericEntity"]

theorem exists_className?_of_unboxed? {type : String}
    (h : (Descriptor.unboxed? type).isSome = true) :
    ∃ name, Descriptor.className? type = some name ∧ name ∈ valueClasses := by
  revert h
  unfold Descriptor.unboxed?
  split
  case h_9 => simp
  all_goals exact fun _ => ⟨_, rfl, by decide⟩

theorem isValueClass_iff (name : String) :
    Boxing.isValueClass name = true ↔ name ∈ valueClasses := by
  constructor
  · intro h
    simp only [Boxing.isValueClass, Bool.or_eq_true, decide_eq_true_eq] at h
    rcases h with h | rfl
    · obtain ⟨found, hfound, hmem⟩ := exists_className?_of_unboxed? h
      rw [Descriptor.className?_ofClass] at hfound
      cases hfound
      exact hmem
    · decide
  · intro h
    revert name
    decide

theorem apiName?_of_mem_valueClasses : ∀ name ∈ valueClasses, Descriptor.apiName? name = none := by
  decide +kernel

theorem apiName?_eq_entity_iff (name : String) :
    Descriptor.apiName? name = some "ws/rs/core/GenericEntity" ↔ name ∈ entityClasses := by
  constructor
  · intro h
    rcases Descriptor.apiName?_eq_some_iff.1 h with rfl | rfl <;> decide
  · intro h
    revert name
    decide +kernel

end Rule

end ReturnFlow

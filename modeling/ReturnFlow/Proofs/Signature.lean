import Mathlib.Data.List.TakeWhile
import ReturnFlow.Method

/-!
What field types and method descriptors are split into.

Nothing stands between the parameter types of a descriptor, but a field type tells where it ends:
`Descriptor.splitField?_eq_some_iff` says that splitting a field type off a text finds it whatever
comes after it. So a row of field types is read in one way only
(`Descriptor.splitFields?_eq_some_iff`), and what the parentheses enclose ends at the first closing
one (`Descriptor.splitMethod?_eq_some_iff`). So a descriptor is read as what it was written from
(`Descriptor.readMethod_eq_ok_iff`).
-/

namespace ReturnFlow

namespace Descriptor

/-- The texts that are field types. -/
inductive IsFieldType : List Char → Prop
  | primitive {c : Char} (hc : isPrimitive c = true) : IsFieldType [c]
  | ofClass {name : List Char} (hname : name ≠ []) (hend : ';' ∉ name) :
      IsFieldType ('L' :: name ++ [';'])
  | array {type : List Char} (htype : IsFieldType type) : IsFieldType ('[' :: type)

/-- A text is cut at the first place where a character stands. -/
theorem takeWhile_dropWhile_eq_iff {mark c : Char} {cs front back : List Char} :
    cs.takeWhile (· ≠ mark) = front ∧ cs.dropWhile (· ≠ mark) = c :: back ↔
      c = mark ∧ mark ∉ front ∧ cs = front ++ mark :: back := by
  constructor
  · rintro ⟨rfl, hdrop⟩
    have hc : c = mark := by
      have hhead := List.head?_dropWhile_not (· ≠ mark) cs
      rw [hdrop] at hhead
      simpa using hhead
    refine ⟨hc, fun hmem => by simpa using List.mem_takeWhile_imp hmem, ?_⟩
    rw [hc] at hdrop
    rw [← hdrop, List.takeWhile_append_dropWhile]
  · rintro ⟨rfl, hfront, rfl⟩
    have hne : ∀ a ∈ front, decide (a ≠ c) = true := by
      intro a ha
      rw [decide_eq_true_eq]
      rintro rfl
      exact hfront ha
    rw [List.takeWhile_append_of_pos hne, List.dropWhile_append_of_pos hne]
    simp

/-! ## Field types -/

theorem splitField?_class_iff {cs type rest : List Char} :
    splitField? ('L' :: cs) = some (type, rest) ↔
      ∃ name, name ≠ [] ∧ ';' ∉ name ∧ type = 'L' :: name ++ [';'] ∧ cs = name ++ ';' :: rest := by
  rw [splitField?, if_neg (by decide), if_neg (by decide), if_pos rfl]
  simp only
  constructor
  · intro h
    split at h
    · next c back hdrop =>
      obtain ⟨-, hend, hcs⟩ := takeWhile_dropWhile_eq_iff.1 ⟨rfl, hdrop⟩
      split at h
      · cases h
      · next hname =>
        cases h
        exact ⟨_, hname, hend, rfl, hcs⟩
    · cases h
  · rintro ⟨name, hname, hend, rfl, hcs⟩
    obtain ⟨htake, hdrop⟩ := takeWhile_dropWhile_eq_iff.2 ⟨rfl, hend, hcs⟩
    rw [htake, hdrop]
    exact if_neg hname

theorem splitField?_primitive {c : Char} (hc : isPrimitive c = true) (cs : List Char) :
    splitField? (c :: cs) = some ([c], cs) := by
  have hne : c ≠ '[' := by
    rintro rfl
    cases hc
  rw [splitField?, if_neg hne, if_pos hc]

/-- A field type is found whatever comes after it. -/
theorem IsFieldType.splitField?_append {type : List Char} (h : IsFieldType type)
    (rest : List Char) : splitField? (type ++ rest) = some (type, rest) := by
  induction h with
  | primitive hc => exact splitField?_primitive hc rest
  | @ofClass name hname hend =>
    rw [List.append_assoc]
    exact splitField?_class_iff.2 ⟨name, hname, hend, rfl, rfl⟩
  | array _ ih =>
    rw [List.cons_append, splitField?, if_pos rfl, ih]
    rfl

/-- **Field types delimit themselves.** What is split off a text is a field type at its front. -/
theorem splitField?_eq_some_iff {cs type rest : List Char} :
    splitField? cs = some (type, rest) ↔ IsFieldType type ∧ cs = type ++ rest := by
  constructor
  · intro h
    induction cs generalizing type rest with
    | nil => cases h
    | cons c cs ih =>
      by_cases harray : c = '['
      · rw [splitField?, if_pos harray] at h
        obtain ⟨⟨type', rest'⟩, hsplit, heq⟩ := Option.map_eq_some_iff.1 h
        cases heq
        obtain ⟨htype, rfl⟩ := ih hsplit
        exact ⟨.array htype, by rw [harray]; rfl⟩
      · by_cases hc : isPrimitive c = true
        · rw [splitField?_primitive hc] at h
          cases h
          exact ⟨.primitive hc, rfl⟩
        · by_cases hclass : c = 'L'
          · subst hclass
            obtain ⟨name, hname, hend, rfl, rfl⟩ := splitField?_class_iff.1 h
            exact ⟨.ofClass hname hend, by simp⟩
          · rw [splitField?, if_neg harray, if_neg hc, if_neg hclass] at h
            cases h
  · rintro ⟨htype, rfl⟩
    exact htype.splitField?_append rest

theorem isField_iff {cs : List Char} : isField cs = true ↔ IsFieldType cs := by
  unfold isField
  constructor
  · intro h
    split at h
    · next type rest hsplit =>
      obtain ⟨htype, rfl⟩ := splitField?_eq_some_iff.1 hsplit
      rw [decide_eq_true_eq] at h
      rwa [h, List.append_nil]
    · cases h
  · intro h
    have hsplit := h.splitField?_append []
    rw [List.append_nil] at hsplit
    rw [hsplit]
    rfl

theorem readField_eq_ok_iff {text type : String} :
    readField text = .ok type ↔ type = text ∧ IsFieldType text.toList := by
  rw [← isField_iff]
  unfold readField
  split
  · next hempty => simp [hempty, isField, splitField?]
  · split
    · next hfield => simp [hfield, eq_comm]
    · next hfield => simp [hfield]

/-! ## Method descriptors -/

theorem splitFields?_of_splitField? {cs type rest : List Char}
    (h : splitField? cs = some (type, rest)) :
    splitFields? cs = (splitFields? rest).map (String.ofList type :: ·) := by
  rw [splitFields?]
  split
  · next hnone => cases h.symm.trans hnone
  · next hsome =>
    cases h.symm.trans hsome
    rfl

/-- A row of field types is read in one way only. -/
theorem splitFields?_eq_some_iff {cs : List Char} {types : List String} :
    splitFields? cs = some types ↔
      (∀ type ∈ types, IsFieldType type.toList) ∧ cs = types.flatMap String.toList := by
  constructor
  · intro h
    fun_induction splitFields? cs generalizing types with
    | case1 hsplit =>
      cases h
      simp
    | case2 cs hsplit hne => cases h
    | case3 cs type rest hsplit hlt ih =>
      obtain ⟨types', hrest, rfl⟩ := Option.map_eq_some_iff.1 h
      obtain ⟨htype, rfl⟩ := splitField?_eq_some_iff.1 hsplit
      obtain ⟨htypes, rfl⟩ := ih hrest
      refine ⟨?_, by simp⟩
      intro t ht
      rcases List.mem_cons.1 ht with rfl | ht
      · rwa [String.toList_ofList]
      · exact htypes t ht
  · rintro ⟨htypes, rfl⟩
    induction types with
    | nil => rw [List.flatMap_nil, splitFields?]; rfl
    | cons type types ih =>
      have htype := htypes type List.mem_cons_self
      rw [List.flatMap_cons, splitFields?_of_splitField? (htype.splitField?_append _),
        ih fun t ht => htypes t (List.mem_cons_of_mem type ht), String.ofList_toList]
      rfl

/-- The types that a method descriptor can be made of: the parameters are field types without a
closing parenthesis, and the return type is a field type or `V`. -/
structure IsSignature (params : List String) (returns : String) : Prop where
  params : ∀ p ∈ params, readField p = .ok p ∧ ')' ∉ p.toList
  returns : returns = void ∨ readField returns = .ok returns

theorem toList_ofMethod (params : List String) (returns : String) :
    (ofMethod params returns).toList =
      '(' :: (params.flatMap String.toList ++ ')' :: returns.toList) := by
  simp [ofMethod, String.toList_join]

/-- The parameters end at the first closing parenthesis. -/
theorem splitMethod?_cons_iff {cs : List Char} {params : List String} {returns : String} :
    splitMethod? ('(' :: cs) = some (params, returns) ↔
      ∃ front, ')' ∉ front ∧ cs = front ++ ')' :: returns.toList ∧
        splitFields? front = some params ∧ (returns = void ∨ IsFieldType returns.toList) := by
  rw [splitMethod?]
  constructor
  · intro h
    split at h
    · next fields _ back hfields hdrop =>
      obtain ⟨-, hfront, hcs⟩ := takeWhile_dropWhile_eq_iff.1 ⟨rfl, hdrop⟩
      split at h
      · next hreturns =>
        cases h
        rw [Bool.or_eq_true, decide_eq_true_eq, isField_iff] at hreturns
        rw [String.toList_ofList]
        exact ⟨_, hfront, hcs, hfields, hreturns⟩
      · cases h
    · cases h
  · rintro ⟨front, hfront, hcs, hfields, hreturns⟩
    obtain ⟨htake, hdrop⟩ := takeWhile_dropWhile_eq_iff.2 ⟨rfl, hfront, hcs⟩
    have hcond :
        (decide (String.ofList returns.toList = void) || isField returns.toList) = true := by
      rwa [Bool.or_eq_true, decide_eq_true_eq, isField_iff, String.ofList_toList]
    rw [htake, hdrop, hfields]
    exact (if_pos hcond).trans (by rw [String.ofList_toList])

/-- Splitting finds exactly the types that a descriptor was written from. -/
theorem splitMethod?_eq_some_iff {cs : List Char} {params : List String} {returns : String} :
    splitMethod? cs = some (params, returns) ↔
      IsSignature params returns ∧ cs = (ofMethod params returns).toList := by
  rw [toList_ofMethod]
  constructor
  · intro h
    obtain ⟨cs', rfl⟩ : ∃ cs', cs = '(' :: cs' := by
      unfold splitMethod? at h
      split at h
      · exact ⟨_, rfl⟩
      · cases h
    obtain ⟨front, hfront, rfl, hfields, hreturns⟩ := splitMethod?_cons_iff.1 h
    obtain ⟨hparams, rfl⟩ := splitFields?_eq_some_iff.1 hfields
    refine ⟨⟨fun p hp => ⟨readField_eq_ok_iff.2 ⟨rfl, hparams p hp⟩, fun hmem => ?_⟩, ?_⟩, rfl⟩
    · exact hfront (List.mem_flatMap.2 ⟨p, hp, hmem⟩)
    · exact hreturns.imp_right fun htype => readField_eq_ok_iff.2 ⟨rfl, htype⟩
  · rintro ⟨⟨hparams, hreturns⟩, rfl⟩
    refine splitMethod?_cons_iff.2 ⟨params.flatMap String.toList, ?_, rfl, ?_, ?_⟩
    · intro hmem
      obtain ⟨p, hp, hmem⟩ := List.mem_flatMap.1 hmem
      exact (hparams p hp).2 hmem
    · refine splitFields?_eq_some_iff.2 ⟨fun p hp => ?_, rfl⟩
      exact (readField_eq_ok_iff.1 (hparams p hp).1).2
    · exact hreturns.imp_right fun h => (readField_eq_ok_iff.1 h).2

theorem readMethod_eq_ok_iff {text : String} {params : List String} {returns : String} :
    readMethod text = .ok (params, returns) ↔
      IsSignature params returns ∧ text = ofMethod params returns := by
  rw [← String.toList_inj, ← splitMethod?_eq_some_iff]
  unfold readMethod
  split
  · next htypes => rw [htypes]; simp
  · next hnone => rw [hnone]; simp

theorem readMethod_cases (text : String) :
    (∃ types, readMethod text = .ok types) ∨ readMethod text = .error (.invalidMethod text) := by
  unfold readMethod
  split
  · exact Or.inl ⟨_, rfl⟩
  · exact Or.inr rfl

end Descriptor

end ReturnFlow

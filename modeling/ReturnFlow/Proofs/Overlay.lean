import ReturnFlow.Proofs.Lookup

/-!
Merging JSON structures lays the second over the first.

* `Keyed.Increasing.ext`: a map is determined by its lookups, so that two ways to write members are
  the same if no lookup tells them apart.
* `Keyed.get?_override`: laying a map over another one, the upper one answers first; from this come
  the laws of `Keyed.override`.
* `Json.writeAll_eq_override`: the same comes about by setting the members of the upper object one
  after the other, in any order.
-/

namespace ReturnFlow

/-! ## Maps -/

namespace Keyed

variable {β : Type} {key : String} {value : β} {entries xs ys zs : List (String × β)}

instance (entries : List (String × β)) : Decidable (Increasing entries) :=
  inferInstanceAs (Decidable (entries.Pairwise _))

theorem Increasing.keys_ne (h : Increasing entries) :
    entries.Pairwise fun x y => x.1 ≠ y.1 := by
  refine h.imp fun {x y} hlt heq => ?_
  rw [heq] at hlt
  simp at hlt

/-- If no key stands twice, to look a key up is to find its entry. -/
theorem get?_eq_some_iff (h : entries.Pairwise fun x y => x.1 ≠ y.1) :
    get? key entries = some value ↔ (key, value) ∈ entries := by
  induction entries with
  | nil => simp [get?]
  | cons entry rest ih =>
    obtain ⟨k, v⟩ := entry
    obtain ⟨hk, hrest⟩ := List.pairwise_cons.1 h
    rw [get?_cons, List.mem_cons, Prod.mk.injEq]
    by_cases hkey : key = k
    · have hnot : (key, value) ∉ rest := fun hmem => hk _ hmem hkey.symm
      simp [hkey, hkey ▸ hnot, eq_comm]
    · simp [hkey, ih hrest]

/-- In a map it does not matter from which end a key is looked up. -/
theorem Increasing.lookup_reverse (h : Increasing entries) :
    entries.reverse.lookup key = get? key entries := by
  have hkeys : entries.reverse.Pairwise fun x y => x.1 ≠ y.1 :=
    List.pairwise_reverse.2 (h.keys_ne.imp Ne.symm)
  ext value
  rw [← get?, get?_eq_some_iff hkeys, get?_eq_some_iff h.keys_ne, List.mem_reverse]

/-- A map is determined by its lookups. -/
theorem Increasing.ext (hxs : Increasing xs) (hys : Increasing ys)
    (h : ∀ key, get? key xs = get? key ys) : xs = ys := by
  have : Std.Irrefl fun x y : String × β => compare x.1 y.1 = .lt := ⟨fun x => by simp⟩
  have : Std.Antisymm fun x y : String × β => compare x.1 y.1 = .lt :=
    ⟨fun x y hxy hyx => absurd hyx (Std.OrientedCmp.not_lt_of_lt hxy)⟩
  refine List.Pairwise.eq_of_mem_iff hxs hys fun entry => ?_
  rw [← get?_eq_some_iff hxs.keys_ne, h, get?_eq_some_iff hys.keys_ne]

theorem increasing_ofList (entries : List (String × β)) : Increasing (ofList entries) :=
  Increasing.setAll entries .nil

theorem increasing_override (xs ys : List (String × β)) : Increasing (override xs ys) :=
  increasing_ofList _

/-- Of the entries with one key, the last one stays. -/
theorem get?_ofList : get? key (ofList entries) = entries.reverse.lookup key := by
  have hsetAll : ofList entries = setAll entries [] := rfl
  have hnil : get? key ([] : List (String × β)) = none := rfl
  rw [hsetAll, get?_setAll, hnil, Option.or_none]

theorem Increasing.ofList_eq (h : Increasing entries) : ofList entries = entries :=
  (increasing_ofList entries).ext h fun key => by rw [get?_ofList, h.lookup_reverse]

theorem get?_override_eq_lookup :
    get? key (override xs ys) = (ys.reverse.lookup key).or (xs.reverse.lookup key) := by
  rw [override, get?_ofList, List.reverse_append, List.lookup_append]

/-- Of two maps, the upper one answers first. -/
theorem get?_override (hxs : Increasing xs) (hys : Increasing ys) :
    get? key (override xs ys) = (get? key ys).or (get? key xs) := by
  rw [get?_override_eq_lookup, hxs.lookup_reverse, hys.lookup_reverse]

theorem override_assoc (xs ys zs : List (String × β)) :
    override (override xs ys) zs = override xs (override ys zs) := by
  refine (increasing_override _ _).ext (increasing_override _ _) fun key => ?_
  rw [get?_override_eq_lookup, get?_override_eq_lookup, (increasing_override xs ys).lookup_reverse,
    (increasing_override ys zs).lookup_reverse, get?_override_eq_lookup, get?_override_eq_lookup,
    Option.or_assoc]

theorem override_nil (h : Increasing xs) : override xs [] = xs := by
  rw [override, List.append_nil, h.ofList_eq]

theorem nil_override (h : Increasing xs) : override [] xs = xs :=
  h.ofList_eq

theorem override_self (h : Increasing xs) : override xs xs = xs :=
  (increasing_override xs xs).ext h fun key => by rw [get?_override h h, Option.or_self]

/-- Laying a map over another one sets its keys, in whatever order. -/
theorem setAll_eq_override {writes : List (String × β)} (hxs : Increasing xs) (hys : Increasing ys)
    (hperm : writes.Perm ys) : setAll writes xs = override xs ys := by
  have hofList : override xs ys = setAll ys (ofList xs) := List.foldl_append
  rw [setAll_perm hperm (hperm.symm.pairwise hys.keys_ne Ne.symm), hofList, hxs.ofList_eq]

end Keyed

/-! ## JSON structures -/

namespace Json

theorem merge?_assoc (a b c : Json) :
    ((a.merge? b).bind fun ab => ab.merge? c) = (b.merge? c).bind fun bc => a.merge? bc := by
  cases a <;> cases b <;> cases c <;>
    simp [merge?, Keyed.override_assoc, List.append_assoc]

theorem merge?_eq_none_iff {a b : Json} : a.merge? b = none ↔ a.isObject ≠ b.isObject := by
  cases a <;> cases b <;> simp [merge?, isObject]

theorem isObject_of_merge? {a b j : Json} (h : a.merge? b = some j) : j.isObject = a.isObject := by
  cases a <;> cases b <;> cases h <;> rfl

/-- Three structures merge exactly if they are of one kind. -/
theorem merge?_bind_eq_none_iff {a b c : Json} :
    ((a.merge? b).bind fun ab => ab.merge? c) = none ↔
      a.isObject ≠ b.isObject ∨ b.isObject ≠ c.isObject := by
  cases hab : a.merge? b with
  | none => simp [merge?_eq_none_iff.1 hab]
  | some ab =>
    have hkind : a.isObject = b.isObject := by
      by_contra hne
      rw [merge?_eq_none_iff.2 hne] at hab
      cases hab
    rw [Option.bind_some, merge?_eq_none_iff, isObject_of_merge? hab]
    simp [hkind]

/-- **Merging lays the second structure over the first.** It is associative, and fails exactly if
objects and arrays are mixed. Of two objects, the second one answers for its members and the first
one for the rest, just as if the members of the second one had been set on the first, in whatever
order; of two arrays, the elements of the first come before those of the second. Merging with an
empty structure of the same kind changes nothing, and neither does merging an object with itself. -/
theorem merge?_isOverlay :
    (∀ a b c : Json,
      ((a.merge? b).bind fun ab => ab.merge? c) = (b.merge? c).bind fun bc => a.merge? bc) ∧
    (∀ a b : Json, a.merge? b = none ↔ a.isObject ≠ b.isObject) ∧
    (∀ a b c : Json, ((a.merge? b).bind fun ab => ab.merge? c) = none ↔
      a.isObject ≠ b.isObject ∨ b.isObject ≠ c.isObject) ∧
    (∀ ours theirs, Keyed.Increasing ours → Keyed.Increasing theirs →
      ∃ merged, (object ours).merge? (object theirs) = some (object merged) ∧
        Keyed.Increasing merged ∧
        (∀ key, (object merged).get? key =
          ((object theirs).get? key).or ((object ours).get? key)) ∧
        ∀ writes, writes.Perm theirs → writeAll writes (object ours) = object merged) ∧
    (∀ members, Keyed.Increasing members →
      (object members).merge? emptyObject = some (object members) ∧
      emptyObject.merge? (object members) = some (object members) ∧
      (object members).merge? (object members) = some (object members)) ∧
    (∀ ours theirs, ∃ merged, (array ours).merge? (array theirs) = some (array merged) ∧
      (array merged).size = (array ours).size + (array theirs).size ∧
      merged.take ours.length = ours ∧ merged.drop ours.length = theirs) ∧
    ∀ elements, (array elements).merge? emptyArray = some (array elements) ∧
      emptyArray.merge? (array elements) = some (array elements) := by
  refine ⟨merge?_assoc, fun a b => merge?_eq_none_iff, fun a b c => merge?_bind_eq_none_iff,
    ?_, ?_, ?_, ?_⟩
  · intro ours theirs hours htheirs
    refine ⟨_, rfl, Keyed.increasing_override ours theirs, fun key => ?_, fun writes hperm => ?_⟩
    · exact Keyed.get?_override hours htheirs
    · rw [writeAll_object, Keyed.setAll_eq_override hours htheirs hperm]
  · intro members h
    refine ⟨?_, ?_, ?_⟩
    · rw [emptyObject, merge?, Keyed.override_nil h]
    · rw [emptyObject, merge?, Keyed.nil_override h]
    · rw [merge?, Keyed.override_self h]
  · intro ours theirs
    exact ⟨ours ++ theirs, rfl, List.length_append, List.take_left, List.drop_left⟩
  · intro elements
    refine ⟨?_, rfl⟩
    rw [emptyArray, merge?, List.append_nil]

/-- Two objects with a member in common, whose values hold a structure. -/
theorem merge?_isOverlay_common :
    let ours : List (String × Element) :=
      [("id", .int 1), ("name", .string "a"), ("parts", .ofValue "La;" (.json (.array [.int 1])))]
    let theirs : List (String × Element) :=
      [("id", .int 2), ("parts", .ofValue "La;" (.json .emptyArray)), ("size", .int 3)]
    Keyed.Increasing ours ∧ Keyed.Increasing theirs ∧
      (object ours).merge? (object theirs) =
        some (object [("id", .int 2), ("name", .string "a"),
          ("parts", .ofValue "La;" (.json .emptyArray)), ("size", .int 3)]) ∧
      some (writeAll theirs.reverse (object ours)) = (object ours).merge? (object theirs) ∧
      (object ours).merge? (object ours) = some (object ours) := by
  intro ours theirs
  have hours : Keyed.Increasing ours := by decide
  have htheirs : Keyed.Increasing theirs := by decide
  obtain ⟨-, -, -, hobjects, hself, -⟩ := merge?_isOverlay
  obtain ⟨merged, hmerged, -, -, hwrites⟩ := hobjects ours theirs hours htheirs
  refine ⟨hours, htheirs, rfl, ?_, (hself ours hours).2.2⟩
  rw [hmerged, hwrites theirs.reverse (List.reverse_perm theirs)]

end Json

end ReturnFlow

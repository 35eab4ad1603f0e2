import Mathlib.Data.List.Sort
import ReturnFlow.Proofs.Order

/-!
Sets of lawfully ordered items.

A set is the increasing list of its members, which is of use only if the order of the items is a
total order that agrees with equality: otherwise a member could stand twice in the list, or be lost.

* `Sorted.mem_ofList`, `Sorted.increasing_ofList`: sorting a list gives a set with the same members.
* `Sorted.Increasing.ext`: a set is determined by its members, so that order and repetition of what
  is sorted do not matter (`Sorted.ofList_eq_ofList_iff`).
* `Sorted.IsLawful` collects what a set of items needs of their order; literals, methods and all
  symbolic values have it.
-/

namespace ReturnFlow

namespace Sorted

variable {α : Type} [Ord α] {x y : α} {xs ys : List α}

instance (xs : List α) : Decidable (Increasing xs) :=
  inferInstanceAs (Decidable (xs.Pairwise _))

variable [Std.LawfulEqOrd α]

@[simp]
theorem mem_insert : y ∈ insert x xs ↔ y = x ∨ y ∈ xs := by
  induction xs with
  | nil => simp [insert]
  | cons z zs ih =>
    rw [insert]
    split
    · simp
    · next heq => simp [Std.LawfulEqOrd.eq_of_compare heq]
    · simp [ih, or_left_comm]

@[simp]
theorem mem_ofList : x ∈ ofList xs ↔ x ∈ xs := by
  induction xs with
  | nil => rfl
  | cons y ys ih => rw [ofList, List.foldr_cons, mem_insert, ← ofList, ih, List.mem_cons]

@[simp]
theorem mem_union : x ∈ union xs ys ↔ x ∈ xs ∨ x ∈ ys := by
  rw [union, mem_ofList, List.mem_append]

variable [Std.TransOrd α]

theorem Increasing.insert (h : Increasing xs) : Increasing (insert x xs) := by
  induction xs with
  | nil => simp [Sorted.insert, Increasing]
  | cons z zs ih =>
    obtain ⟨hz, hzs⟩ := List.pairwise_cons.1 h
    rw [Sorted.insert]
    split
    · next hlt =>
      refine List.pairwise_cons.2 ⟨fun y hy => ?_, h⟩
      rcases List.mem_cons.1 hy with rfl | hy
      · exact hlt
      · exact Std.TransCmp.lt_trans hlt (hz y hy)
    · exact h
    · next hgt =>
      refine List.pairwise_cons.2 ⟨fun y hy => ?_, ih hzs⟩
      rcases mem_insert.1 hy with rfl | hy
      · exact Std.OrientedCmp.gt_iff_lt.1 hgt
      · exact hz y hy

theorem increasing_ofList (xs : List α) : Increasing (ofList xs) := by
  induction xs with
  | nil => exact List.Pairwise.nil
  | cons x xs ih => exact ih.insert

/-- A set is determined by its members. -/
theorem Increasing.ext (hxs : Increasing xs) (hys : Increasing ys)
    (hmem : ∀ x, x ∈ xs ↔ x ∈ ys) : xs = ys := by
  have : Std.Irrefl fun x y : α => compare x y = .lt := ⟨fun x => by simp⟩
  have : Std.Antisymm fun x y : α => compare x y = .lt :=
    ⟨fun x y hxy hyx => absurd hyx (Std.OrientedCmp.not_lt_of_lt hxy)⟩
  exact List.Pairwise.eq_of_mem_iff hxs hys hmem

theorem ofList_eq_ofList_iff : ofList xs = ofList ys ↔ ∀ x, x ∈ xs ↔ x ∈ ys := by
  constructor
  · intro h x
    rw [← mem_ofList, h, mem_ofList]
  · intro h
    exact (increasing_ofList xs).ext (increasing_ofList ys) (by simpa using h)

theorem ofList_eq_self_iff : ofList xs = xs ↔ Increasing xs :=
  ⟨fun h => h ▸ increasing_ofList xs, fun h => (increasing_ofList xs).ext h fun _ => mem_ofList⟩

theorem increasing_union (xs ys : List α) : Increasing (union xs ys) :=
  increasing_ofList _

theorem union_comm (xs ys : List α) : union xs ys = union ys xs :=
  ofList_eq_ofList_iff.2 fun x => by simp [or_comm]

theorem union_assoc (xs ys zs : List α) : union xs (union ys zs) = union (union xs ys) zs :=
  ofList_eq_ofList_iff.2 fun x => by simp [or_assoc]

theorem union_self_iff : union xs xs = xs ↔ Increasing xs := by
  have hself : union xs xs = ofList xs := ofList_eq_ofList_iff.2 fun x => by simp
  rw [hself, ofList_eq_self_iff]

theorem union_nil_iff : union xs [] = xs ↔ Increasing xs := by
  rw [union, List.append_nil, ofList_eq_self_iff]

end Sorted

/-! ## Lawful orders -/

namespace Sorted

/-- The order of a type is total and agrees with equality, so that sorting gives sets. -/
structure IsLawful (α : Type) [Ord α] : Prop where
  eq_iff : ∀ x y : α, compare x y = .eq ↔ x = y
  swap : ∀ x y : α, compare x y = (compare y x).swap
  le_trans : ∀ x y z : α, (compare x y).isLE → (compare y z).isLE → (compare x z).isLE
  increasing : ∀ xs : List α, Increasing (ofList xs)
  mem_iff : ∀ (xs : List α) (x : α), x ∈ ofList xs ↔ x ∈ xs
  /-- Whatever the order and repetition of the items. -/
  unique : ∀ xs ys : List α, (∀ x, x ∈ xs ↔ x ∈ ys) → ofList xs = ofList ys

theorem isLawful (α : Type) [Ord α] [Std.TransOrd α] [Std.LawfulEqOrd α] : IsLawful α where
  eq_iff _ _ := Std.LawfulEqOrd.compare_eq_iff_eq
  swap _ _ := Std.OrientedOrd.eq_swap
  le_trans _ _ _ := Std.TransOrd.isLE_trans
  increasing := increasing_ofList
  mem_iff _ _ := mem_ofList
  unique _ _ := ofList_eq_ofList_iff.2

end Sorted

/-- **The order of every set is lawful.** On literals, methods, handles, values, elements, JSON
structures and responses, however deeply nested, the comparison is a total order that agrees with
equality, doubles being equal if their bits are; so a list of such items is sorted into the strictly
increasing list of its members. -/
theorem order_isLawful :
    Sorted.IsLawful Literal ∧ Sorted.IsLawful Method ∧ Sorted.IsLawful Handle ∧
    Sorted.IsLawful Value ∧ Sorted.IsLawful Element ∧ Sorted.IsLawful Json ∧
    Sorted.IsLawful Response ∧
    ∀ x y : Double, compare (Literal.double x) (.double y) = .eq ↔ x.bits = y.bits := by
  refine ⟨Sorted.isLawful _, Sorted.isLawful _, Sorted.isLawful _, Sorted.isLawful _,
    Sorted.isLawful _, Sorted.isLawful _, Sorted.isLawful _, fun x y => ?_⟩
  rw [Std.LawfulEqOrd.compare_eq_iff_eq, Literal.double.injEq, Double.mk.injEq]

/-- The two zeros are two members of a set, and a NaN is one. -/
example :
    let zero (negative : Bool) : Literal := .double (.ofCode negative 0)
    let nan : Literal := .double (.nan false)
    Sorted.ofList [nan, zero false, .null, zero true, nan] =
      [.null, zero true, zero false, nan] := by
  decide +kernel

end ReturnFlow

/-!
Finite sets as lists: a set is the strictly increasing list of its members, so two sets with the
same members are the same list.

`insert`, `ofList` and `union` build such lists; `Increasing` says that a list is one.
-/

namespace ReturnFlow.Sorted

variable {α : Type} [Ord α]

/-- Every member comes before all the members after it. -/
def Increasing (xs : List α) : Prop :=
  xs.Pairwise fun x y => compare x y = .lt

/-- Adds `x` at its place; a set that holds `x` stays as it is. -/
def insert (x : α) : List α → List α
  | [] => [x]
  | y :: ys =>
    match compare x y with
    | .lt => x :: y :: ys
    | .eq => y :: ys
    | .gt => y :: insert x ys

/-- The set of the items of a list, whatever their order and repetition. -/
def ofList (xs : List α) : List α :=
  xs.foldr insert []

/-- The set of the members of either list. -/
def union (xs ys : List α) : List α :=
  ofList (xs ++ ys)

end ReturnFlow.Sorted

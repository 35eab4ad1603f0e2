/-!
Finite maps from text as lists: a map is the list of its entries with strictly increasing keys, so
two maps with the same entries are the same list.
-/

namespace ReturnFlow.Keyed

variable {β : Type}

/-- Every key comes before all the keys after it. -/
def Increasing (entries : List (String × β)) : Prop :=
  entries.Pairwise fun x y => compare x.1 y.1 = .lt

/-- Binds a key, in place of what it was bound to. -/
def set (key : String) (value : β) : List (String × β) → List (String × β)
  | [] => [(key, value)]
  | (k, v) :: rest =>
    match compare key k with
    | .lt => (key, value) :: (k, v) :: rest
    | .eq => (key, value) :: rest
    | .gt => (k, v) :: set key value rest

/-- The value of a key. -/
def get? (key : String) (entries : List (String × β)) : Option β :=
  entries.lookup key

def erase (key : String) (entries : List (String × β)) : List (String × β) :=
  entries.filter fun entry => entry.1 ≠ key

/-- The map that binds the entries of a list in order, so that the last one of a key stays. -/
def ofList (entries : List (String × β)) : List (String × β) :=
  entries.foldl (fun map entry => set entry.1 entry.2 map) []

/-- The entries of both maps; where both bind a key, the second wins. -/
def override (xs ys : List (String × β)) : List (String × β) :=
  ofList (xs ++ ys)

end ReturnFlow.Keyed

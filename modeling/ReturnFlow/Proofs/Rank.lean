import Mathlib.Order.Monotone.Basic
import ReturnFlow.Slice

/-!
Positions in a list and in what a slice selects from it.

`Slice.select` takes the items at the covered positions, of the code as of any list that goes along
with it. `Slice.rank` is the place of a covered position among them: it is increasing
(`Slice.rank_lt_rank`), all places are taken (`Slice.exists_rank_eq`), and the item there is the one
of the position (`Slice.getElem?_select`).
-/

namespace ReturnFlow.Slice

variable {α : Type} {s : Slice} {l : List α} {p q k n : Nat}

/-! ## Ranks -/

/-- The number of covered positions before a position. -/
def rank (s : Slice) (p : Nat) : Nat := (List.range p).countP s.covers

theorem rank_succ (s : Slice) (p : Nat) :
    s.rank (p + 1) = s.rank p + if s.covers p = true then 1 else 0 := by
  simp [rank, List.range_succ, List.countP_append, List.countP_cons]

theorem rank_mono (s : Slice) : Monotone s.rank := by
  refine monotone_nat_of_le_succ fun p => ?_
  rw [rank_succ]
  omega

theorem rank_lt_rank (hp : s.covers p = true) (h : p < q) : s.rank p < s.rank q := by
  have hle : s.rank (p + 1) ≤ s.rank q := s.rank_mono h
  rw [rank_succ, if_pos hp] at hle
  omega

theorem lt_of_rank_lt (h : s.rank p < s.rank q) : p < q := by
  by_contra hge
  have hle : s.rank q ≤ s.rank p := s.rank_mono (Nat.not_lt.1 hge)
  omega

theorem le_of_rank_le (hq : s.covers q = true) (h : s.rank p ≤ s.rank q) : p ≤ q := by
  by_contra hgt
  have hlt := rank_lt_rank hq (Nat.not_le.1 hgt)
  omega

theorem exists_rank_eq (h : k < s.rank n) : ∃ p < n, s.covers p = true ∧ s.rank p = k := by
  induction n with
  | zero => simp [rank] at h
  | succ n ih =>
    by_cases hk : k < s.rank n
    · obtain ⟨p, hp, hcov, hrank⟩ := ih hk
      exact ⟨p, Nat.lt_succ_of_lt hp, hcov, hrank⟩
    · rw [rank_succ] at h
      split at h
      · next hcov => exact ⟨n, n.lt_succ_self, hcov, by omega⟩
      · omega

theorem rank_eq_self_iff : s.rank p = p ↔ ∀ q < p, s.covers q = true := by
  have hall : s.rank p = (List.range p).length ↔ ∀ q ∈ List.range p, s.covers q = true :=
    List.countP_eq_length
  simpa using hall

/-! ## Selected items -/

/-- The items at the covered positions, in order. -/
def select (s : Slice) (l : List α) : List α :=
  (l.zipIdx.filter fun (_, index) => s.covers index).map (·.1)

theorem select_take_succ (s : Slice) {x : α} (hx : l[p]? = some x) :
    s.select (l.take (p + 1)) = s.select (l.take p) ++ if s.covers p = true then [x] else [] := by
  have hlen : (l.take p).length = p :=
    List.length_take_of_le (Nat.le_of_lt (List.getElem?_eq_some_iff.1 hx).1)
  rw [List.take_add_one, hx, Option.toList_some, select, List.zipIdx_append, hlen,
    List.filter_append, List.map_append]
  congr 1
  split
  · rename_i hcov; simp [hcov]
  · rename_i hcov; simp [hcov]

theorem select_take_prefix (s : Slice) (l : List α) (p : Nat) :
    s.select (l.take p) <+: s.select l := by
  have hsplit : ∀ xs ys : List α, s.select xs <+: s.select (xs ++ ys) := by
    intro xs ys
    simp [select, List.zipIdx_append]
  have hpre := hsplit (l.take p) (l.drop p)
  rwa [List.take_append_drop] at hpre

theorem length_select_take (h : p ≤ l.length) : (s.select (l.take p)).length = s.rank p := by
  induction p with
  | zero => simp [select, rank]
  | succ p ih =>
    rw [select_take_succ s (List.getElem?_eq_getElem h), List.length_append, ih (by omega),
      rank_succ]
    split <;> rfl

theorem length_select (s : Slice) (l : List α) : (s.select l).length = s.rank l.length := by
  have hlen := length_select_take (s := s) (le_refl l.length)
  rwa [List.take_length] at hlen

/-- What is selected before a position comes before its rank. -/
theorem select_take (h : p ≤ l.length) : s.select (l.take p) = (s.select l).take (s.rank p) := by
  rw [← length_select_take h]
  exact List.prefix_iff_eq_take.1 (s.select_take_prefix l p)

/-- The item of a covered position is found at its rank. -/
theorem getElem?_select (l : List α) (hp : s.covers p = true) :
    (s.select l)[s.rank p]? = l[p]? := by
  by_cases hlt : p < l.length
  · have hpre := s.select_take_prefix l (p + 1)
    rw [select_take_succ s (List.getElem?_eq_getElem hlt), if_pos hp] at hpre
    obtain ⟨rest, hrest⟩ := hpre
    rw [← hrest, List.append_assoc, ← length_select_take hlt.le, List.getElem?_append_right le_rfl]
    simp [hlt]
  · have hle : s.rank l.length ≤ s.rank p := s.rank_mono (Nat.not_lt.1 hlt)
    rw [List.getElem?_eq_none (by rwa [length_select]), List.getElem?_eq_none (Nat.not_lt.1 hlt)]

theorem select_eq_self (h : ∀ p < l.length, s.covers p = true) : s.select l = l := by
  have hall : l.zipIdx.filter (fun (_, index) => s.covers index) = l.zipIdx := by
    refine List.filter_eq_self.2 fun entry hentry => h entry.2 ?_
    exact (List.getElem?_eq_some_iff.1 (List.mk_mem_zipIdx_iff_getElem?.1 hentry)).1
  rw [select, hall]
  exact List.zipIdx_map_fst 0 l

theorem positions_eq_select (s : Slice) (n : Nat) : s.positions n = s.select (List.range n) := by
  have hzip : (List.range n).zipIdx = (List.range n).map fun i => (i, i) := by
    refine List.ext_getElem (by simp) fun i _ _ => by simp
  rw [select, hzip, List.filter_map, List.map_map]
  simp [positions, Function.comp_def]

theorem getElem?_positions :
    (s.positions n)[k]? = some p ↔ p < n ∧ s.covers p = true ∧ s.rank p = k := by
  have hplace : ∀ q < n, s.covers q = true → (s.positions n)[s.rank q]? = some q := by
    intro q hq hcov
    rw [positions_eq_select, getElem?_select _ hcov, List.getElem?_range hq]
  constructor
  · intro h
    have hk : k < s.rank n := by
      have hlt := (List.getElem?_eq_some_iff.1 h).1
      rwa [positions_eq_select, length_select, List.length_range] at hlt
    obtain ⟨q, hq, hcov, rfl⟩ := exists_rank_eq hk
    rw [hplace q hq hcov] at h
    cases h
    exact ⟨hq, hcov, rfl⟩
  · rintro ⟨hp, hcov, rfl⟩
    exact hplace p hp hcov

end ReturnFlow.Slice

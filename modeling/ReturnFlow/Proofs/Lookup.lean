import Mathlib.Data.List.Pairwise
import ReturnFlow.Json
import ReturnFlow.Proofs.Occurrence

/-!
Setting, removing and looking up the members of JSON objects.

* `Json.exists_writeAll_object`: of several writes under one key, the last one counts.
* `Json.writeAll_perm`: writes under different keys may be made in any order.
* `Json.withoutMember_eq_eraseAll_iff`: when it makes no difference whether one key is removed or
  several.

The members are a map (`Keyed`), but little of this depends on its keys being in order.
-/

namespace ReturnFlow

namespace Keyed

variable {β : Type} {key key' : String} {value value' : β} {entries : List (String × β)}

theorem get?_cons (k : String) (v : β) (entries : List (String × β)) :
    get? key ((k, v) :: entries) = if key = k then some v else get? key entries := by
  rw [get?, List.lookup_cons]
  by_cases h : key = k
  · simp [h]
  · simp [h, get?, beq_false_of_ne h]

theorem get?_eq_none_iff : get? key entries = none ↔ ∀ entry ∈ entries, entry.1 ≠ key := by
  simp only [get?, List.lookup_eq_none_iff, bne_iff_ne, ne_comm]

/-- A key is bound to what it was set to last. -/
theorem get?_set :
    get? key (set key' value entries) = if key = key' then some value else get? key entries := by
  induction entries with
  | nil => simp [set, get?_cons]
  | cons entry rest ih =>
    obtain ⟨k, v⟩ := entry
    rw [set]
    split
    · rw [get?_cons]
    · next heq =>
      obtain rfl := Std.LawfulEqOrd.eq_of_compare heq
      rw [get?_cons, get?_cons]
      split <;> rfl
    · next hgt =>
      have hne : key' ≠ k := by
        rintro rfl
        simp at hgt
      rw [get?_cons, get?_cons, ih]
      by_cases hk : key = k
      · simp [hk, hne.symm]
      · simp [hk]

theorem set_comm_of_lt (hlt : compare key key' = .lt) :
    set key value (set key' value' entries) = set key' value' (set key value entries) := by
  have hgt : compare key' key = .gt := Std.OrientedCmp.gt_iff_lt.2 hlt
  induction entries with
  | nil => simp [set, hlt, hgt]
  | cons entry rest ih =>
    obtain ⟨k, v⟩ := entry
    -- where the greater key goes decides where the smaller one can go
    cases hk' : compare key' k with
    | lt =>
      have hk : compare key k = .lt := Std.TransCmp.lt_trans hlt hk'
      simp [set, hlt, hgt, hk, hk']
    | eq =>
      obtain rfl := Std.LawfulEqOrd.eq_of_compare hk'
      simp [set, hlt, hgt]
    | gt =>
      cases hk : compare key k with
      | lt => simp [set, hgt, hk, hk']
      | eq => simp [set, hgt, hk, hk']
      | gt => simp [set, hk, hk', ih]

/-- Different keys may be set in either order. -/
theorem set_comm (hne : key ≠ key') :
    set key value (set key' value' entries) = set key' value' (set key value entries) := by
  cases hcmp : compare key key' with
  | lt => exact set_comm_of_lt hcmp
  | eq => exact absurd (Std.LawfulEqOrd.eq_of_compare hcmp) hne
  | gt => exact (set_comm_of_lt (Std.OrientedCmp.gt_iff_lt.1 hcmp)).symm

theorem Increasing.set (h : Increasing entries) : Increasing (set key value entries) := by
  induction entries with
  | nil => exact List.pairwise_singleton _ _
  | cons entry rest ih =>
    obtain ⟨k, v⟩ := entry
    obtain ⟨hk, hrest⟩ := List.pairwise_cons.1 h
    rw [Keyed.set]
    split
    · next hlt =>
      refine List.pairwise_cons.2 ⟨fun e he => ?_, h⟩
      rcases List.mem_cons.1 he with rfl | he
      · exact hlt
      · exact Std.TransCmp.lt_trans hlt (hk e he)
    · next heq =>
      obtain rfl := Std.LawfulEqOrd.eq_of_compare heq
      exact List.pairwise_cons.2 ⟨hk, hrest⟩
    · next hgt =>
      refine List.pairwise_cons.2 ⟨fun e he => ?_, ih hrest⟩
      rcases mem_set he with rfl | he
      · exact Std.OrientedCmp.gt_iff_lt.1 hgt
      · exact hk e he

/-- Binds keys in order. -/
def setAll (writes entries : List (String × β)) : List (String × β) :=
  writes.foldl (fun map write => set write.1 write.2 map) entries

/-- A key is bound to what was written under it last, and to what it was bound to before if nothing
was. -/
theorem get?_setAll (writes : List (String × β)) :
    get? key (setAll writes entries) = (writes.reverse.lookup key).or (get? key entries) := by
  induction writes generalizing entries with
  | nil => rfl
  | cons write writes ih =>
    obtain ⟨k, v⟩ := write
    have hstep : setAll ((k, v) :: writes) entries = setAll writes (set k v entries) := rfl
    rw [hstep, ih, get?_set, List.reverse_cons, List.lookup_append, Option.or_assoc]
    congr 1
    rw [← get?, get?_cons]
    by_cases hk : key = k
    · simp [hk]
    · simp [hk, get?]

theorem Increasing.setAll (writes : List (String × β)) (h : Increasing entries) :
    Increasing (setAll writes entries) := by
  induction writes generalizing entries with
  | nil => exact h
  | cons write writes ih => exact ih h.set

/-- Writes to different keys may be made in any order. -/
theorem setAll_perm {writes writes' : List (String × β)} (hperm : writes.Perm writes')
    (hkeys : writes.Pairwise fun w w' => w.1 ≠ w'.1) :
    setAll writes entries = setAll writes' entries := by
  have : Std.Symm fun w w' : String × β => w.1 ≠ w'.1 := ⟨fun _ _ h => h.symm⟩
  refine hperm.foldl_eq' (fun w hw w' hw' map => ?_) entries
  by_cases heq : w = w'
  · rw [heq]
  · exact set_comm (hkeys.forall hw' hw (Ne.symm heq))

end Keyed

namespace Json

/-- Sets members in order. -/
def writeAll (writes : List (String × Element)) (o : Json) : Json :=
  writes.foldl (fun o write => o.withMember write.1 write.2) o

theorem writeAll_object (writes members : List (String × Element)) :
    writeAll writes (.object members) = .object (Keyed.setAll writes members) := by
  induction writes generalizing members with
  | nil => rfl
  | cons write writes ih => exact ih _

theorem writeAll_array (writes : List (String × Element)) (elements : List Element) :
    writeAll writes (.array elements) = .array elements := by
  induction writes with
  | nil => rfl
  | cons write writes ih => exact ih

theorem isObject_withMember (key : String) (value : Element) (o : Json) :
    (o.withMember key value).isObject = o.isObject := by
  cases o <;> rfl

/-- Writes to different keys may be made in any order. -/
theorem writeAll_perm {writes writes' : List (String × Element)} (hperm : writes.Perm writes')
    (hkeys : writes.Pairwise fun w w' => w.1 ≠ w'.1) (o : Json) :
    writeAll writes o = writeAll writes' o := by
  cases o with
  | object members => rw [writeAll_object, writeAll_object, Keyed.setAll_perm hperm hkeys]
  | array elements => rw [writeAll_array, writeAll_array]

/-- **The last write wins.** After writes to an object, a key is bound to what was written under it
last, and to what it was bound to before if nothing was; and the keys are still in order. -/
theorem exists_writeAll_object (writes : List (String × Element))
    (members : List (String × Element)) :
    ∃ members', writeAll writes (.object members) = .object members' ∧
      (Keyed.Increasing members → Keyed.Increasing members') ∧
      ∀ key, Keyed.get? key members' =
        (writes.reverse.lookup key).or (Keyed.get? key members) :=
  ⟨_, writeAll_object writes members, Keyed.Increasing.setAll writes,
    fun _ => Keyed.get?_setAll writes⟩

/-- Removes members one after the other. -/
def eraseAll (keys : List String) (o : Json) : Json :=
  keys.foldl (fun o key => o.withoutMember key) o

theorem eraseAll_array (keys : List String) (elements : List Element) :
    eraseAll keys (.array elements) = .array elements := by
  induction keys with
  | nil => rfl
  | cons key keys ih => exact ih

theorem eraseAll_object (keys : List String) (members : List (String × Element)) :
    eraseAll keys (.object members) = .object (members.filter fun m => m.1 ∉ keys) := by
  induction keys generalizing members with
  | nil => simp [eraseAll]
  | cons key keys ih =>
    have hstep : eraseAll (key :: keys) (.object members) =
        eraseAll keys (.object (Keyed.erase key members)) := rfl
    rw [hstep, ih, Keyed.erase, List.filter_filter]
    congr 1
    refine List.filter_congr fun m _ => ?_
    simp [Bool.and_comm]

/-- To remove one of several keys is to remove all of them exactly if the others are not there. -/
theorem withoutMember_eq_eraseAll_iff {key : String} {keys : List String} (hkey : key ∈ keys)
    (o : Json) :
    o.withoutMember key = o.eraseAll keys ↔ ∀ k ∈ keys, k ≠ key → o.get? k = none := by
  cases o with
  | array elements => simp [withoutMember, eraseAll_array, get?]
  | object members =>
    rw [withoutMember, eraseAll_object, object.injEq, Keyed.erase]
    simp only [get?, Keyed.get?_eq_none_iff]
    constructor
    · intro heq k hk hne m hm hmk
      have hmem : m ∈ members.filter fun m => m.1 ≠ key := by
        simp [hm, hmk, hne]
      rw [heq] at hmem
      simp [hmk, hk] at hmem
    · intro hnone
      refine List.filter_congr fun m hm => ?_
      by_cases hmk : m.1 = key
      · simp [hmk, hkey]
      · have hmem : m.1 ∉ keys := fun hmem => hnone m.1 hmem hmk m hm rfl
        simp [hmk, hmem]

end Json

end ReturnFlow

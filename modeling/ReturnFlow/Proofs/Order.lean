import Mathlib.Order.Basic
import Mathlib.Data.List.Basic
import ReturnFlow.Value

/-!
The orders of literals, methods and symbolic values are total orders that agree with equality.

Symbolic values are nested, so the laws of their orders hold at a value because they hold at its
parts. `LawfulAt` states the laws at one value, with nothing assumed of the values that it is
compared with: in this form they pass from the parts to the whole (`LawfulAt.prod`,
`LawfulAt.cons`, `LawfulAt.inj`), and a recursion over the values proves them.
-/

namespace ReturnFlow

/-- The laws of a total order that agrees with equality, at `x`. -/
structure LawfulAt {α : Type} (cmp : α → α → Ordering) (x : α) : Prop where
  eq_iff : ∀ y, cmp x y = .eq ↔ x = y
  swap : ∀ y, cmp y x = (cmp x y).swap
  lt_of_lt : ∀ y z, cmp x y = .lt → cmp y z ≠ .gt → cmp x z = .lt

/-- Pairs by their first part, then by their second. -/
def lexPair {α β : Type} (cmp : α → α → Ordering) (cmp' : β → β → Ordering) (p q : α × β) :
    Ordering :=
  (cmp p.1 q.1).then (cmp' p.2 q.2)

namespace LawfulAt

variable {α β : Type} {cmp : α → α → Ordering} {cmp' : β → β → Ordering}

theorem of_ord [Ord α] [Std.TransOrd α] [Std.LawfulEqOrd α] (x : α) : LawfulAt compare x where
  eq_iff _ := Std.LawfulEqOrd.compare_eq_iff_eq
  swap _ := Std.OrientedOrd.eq_swap
  lt_of_lt _ _ hxy hyz := Std.TransCmp.lt_of_lt_of_isLE hxy (Ordering.isLE_iff_ne_gt.2 hyz)

theorem comap (f : α → β) (hf : Function.Injective f) (hcmp : ∀ x y, cmp x y = cmp' (f x) (f y))
    {x : α} (h : LawfulAt cmp' (f x)) : LawfulAt cmp x where
  eq_iff y := by rw [hcmp, h.eq_iff, hf.eq_iff]
  swap y := by rw [hcmp, hcmp, h.swap]
  lt_of_lt y z := by
    rw [hcmp, hcmp, hcmp]
    exact h.lt_of_lt (f y) (f z)

theorem prod {p : α × β} (h : LawfulAt cmp p.1) (h' : LawfulAt cmp' p.2) :
    LawfulAt (lexPair cmp cmp') p where
  eq_iff q := by rw [lexPair, Ordering.then_eq_eq, h.eq_iff, h'.eq_iff, Prod.ext_iff]
  swap q := by rw [lexPair, lexPair, h.swap, h'.swap, Ordering.swap_then]
  lt_of_lt q r hpq hqr := by
    rw [lexPair, Ordering.then_eq_lt] at hpq ⊢
    rw [lexPair, Ne, Ordering.then_eq_gt, not_or, not_and] at hqr
    rcases hpq with hlt | ⟨heq, hlt⟩
    · exact Or.inl (h.lt_of_lt _ _ hlt hqr.1)
    · rw [← (h.eq_iff _).1 heq] at hqr
      cases hpr : cmp p.1 r.1 with
      | lt => exact Or.inl rfl
      | eq => exact Or.inr ⟨rfl, h'.lt_of_lt _ _ hlt (hqr.2 hpr)⟩
      | gt => exact absurd hpr hqr.1

theorem nil : LawfulAt (List.compareLex cmp) [] where
  eq_iff
    | [] => by simp [List.compareLex_nil_nil]
    | _ :: _ => by simp [List.compareLex_nil_cons]
  swap
    | [] => rfl
    | _ :: _ => rfl
  lt_of_lt
    | [], _, hlt => by simp [List.compareLex_nil_nil] at hlt
    | _ :: _, [], _ => fun hne => absurd List.compareLex_cons_nil hne
    | _ :: _, _ :: _, _ => fun _ => List.compareLex_nil_cons

theorem cons {x : α} {xs : List α} (h : LawfulAt cmp x) (h' : LawfulAt (List.compareLex cmp) xs) :
    LawfulAt (List.compareLex cmp) (x :: xs) := by
  have hpair : LawfulAt (lexPair cmp (List.compareLex cmp)) (x, xs) := prod h h'
  constructor
  case eq_iff =>
    rintro (_ | ⟨y, ys⟩)
    · simp [List.compareLex_cons_nil]
    · rw [List.compareLex_cons_cons, List.cons.injEq, ← Prod.mk.injEq]
      exact hpair.eq_iff (y, ys)
  case swap =>
    rintro (_ | ⟨y, ys⟩)
    · rfl
    · rw [List.compareLex_cons_cons, List.compareLex_cons_cons]
      exact hpair.swap (y, ys)
  case lt_of_lt =>
    rintro (_ | ⟨y, ys⟩) (_ | ⟨z, zs⟩)
    · simp [List.compareLex_cons_nil]
    · simp [List.compareLex_cons_nil]
    · simp [List.compareLex_cons_nil]
    · simp only [List.compareLex_cons_cons]
      exact hpair.lt_of_lt (y, ys) (z, zs)

/-- Values of one kind are compared by their contents, and values of different kinds by the kind. -/
theorem inj (make : β → α) (hmake : Function.Injective make) (kind : α → Nat)
    (hkind : ∀ x y, kind x ≠ kind y → cmp x y = compare (kind x) (kind y))
    (hcmp : ∀ b c, cmp (make b) (make c) = cmp' b c) {b : β}
    (hmk : ∀ y, kind y = kind (make b) → ∃ c, make c = y) (h : LawfulAt cmp' b) :
    LawfulAt cmp (make b) where
  eq_iff y := by
    by_cases hk : kind y = kind (make b)
    · obtain ⟨c, rfl⟩ := hmk y hk
      rw [hcmp, h.eq_iff, hmake.eq_iff]
    · rw [hkind _ _ (Ne.symm hk), Nat.compare_eq_eq]
      exact ⟨fun heq => absurd heq.symm hk, fun heq => heq ▸ rfl⟩
  swap y := by
    by_cases hk : kind y = kind (make b)
    · obtain ⟨c, rfl⟩ := hmk y hk
      rw [hcmp, hcmp, h.swap]
    · rw [hkind _ _ hk, hkind _ _ (Ne.symm hk), Nat.compare_swap]
  lt_of_lt y z hxy hyz := by
    have hle (x y : α) (hne : cmp x y ≠ .gt) : kind x ≤ kind y := by
      by_contra hlt
      rw [hkind x y (by omega)] at hne
      exact hne (Nat.compare_eq_gt.2 (by omega))
    have hy : kind (make b) ≤ kind y := hle _ _ (by simp [hxy])
    have hz : kind y ≤ kind z := hle _ _ hyz
    by_cases hk : kind z = kind (make b)
    · obtain ⟨c, rfl⟩ := hmk y (by omega)
      obtain ⟨d, rfl⟩ := hmk z hk
      rw [hcmp] at hxy hyz ⊢
      exact h.lt_of_lt c d hxy hyz
    · rw [hkind _ _ (Ne.symm hk)]
      exact Nat.compare_eq_lt.2 (by omega)

theorem transCmp (h : ∀ x, LawfulAt cmp x) : Std.TransCmp cmp where
  eq_swap {x y} := (h y).swap x
  isLE_trans {x y z} hxy hyz := by
    cases hc : cmp x y with
    | lt => simp [(h x).lt_of_lt y z hc (Ordering.isLE_iff_ne_gt.1 hyz)]
    | eq => rwa [((h x).eq_iff y).1 hc]
    | gt => simp [hc] at hxy

theorem lawfulEqCmp (h : ∀ x, LawfulAt cmp x) : Std.LawfulEqCmp cmp where
  compare_self {x} := ((h x).eq_iff x).2 rfl
  eq_of_compare {x y} := ((h x).eq_iff y).1

end LawfulAt

/-! ## Literals and methods -/

/-- The place of a double in the order determines its bits. -/
theorem Double.rank_injective : Function.Injective Double.rank := by
  rintro ⟨x⟩ ⟨y⟩ h
  have hx := x.toNat_lt
  have hy := y.toNat_lt
  have hsign : signPlace = 9223372036854775808 := rfl
  simp only [rank, isNegative, code, hsign, decide_eq_true_eq] at h
  rw [mk.injEq, ← UInt64.toNat_inj]
  -- the sign bit is set exactly in the patterns of negative rank
  split_ifs at h <;> omega

theorem Double.lawfulAt (x : Double) : LawfulAt compare x :=
  .comap rank rank_injective (fun _ _ => rfl) (.of_ord x.rank)

instance : Std.TransOrd Double := LawfulAt.transCmp Double.lawfulAt
instance : Std.LawfulEqOrd Double := LawfulAt.lawfulEqCmp Double.lawfulAt

namespace Literal

theorem cmp_of_kind_ne (a b : Literal) : a.kind ≠ b.kind → a.cmp b = compare a.kind b.kind := by
  cases a <;> cases b <;> simp [cmp, kind]

theorem lawfulAt (l : Literal) : LawfulAt Literal.cmp l := by
  cases l with
  | null =>
    have hunit : LawfulAt (fun _ _ : Unit => .eq) () :=
      ⟨fun _ => by simp, fun _ => rfl, fun _ _ h => by cases h⟩
    exact .inj (fun _ => .null) (fun _ _ _ => rfl) kind cmp_of_kind_ne (fun _ _ => rfl)
      (by rintro ⟨⟩ <;> simp [kind]) hunit
  | bool b =>
    exact .inj .bool (fun _ _ => Literal.bool.inj) kind cmp_of_kind_ne (fun _ _ => rfl)
      (by rintro ⟨⟩ <;> simp [kind]) (.of_ord b)
  | int v =>
    exact .inj .int (fun _ _ => Literal.int.inj) kind cmp_of_kind_ne (fun _ _ => rfl)
      (by rintro ⟨⟩ <;> simp [kind]) (.of_ord v)
  | char c =>
    exact .inj .char (fun _ _ => Literal.char.inj) kind cmp_of_kind_ne (fun _ _ => rfl)
      (by rintro ⟨⟩ <;> simp [kind]) (.of_ord c)
  | double d =>
    exact .inj .double (fun _ _ => Literal.double.inj) kind cmp_of_kind_ne (fun _ _ => rfl)
      (by rintro ⟨⟩ <;> simp [kind]) (.of_ord d)
  | string s =>
    exact .inj .string (fun _ _ => Literal.string.inj) kind cmp_of_kind_ne (fun _ _ => rfl)
      (by rintro ⟨⟩ <;> simp [kind]) (.of_ord s)
  | cls s =>
    exact .inj .cls (fun _ _ => Literal.cls.inj) kind cmp_of_kind_ne (fun _ _ => rfl)
      (by rintro ⟨⟩ <;> simp [kind]) (.of_ord s)

end Literal

instance : Std.TransOrd Literal := LawfulAt.transCmp Literal.lawfulAt
instance : Std.LawfulEqOrd Literal := LawfulAt.lawfulEqCmp Literal.lawfulAt

theorem Method.lawfulAt (m : Method) : LawfulAt Method.cmp m :=
  .comap (fun m : Method => (m.owner, m.name, m.returnType, m.isStatic, m.params))
    (fun ⟨_, _, _, _, _⟩ ⟨_, _, _, _, _⟩ h => by simpa using h) (fun _ _ => rfl)
    (.prod (.of_ord _) (.prod (.of_ord _) (.prod (.of_ord _) (.prod (.of_ord _) (.of_ord _)))))

instance : Std.TransOrd Method := LawfulAt.transCmp Method.lawfulAt
instance : Std.LawfulEqOrd Method := LawfulAt.lawfulEqCmp Method.lawfulAt

/-! ## Symbolic values -/

/-- A comparison that goes through two lists item by item is the lexicographic one. -/
theorem eq_compareLex {α : Type} {cmp : α → α → Ordering} {cmpList : List α → List α → Ordering}
    (hnil : cmpList [] [] = .eq) (hlt : ∀ y ys, cmpList [] (y :: ys) = .lt)
    (hgt : ∀ x xs, cmpList (x :: xs) [] = .gt)
    (hcons : ∀ x xs y ys, cmpList (x :: xs) (y :: ys) = (cmp x y).then (cmpList xs ys))
    (xs ys : List α) : cmpList xs ys = List.compareLex cmp xs ys := by
  induction xs generalizing ys with
  | nil =>
    cases ys with
    | nil => rw [hnil, List.compareLex_nil_nil]
    | cons y ys => rw [hlt, List.compareLex_nil_cons]
  | cons x xs ih =>
    cases ys with
    | nil => rw [hgt, List.compareLex_cons_nil]
    | cons y ys => rw [hcons, List.compareLex_cons_cons, ih]

theorem Element.cmpList_eq : Element.cmpList = List.compareLex Element.cmp :=
  funext₂ (eq_compareLex rfl (fun _ _ => rfl) (fun _ _ => rfl) fun _ _ _ _ => rfl)

theorem Value.cmpList_eq : Value.cmpList = List.compareLex Value.cmp :=
  funext₂ (eq_compareLex rfl (fun _ _ => rfl) (fun _ _ => rfl) fun _ _ _ _ => rfl)

theorem Json.cmpList_eq : Json.cmpList = List.compareLex Json.cmp :=
  funext₂ (eq_compareLex rfl (fun _ _ => rfl) (fun _ _ => rfl) fun _ _ _ _ => rfl)

theorem Json.cmpMembers_eq : Json.cmpMembers = List.compareLex (lexPair compare Element.cmp) :=
  funext₂ (eq_compareLex rfl (fun _ _ => rfl) (fun _ _ => rfl) fun _ _ _ _ => rfl)

/-- The place of a kind of value among the kinds. -/
def Value.kind : Value → Nat
  | .literal _ => 0
  | .json _ => 1
  | .response _ => 2
  | .handle _ => 3

theorem Value.cmp_of_kind_ne (a b : Value) : a.kind ≠ b.kind → a.cmp b = compare a.kind b.kind := by
  cases a <;> cases b <;> simp [Value.cmp, Value.kind] <;> rfl

def Json.kind : Json → Nat
  | .object _ => 0
  | .array _ => 1

theorem Json.cmp_of_kind_ne (a b : Json) : a.kind ≠ b.kind → a.cmp b = compare a.kind b.kind := by
  cases a <;> cases b <;> simp [Json.cmp, Json.kind] <;> rfl

mutual

theorem Element.lawfulAt : ∀ e : Element, LawfulAt Element.cmp e
  | ⟨types, values⟩ =>
    have hvalues := Value.cmpList_eq ▸ Value.lawfulAt_list values
    .comap (fun e : Element => (e.types, e.values)) (fun ⟨_, _⟩ ⟨_, _⟩ h => by simpa using h)
      (fun ⟨_, _⟩ ⟨_, _⟩ => rfl) (.prod (.of_ord types) hvalues)
termination_by structural e => e

theorem Value.lawfulAt : ∀ v : Value, LawfulAt Value.cmp v
  | .literal l =>
    .inj .literal (fun _ _ => Value.literal.inj) Value.kind Value.cmp_of_kind_ne (fun _ _ => rfl)
      (by rintro ⟨⟩ <;> simp [Value.kind]) (.of_ord l)
  | .json j =>
    .inj .json (fun _ _ => Value.json.inj) Value.kind Value.cmp_of_kind_ne (fun _ _ => rfl)
      (by rintro ⟨⟩ <;> simp [Value.kind]) (Json.lawfulAt j)
  | .response r =>
    .inj .response (fun _ _ => Value.response.inj) Value.kind Value.cmp_of_kind_ne (fun _ _ => rfl)
      (by rintro ⟨⟩ <;> simp [Value.kind]) (Response.lawfulAt r)
  | .handle h =>
    .inj .handle (fun _ _ => Value.handle.inj) Value.kind Value.cmp_of_kind_ne (fun _ _ => rfl)
      (by rintro ⟨⟩ <;> simp [Value.kind]) (Handle.lawfulAt h)
termination_by structural v => v

theorem Json.lawfulAt : ∀ j : Json, LawfulAt Json.cmp j
  | .object members =>
    .inj Json.object (fun _ _ => Json.object.inj) Json.kind Json.cmp_of_kind_ne
      (congrFun₂ Json.cmpMembers_eq) (by rintro ⟨⟩ <;> simp [Json.kind])
      (Json.lawfulAt_members members)
  | .array elements =>
    .inj Json.array (fun _ _ => Json.array.inj) Json.kind Json.cmp_of_kind_ne
      (congrFun₂ Element.cmpList_eq) (by rintro ⟨⟩ <;> simp [Json.kind])
      (Element.lawfulAt_list elements)
termination_by structural j => j

theorem Response.lawfulAt : ∀ r : Response, LawfulAt Response.cmp r
  | ⟨statuses, headers, contentTypes, entityTypes, inline⟩ =>
    have hinline := Json.cmpList_eq ▸ Json.lawfulAt_list inline
    .comap
      (fun r : Response => (r.statuses, r.headers, r.contentTypes, r.entityTypes, r.inline))
      (fun ⟨_, _, _, _, _⟩ ⟨_, _, _, _, _⟩ h => by simpa using h)
      (fun ⟨_, _, _, _, _⟩ ⟨_, _, _, _, _⟩ => rfl)
      (.prod (.of_ord statuses) (.prod (.of_ord headers) (.prod (.of_ord contentTypes)
        (.prod (.of_ord entityTypes) hinline))))
termination_by structural r => r

theorem Handle.lawfulAt : ∀ h : Handle, LawfulAt Handle.cmp h
  | ⟨target, captured⟩ =>
    have hcaptured := Element.cmpList_eq ▸ Element.lawfulAt_list captured
    .comap (fun h : Handle => (h.target, h.captured)) (fun ⟨_, _⟩ ⟨_, _⟩ h => by simpa using h)
      (fun ⟨_, _⟩ ⟨_, _⟩ => rfl) (.prod (.of_ord target) hcaptured)
termination_by structural h => h

theorem Element.lawfulAt_list : ∀ es : List Element, LawfulAt (List.compareLex Element.cmp) es
  | [] => .nil
  | e :: es => .cons (Element.lawfulAt e) (Element.lawfulAt_list es)
termination_by structural es => es

theorem Value.lawfulAt_list : ∀ vs : List Value, LawfulAt (List.compareLex Value.cmp) vs
  | [] => .nil
  | v :: vs => .cons (Value.lawfulAt v) (Value.lawfulAt_list vs)
termination_by structural vs => vs

theorem Json.lawfulAt_list : ∀ js : List Json, LawfulAt (List.compareLex Json.cmp) js
  | [] => .nil
  | j :: js => .cons (Json.lawfulAt j) (Json.lawfulAt_list js)
termination_by structural js => js

theorem Json.lawfulAt_members : ∀ ms : List (String × Element),
    LawfulAt (List.compareLex (lexPair compare Element.cmp)) ms
  | [] => .nil
  | (_, e) :: ms => .cons (.prod (.of_ord _) (Element.lawfulAt e)) (Json.lawfulAt_members ms)
termination_by structural ms => ms

end

instance : Std.TransOrd Element := LawfulAt.transCmp Element.lawfulAt
instance : Std.LawfulEqOrd Element := LawfulAt.lawfulEqCmp Element.lawfulAt
instance : Std.TransOrd Value := LawfulAt.transCmp Value.lawfulAt
instance : Std.LawfulEqOrd Value := LawfulAt.lawfulEqCmp Value.lawfulAt
instance : Std.TransOrd Json := LawfulAt.transCmp Json.lawfulAt
instance : Std.LawfulEqOrd Json := LawfulAt.lawfulEqCmp Json.lawfulAt
instance : Std.TransOrd Response := LawfulAt.transCmp Response.lawfulAt
instance : Std.LawfulEqOrd Response := LawfulAt.lawfulEqCmp Response.lawfulAt
instance : Std.TransOrd Handle := LawfulAt.transCmp Handle.lawfulAt
instance : Std.LawfulEqOrd Handle := LawfulAt.lawfulEqCmp Handle.lawfulAt

/-- Comparing decides equality. -/
instance : DecidableEq Element := fun _ _ =>
  decidable_of_iff _ (Std.LawfulEqOrd.compare_eq_iff_eq (α := Element))

end ReturnFlow

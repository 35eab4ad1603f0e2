import ReturnFlow.Depth

/-!
The backward slice of a method body: the statements that can influence what it returns or throws.

The slice starts from the statements of the exits that hand out a value. A variable that a
statement of the slice reads is followed: every statement that reads or writes it joins the slice,
on whatever branch it lies. Variables with an ignored name are not followed.

`Slice.grow` takes pending statements until none is left outside the slice; each one covers code
that was not covered before, so it comes to an end. `reduce` keeps the covered instructions.
-/

namespace ReturnFlow

/-- A statement, from its first to its last instruction. -/
structure Span where
  start : Nat
  stop : Nat
  deriving DecidableEq, Repr

def Span.covers (s : Span) (i : Nat) : Bool :=
  s.start ≤ i && i ≤ s.stop

/-- A variable that was followed, and the end of the statement that read it first. -/
structure Follow where
  slot : Nat
  stop : Nat
  deriving DecidableEq, Repr

/-- A slice under construction: the statements taken and the variables followed, the latest first,
and the ends of statements still to be looked at. -/
structure Slice where
  spans : List Span
  followed : List Follow
  pending : List Nat
  deriving DecidableEq, Repr

/-- A method body with the depths of its instructions and the variable names to ignore. -/
structure Body where
  code : List Instruction
  depths : StackDepths
  ignored : List String

namespace Body

/-- The slot of a load, unless its variable is ignored. -/
def readSlot? (b : Body) (i : Instruction) : Option Nat :=
  match i.op with
  | .load slot _ none => some slot
  | .load slot _ (some name) => if name ∈ b.ignored then none else some slot
  | _ => none

/-- The slots that a statement reads, in order. -/
def readSlots (b : Body) (s : Span) : List Nat :=
  ((b.code.drop s.start).take (s.stop + 1 - s.start)).filterMap b.readSlot?

/-- The exits that are entered with a value on the stack, in order. -/
def exits (b : Body) : List Nat :=
  b.code.zipIdx.filterMap fun (i, index) =>
    if i.isExit && 0 < b.depths.before index then some index else none

/-- The ends of the statements that load or store a slot, in order of those instructions. -/
def uses (b : Body) (slot : Nat) : List Nat :=
  b.code.zipIdx.filterMap fun (i, index) =>
    if i.slot? = some slot then b.depths.stop? index else none

end Body

namespace Slice

def covers (s : Slice) (i : Nat) : Bool :=
  s.spans.any (·.covers i)

/-- The slots that were followed. -/
def slots (s : Slice) : List Nat :=
  s.followed.map Follow.slot

/-- The exits are looked at first, the last of them at the front. -/
def init (b : Body) : Slice where
  spans := []
  followed := []
  pending := b.exits.reverse

/-- Takes the statement that ends at `stop` and follows the variables that it is the first to
read; `rest` is what was pending besides. -/
def visit (b : Body) (s : Slice) (stop : Nat) (rest : List Nat) : Slice :=
  let span : Span := ⟨b.depths.start stop, stop⟩
  let spans := span :: s.spans
  let fresh := ((b.readSlots span).filter fun slot => !s.slots.contains slot).eraseDups
  let stops := (fresh.flatMap b.uses).filter fun i => !spans.any (·.covers i)
  { spans := spans
    followed := (fresh.map fun slot => ⟨slot, stop⟩).reverse ++ s.followed
    pending := stops.reverse ++ rest }

/-- The instructions of the body that are not covered yet. -/
def uncovered (b : Body) (s : Slice) : Nat :=
  (List.range b.code.length).countP fun i => !s.covers i

/-- Has an index nothing to add, being covered or outside the code? -/
def isSettled (b : Body) (s : Slice) (i : Nat) : Bool :=
  s.covers i || b.code.length ≤ i

theorem uncovered_visit_lt (b : Body) (s : Slice) {stop : Nat} (rest : List Nat)
    (h : s.isSettled b stop = false) : (s.visit b stop rest).uncovered b < s.uncovered b := by
  simp only [isSettled, Bool.or_eq_false_iff, decide_eq_false_iff_not, Nat.not_le] at h
  obtain ⟨hfree, hlt⟩ := h
  have hmono : ∀ i, s.covers i = true → (s.visit b stop rest).covers i = true := by
    intro i hi
    simp only [covers, visit, List.any_cons, Bool.or_eq_true]
    exact Or.inr hi
  have hstop : (s.visit b stop rest).covers stop = true := by
    have hle : b.depths.start stop ≤ stop := b.depths.start_le stop
    simp [covers, visit, Span.covers, hle]
  obtain ⟨pre, post, hsplit⟩ := List.append_of_mem (List.mem_range.2 hlt)
  have hle : ∀ l : List Nat, l.countP (fun i => !(s.visit b stop rest).covers i) ≤
      l.countP fun i => !s.covers i := by
    intro l
    apply List.countP_mono_left
    intro i _ hi
    cases hc : s.covers i with
    | false => rfl
    | true => simp [hmono i hc] at hi
  simp only [uncovered, hsplit, List.countP_append, List.countP_cons, hstop, hfree]
  have h1 := hle pre
  have h2 := hle post
  simp only [Bool.not_true, Bool.not_false, if_true]
  simp only [Bool.false_eq_true, if_false]
  omega

/-- Takes pending statements until all of them are settled. -/
def grow (b : Body) (s : Slice) : Slice :=
  match h : s.pending.dropWhile (s.isSettled b) with
  | [] => { s with pending := [] }
  | stop :: rest =>
    have : (s.visit b stop rest).uncovered b < s.uncovered b := by
      apply uncovered_visit_lt
      have hhead := List.head_dropWhile_not (s.isSettled b) (l := s.pending) (by simp [h])
      simpa [h] using hhead
    grow b (s.visit b stop rest)
termination_by s.uncovered b

/-- The number of statements taken. -/
def iterations (s : Slice) : Nat := s.spans.length

/-- The covered positions of a body of the given size, ascending. -/
def positions (s : Slice) (size : Nat) : List Nat :=
  (List.range size).filter s.covers

/-- The covered instructions of a body, in order. -/
def kept (s : Slice) (code : List Instruction) : List Instruction :=
  (code.zipIdx.filter fun (_, index) => s.covers index).map (·.1)

end Slice

/-- The finished slice of a body. -/
def Body.slice (b : Body) : Slice :=
  (Slice.init b).grow b

/-- A method body reduced to its slice. -/
structure Reduction where
  slice : Slice
  /-- The number of instructions before the reduction. -/
  size : Nat
  code : List Instruction

/-- The positions of the instructions that were kept. -/
def Reduction.positions (r : Reduction) : List Nat :=
  r.slice.positions r.size

/-- Keeps the instructions that can influence what the code returns or throws. -/
def reduce (ignored : List String) (code : List Instruction) : Except FlowError Reduction :=
  (StackDepths.compute code).map fun depths =>
    let slice := Body.slice ⟨code, depths, ignored⟩
    { slice := slice, size := code.length, code := slice.kept code }

end ReturnFlow

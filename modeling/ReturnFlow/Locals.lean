import ReturnFlow.Element

/-!
The local variables of a frame: what is bound to each slot.
-/

namespace ReturnFlow

/-- Slots with their elements, each slot at most once. -/
structure Locals where
  entries : List (Nat × Element)

namespace Locals

def empty : Locals := ⟨[]⟩

def get? (l : Locals) (slot : Nat) : Option Element :=
  l.entries.lookup slot

/-- Binds a slot, in place of what it was bound to. -/
def bind (l : Locals) (slot : Nat) (e : Element) : Locals :=
  ⟨(slot, e) :: l.entries.filter fun entry => entry.1 ≠ slot⟩

def size (l : Locals) : Nat := l.entries.length

/-- Binds slots to elements in order, as far as both lists go. -/
def bindAll (l : Locals) (slots : List Nat) (es : List Element) : Locals :=
  (slots.zip es).foldl (fun l entry => l.bind entry.1 entry.2) l

/-- The variables at the entry of a method: the receiver of an instance method in slot 0, then the
arguments. -/
def ofCall (m : Method) (receiver : Option Element) (args : List Element) : Locals :=
  let this :=
    if m.isStatic then empty
    else empty.bind 0 (receiver.getD (.unknown (Descriptor.ofClass m.owner)))
  this.bindAll m.paramSlots args

/-- The variables at the entry of a method of whose call nothing is known. -/
def ofUnknown (m : Method) : Locals :=
  ofCall m none (m.params.map .unknown)

end Locals

end ReturnFlow

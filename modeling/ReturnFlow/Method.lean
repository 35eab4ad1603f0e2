import ReturnFlow.Descriptor

/-!
Methods as call targets: owner class, name, types, and whether a call needs a receiver.

Slots and depths are numbers without a bound. Slots that are kept in 16 bits are the same as long as
the receiver and the parameters take at most 65535 of them (`Method.exists_slotsFrom16?_iff`), and a
change of the depth that is kept in 32 bits is the same as long as a call takes fewer than 2 ^ 31
operands (`Method.toInt_stackDelta32`). Beyond that they may wrap around there, and do not here.
-/

namespace ReturnFlow

/-- The identity of a method. -/
structure Method where
  owner : String
  name : String
  returnType : String
  isStatic : Bool
  params : List String
  deriving DecidableEq, Repr

namespace Method

/-- Owner, name, return type, static or not, parameters: the first difference decides. -/
def cmp (a b : Method) : Ordering :=
  (compare a.owner b.owner).then <|
  (compare a.name b.name).then <|
  (compare a.returnType b.returnType).then <|
  (compare a.isStatic b.isStatic).then <|
  compare a.params b.params

instance : Ord Method := ⟨cmp⟩

/-- A method whose owner may be given as a class name or as a descriptor. -/
def of (owner name returnType : String) (isStatic : Bool) (params : List String) : Method where
  owner := Descriptor.ownerName owner
  name := name
  returnType := returnType
  isStatic := isStatic
  params := params

/-- A method with its types read from a descriptor. -/
def ofDescriptor (owner name descriptor : String) (isStatic : Bool) :
    Except DescriptorError Method :=
  (Descriptor.readMethod descriptor).map fun (params, returns) =>
    of owner name returns isStatic params

def isOwnedBy (m : Method) (owner : String) : Bool := m.owner = owner

def arity (m : Method) : Nat := m.params.length

def returnsValue (m : Method) : Bool := !Descriptor.isVoid m.returnType

def isConstructor (m : Method) : Bool := m.name = "<init>"

/-- The operands that a call takes from the stack: the arguments, and a receiver unless static. -/
def operands (m : Method) : Nat :=
  m.arity + if m.isStatic then 0 else 1

/-- The change of the stack depth by a call. -/
def stackDelta (m : Method) : Int :=
  (if m.returnsValue then 1 else 0) - (m.operands : Int)

/-- The slots of the parameters in a frame whose next free slot is given. -/
def slotsFrom : Nat → List String → List Nat
  | _, [] => []
  | slot, type :: types => slot :: slotsFrom (slot + if Descriptor.isWide type then 2 else 1) types

/-- The slots of the parameters; the receiver of an instance method takes slot 0. -/
def paramSlots (m : Method) : List Nat :=
  slotsFrom (if m.isStatic then 0 else 1) m.params

def descriptor (m : Method) : String :=
  Descriptor.ofMethod m.params m.returnType

/-- The method as shown in messages, such as `static a/B#m(I)V`. -/
def display (m : Method) : String :=
  (if m.isStatic then "static " else "") ++ m.owner ++ "#" ++ m.name ++ m.descriptor

end Method

end ReturnFlow

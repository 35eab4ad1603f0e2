/-!
Type descriptors: how classes, fields and methods name their types.

A field type is a primitive letter, or a class name between `L` and `;`, after any number of `[`
for array dimensions. A method descriptor is a row of field types in parentheses followed by the
return type, which may also be `V`. `Descriptor.readField` and `Descriptor.readMethod` accept
exactly these texts; everything else in the library carries types as text and does not ask whether
they are well formed.
-/

namespace ReturnFlow

/-- Why a descriptor was refused. -/
inductive DescriptorError where
  | empty
  | invalidType (text : String)
  | invalidMethod (text : String)
  deriving DecidableEq, Repr

def DescriptorError.message : DescriptorError → String
  | .empty => "empty type descriptor"
  | .invalidType text => "invalid type descriptor '" ++ text ++ "'"
  | .invalidMethod text => "invalid method descriptor '" ++ text ++ "'"

namespace Descriptor

/-! ## Well-known types -/

def void : String := "V"
def int : String := "I"
def object : String := "Ljava/lang/Object;"
def string : String := "Ljava/lang/String;"
def throwable : String := "Ljava/lang/Throwable;"

/-- The descriptor of a class. -/
def ofClass (name : String) : String :=
  "L" ++ name ++ ";"

/-- The class that a descriptor of the form `Lname;` names. -/
def className? (type : String) : Option String :=
  match type.toList with
  | 'L' :: cs =>
    if cs.getLast? = some ';' then some (String.ofList cs.dropLast) else none
  | _ => none

/-- The class name of an owner, which may be given as a name or as a descriptor. -/
def ownerName (owner : String) : String :=
  (className? owner).getD owner

/-- The rest of a text that begins with the given characters. -/
def after? : List Char → List Char → Option (List Char)
  | [], cs => some cs
  | _ :: _, [] => none
  | p :: ps, c :: cs => if p = c then after? ps cs else none

/-- The class name inside the `javax` or the `jakarta` namespace; the two are treated alike. -/
def apiName? (name : String) : Option String :=
  let inside (space : String) := after? space.toList name.toList
  (inside "javax/" <|> inside "jakarta/").map String.ofList

def isVoid (type : String) : Bool := type = void

/-- Types that take two slots of a frame. -/
def isWide (type : String) : Bool := type = "J" || type = "D"

/-- The primitive type that a box class wraps. -/
def unboxed? : String → Option String
  | "Ljava/lang/Boolean;" => some "Z"
  | "Ljava/lang/Byte;" => some "B"
  | "Ljava/lang/Character;" => some "C"
  | "Ljava/lang/Short;" => some "S"
  | "Ljava/lang/Integer;" => some "I"
  | "Ljava/lang/Long;" => some "J"
  | "Ljava/lang/Float;" => some "F"
  | "Ljava/lang/Double;" => some "D"
  | _ => none

/-! ## Reading -/

/-- The letters of the primitive types. -/
def isPrimitive (c : Char) : Bool :=
  c ∈ ['Z', 'B', 'C', 'S', 'I', 'J', 'F', 'D']

/-- Splits one field type off the front of a text. -/
def splitField? : List Char → Option (List Char × List Char)
  | [] => none
  | c :: cs =>
    if c = '[' then
      (splitField? cs).map fun (type, rest) => ('[' :: type, rest)
    else if isPrimitive c then some ([c], cs)
    else if c = 'L' then
      let name := cs.takeWhile (· ≠ ';')
      match cs.dropWhile (· ≠ ';') with
      | _ :: rest => if name = [] then none else some ('L' :: name ++ [';'], rest)
      | [] => none
    else none

theorem length_lt_of_splitField? {cs type rest : List Char}
    (h : splitField? cs = some (type, rest)) : rest.length < cs.length := by
  induction cs generalizing type rest with
  | nil => simp [splitField?] at h
  | cons c cs ih =>
    simp only [splitField?] at h
    split at h
    · obtain ⟨⟨t, r⟩, hs, he⟩ := Option.map_eq_some_iff.1 h
      cases he
      exact Nat.lt_succ_of_lt (ih hs)
    · split at h
      · cases h
        exact Nat.lt_succ_self _
      · split at h
        · split at h
          · next d r hd =>
            split at h
            · cases h
            · cases h
              have hle : (cs.dropWhile (· ≠ ';')).length ≤ cs.length :=
                (List.dropWhile_sublist _).length_le
              rw [hd] at hle
              simp only [List.length_cons] at hle ⊢
              omega
          · cases h
        · cases h

/-- Reads a row of field types to the end of the text. -/
def splitFields? (cs : List Char) : Option (List String) :=
  match h : splitField? cs with
  | none => if cs = [] then some [] else none
  | some (type, rest) =>
    have := length_lt_of_splitField? h
    (splitFields? rest).map (String.ofList type :: ·)
termination_by cs.length

/-- Is the text one field type? -/
def isField (cs : List Char) : Bool :=
  match splitField? cs with
  | some (_, rest) => rest = []
  | none => false

/-- Reads a text as one field type. -/
def readField (text : String) : Except DescriptorError String :=
  if text = "" then .error .empty
  else if isField text.toList then .ok text
  else .error (.invalidType text)

/-- The parameter types and the return type of a method descriptor. -/
def splitMethod? : List Char → Option (List String × String)
  | '(' :: cs =>
    match splitFields? (cs.takeWhile (· ≠ ')')), cs.dropWhile (· ≠ ')') with
    | some params, _ :: returns =>
      if String.ofList returns = void || isField returns then
        some (params, String.ofList returns)
      else none
    | _, _ => none
  | _ => none

/-- Reads a text as a method descriptor. -/
def readMethod (text : String) : Except DescriptorError (List String × String) :=
  match splitMethod? text.toList with
  | some types => .ok types
  | none => .error (.invalidMethod text)

/-- Writes a method descriptor. -/
def ofMethod (params : List String) (returns : String) : String :=
  "(" ++ String.join params ++ ")" ++ returns

end Descriptor

end ReturnFlow

import ReturnFlow.Proofs.FieldType

/-!
Method descriptors, and how they are read byte by byte.

* `Bytes.readMethod?`: a reader that finds the first closing parenthesis among the bytes of a text,
  reads types from offset 1 on until it gets there, and cuts the return type off after it. A type
  that begins before the parenthesis may end after it, which is refused.
* `Bytes.readParams?_append`: between two edges of characters the reader of parameters finds what
  `Descriptor.splitFields?` finds in the text between them, whatever comes after it.
* `Bytes.readMethod?_eq`: so it reads what `Descriptor.readMethod` reads, and never cuts a text
  inside a character.
-/

namespace ReturnFlow

namespace Descriptor

namespace Bytes

/-! ## The reader -/

theorem lt_of_typeEnd? {text : String} {pos stop : Nat}
    (h : typeEnd? text pos = some (some stop)) : pos < stop := by
  unfold typeEnd? at h
  cases hbyte : (bytes text)[pos]? with
  | none =>
    rw [hbyte] at h
    cases h
  | some tag =>
    rw [hbyte, Option.elim_some] at h
    split at h
    · cases h
      exact Nat.lt_succ_self pos
    · split at h
      · obtain ⟨rest, -, hstop⟩ := Option.map_eq_some_iff.1 h
        obtain ⟨offset, -, hstop⟩ := Option.bind_eq_some_iff.1 hstop
        split at hstop
        · cases hstop
          omega
        · cases hstop
      · cases h

/-- A type that is read takes at least one byte. -/
theorem lt_of_readType? {text type : String} {start stop : Nat}
    (h : readType? text start = some (.ok (type, stop))) : start < stop := by
  obtain ⟨found, hend, hread⟩ := Option.bind_eq_some_iff.1 h
  cases found with
  | none =>
    obtain ⟨rest, -, hread⟩ := Option.map_eq_some_iff.1 hread
    cases hread
  | some found =>
    obtain ⟨part, -, hread⟩ := Option.map_eq_some_iff.1 hread
    cases hread
    exact (Nat.le_add_right start _).trans_lt (lt_of_typeEnd? hend)

/-- Reads types from an offset on until it reaches the given one, which no type may cross. -/
def readParams? (text : String) (close pos : Nat) : Option (Option (List String)) :=
  if pos < close then
    match h : readType? text pos with
    | none => none
    | some (.error _) => some none
    | some (.ok (param, next)) =>
      have := lt_of_readType? h
      if next ≤ close then
        (readParams? text close next).map fun params => params.map (param :: ·)
      else some none
  else some (some [])
termination_by close - pos

/-- Reads a text as a method descriptor. There is no answer if the text is cut inside a
character. -/
def readMethod? (text : String) : Option (Except DescriptorError (List String × String)) :=
  let invalid : DescriptorError := .invalidMethod text
  ((bytes text).findIdx? (· = ')'.toUInt8)).elim (some (.error invalid)) fun close =>
    if (bytes text).head? = some '('.toUInt8 then
      (readParams? text close 1).bind fun params =>
        params.elim (some (.error invalid)) fun params =>
          (cut? text (close + 1) text.utf8ByteSize).bind fun returns =>
            if returns = void then some (.ok (params, returns))
            else
              (readField? returns).map fun read =>
                (read.mapError fun _ => invalid).map fun _ => (params, returns)
    else some (.error invalid)

/-! ## Parameters -/

theorem readParams?_of_le {text : String} {close pos : Nat} (h : close ≤ pos) :
    readParams? text close pos = some (some []) := by
  rw [readParams?, if_neg (Nat.not_lt.2 h)]

theorem readParams?_of_error {text : String} {close pos : Nat} {e : DescriptorError}
    (hpos : pos < close) (h : readType? text pos = some (.error e)) :
    readParams? text close pos = some none := by
  rw [readParams?, if_pos hpos]
  split
  · next hread => cases hread.symm.trans h
  · rfl
  · next hread => cases hread.symm.trans h

theorem readParams?_of_ok {text param : String} {close pos next : Nat} (hpos : pos < close)
    (h : readType? text pos = some (.ok (param, next))) :
    readParams? text close pos =
      if next ≤ close then
        (readParams? text close next).map fun params => params.map (param :: ·)
      else some none := by
  rw [readParams?, if_pos hpos]
  split
  · next hread => cases hread.symm.trans h
  · next hread => cases hread.symm.trans h
  · next hread =>
    cases hread.symm.trans h
    rfl

/-- A type that is found in a text but not in a part at its front ends after that part. -/
theorem lt_of_splitField?_append {cs back type rest : List Char} (hnone : splitField? cs = none)
    (h : splitField? (cs ++ back) = some (type, rest)) :
    (String.ofList cs).utf8ByteSize < (String.ofList type).utf8ByteSize := by
  obtain ⟨htype, hsplit⟩ := splitField?_eq_some_iff.1 h
  rcases List.append_eq_append_iff.1 hsplit with ⟨more, rfl, -⟩ | ⟨more, rfl, -⟩
  · have hmore : more ≠ [] := by
      rintro rfl
      rw [List.append_nil] at htype
      have hsome := htype.splitField?_append []
      rw [List.append_nil, hnone] at hsome
      cases hsome
    rw [String.ofList_append, String.utf8ByteSize_append]
    exact Nat.lt_add_of_pos_right (utf8ByteSize_ofList_pos hmore)
  · rw [htype.splitField?_append more] at hnone
    cases hnone

/-- Between two edges of characters, the types that are read are those that the text between them is
split into. -/
theorem readParams?_append (front : String) (cs back : List Char) :
    readParams? (front ++ String.ofList (cs ++ back))
        (front.utf8ByteSize + (String.ofList cs).utf8ByteSize) front.utf8ByteSize =
      some (splitFields? cs) := by
  fun_induction splitFields? cs generalizing front with
  | case1 hsplit => exact readParams?_of_le (Nat.le_refl _)
  | case2 cs hsplit hne =>
    have hpos := Nat.lt_add_of_pos_right (n := front.utf8ByteSize) (utf8ByteSize_ofList_pos hne)
    have hread := readType?_append front (cs ++ back)
    cases hfound : splitField? (cs ++ back) with
    | none =>
      rw [hfound] at hread
      exact readParams?_of_error hpos hread
    | some found =>
      -- the type that begins here goes on after the end
      have hlt := lt_of_splitField?_append hsplit hfound
      rw [hfound] at hread
      rw [readParams?_of_ok hpos hread, if_neg]
      omega
  | case3 cs type rest hsplit hlt ih =>
    obtain ⟨htype, rfl⟩ := splitField?_eq_some_iff.1 hsplit
    have hne : type ≠ [] := by
      rintro rfl
      cases htype
    have hpos : front.utf8ByteSize <
        front.utf8ByteSize + (String.ofList (type ++ rest)).utf8ByteSize :=
      Nat.lt_add_of_pos_right (utf8ByteSize_ofList_pos (List.append_ne_nil_of_left_ne_nil hne rest))
    have hread := readType?_append front (type ++ (rest ++ back))
    rw [htype.splitField?_append] at hread
    have hclose : front.utf8ByteSize + (String.ofList type).utf8ByteSize ≤
        front.utf8ByteSize + (String.ofList (type ++ rest)).utf8ByteSize := by
      rw [String.ofList_append, String.utf8ByteSize_append]
      omega
    have hnext := ih (front ++ String.ofList type)
    rw [String.utf8ByteSize_append, String.append_assoc, ← String.ofList_append, Nat.add_assoc,
      ← String.utf8ByteSize_append, ← String.ofList_append] at hnext
    rw [List.append_assoc, readParams?_of_ok hpos hread, if_pos hclose, hnext]
    rfl

end Bytes

/-! ## Method descriptors -/

theorem splitMethod?_append {cs : List Char} (hcs : ')' ∉ cs) (back : List Char) :
    splitMethod? ('(' :: (cs ++ ')' :: back)) =
      (splitFields? cs).bind fun params =>
        if String.ofList back = void || isField back then some (params, String.ofList back)
        else none := by
  obtain ⟨htake, hdrop⟩ := takeWhile_dropWhile_eq_iff.2 ⟨rfl, hcs, rfl⟩
  rw [splitMethod?, htake, hdrop]
  cases splitFields? cs with
  | none => rfl
  | some params => rfl

theorem splitMethod?_of_ne {c : Char} (hc : c ≠ '(') (cs : List Char) :
    splitMethod? (c :: cs) = none := by
  unfold splitMethod?
  split
  · next heq =>
    cases heq
    exact absurd rfl hc
  · rfl

theorem splitMethod?_eq_none {cs : List Char} (h : ')' ∉ cs) : splitMethod? cs = none := by
  rw [Option.eq_none_iff_forall_ne_some]
  rintro ⟨params, returns⟩ hsome
  obtain ⟨-, rfl⟩ := splitMethod?_eq_some_iff.1 hsome
  rw [toList_ofMethod] at h
  simp at h

theorem mapError_readField (text : String) {ε : Type} (e : ε) {α : Type} (a : α) :
    ((readField text).mapError fun _ => e).map (fun _ => a) =
      if isField text.toList then .ok a else .error e := by
  unfold readField
  split
  · next hempty =>
    subst hempty
    rfl
  · split <;> rfl

namespace Bytes

theorem head?_bytes_eq_iff {mark : Char} (hmark : mark.utf8Size = 1) (c : Char) (cs : List Char) :
    (bytes (String.ofList (c :: cs))).head? = some mark.toUInt8 ↔ c = mark := by
  obtain ⟨tag, htag, htags⟩ := head?_bytes (c := c) cs
  rw [htag, Option.some.injEq, htags mark hmark]

/-- What stands after the first closing parenthesis is cut off as it is. -/
theorem cut?_returns (cs back : List Char) :
    cut? (String.ofList (cs ++ ')' :: back)) ((String.ofList cs).utf8ByteSize + 1)
      (String.ofList (cs ++ ')' :: back)).utf8ByteSize = some (String.ofList back) := by
  have hcut := cut?_append_right (String.ofList (cs ++ [')'])) (String.ofList back)
  have hsize : (String.ofList (cs ++ [')'])).utf8ByteSize =
      (String.ofList cs).utf8ByteSize + 1 := by
    rw [String.ofList_append, String.utf8ByteSize_append]
    rfl
  rwa [hsize, ← String.ofList_append, List.append_assoc] at hcut

/-- After an opening parenthesis, the parameters are what stands before the first closing one. -/
theorem readParams?_parens (cs back : List Char) :
    readParams? (String.ofList ('(' :: (cs ++ ')' :: back)))
      (String.ofList ('(' :: cs)).utf8ByteSize 1 = some (splitFields? cs) := by
  have hopen (l : List Char) : String.ofList ('(' :: l) = "(" ++ String.ofList l := by
    rw [← List.singleton_append, String.ofList_append]
  rw [hopen, hopen, String.utf8ByteSize_append]
  exact readParams?_append "(" cs (')' :: back)

/-- **No descriptor is cut inside a character**, and what is read by bytes is what is read. -/
theorem readMethod?_eq (text : String) : readMethod? text = some (readMethod text) := by
  have hclose : ')'.utf8Size = 1 := by decide
  have hopen : '('.utf8Size = 1 := by decide
  obtain ⟨chars, rfl⟩ : ∃ chars, text = String.ofList chars := ⟨_, String.ofList_toList.symm⟩
  rw [readMethod?, readMethod, String.toList_ofList]
  by_cases hmem : ')' ∈ chars
  · obtain ⟨cs, back, rfl, hcs⟩ := List.eq_append_cons_of_mem hmem
    rw [findIdx?_bytes hclose hcs back, Option.elim_some, cut?_returns]
    cases cs with
    | nil =>
      rw [List.nil_append, if_neg (mt (head?_bytes_eq_iff hopen ')' back).1 (by decide)),
        splitMethod?_of_ne (by decide)]
    | cons c cs =>
      have hhead := head?_bytes_eq_iff hopen c (cs ++ ')' :: back)
      by_cases hc : c = '('
      · subst hc
        rw [List.cons_append, if_pos (hhead.2 rfl), readParams?_parens, Option.bind_some,
          splitMethod?_append (fun h => hcs (List.mem_cons_of_mem _ h))]
        cases splitFields? cs with
        | none => rfl
        | some params =>
          rw [Option.elim_some, Option.bind_some, Option.bind_some, readField?_eq, Option.map_some,
            mapError_readField, String.toList_ofList]
          by_cases hvoid : String.ofList back = void
          · simp [hvoid]
          · cases isField back <;> simp [hvoid]
      · rw [List.cons_append, if_neg (mt hhead.1 hc), splitMethod?_of_ne hc]
  · rw [findIdx?_bytes_eq_none hclose hmem, splitMethod?_eq_none hmem]
    rfl

end Bytes

end Descriptor

open Descriptor

/-- **Reading and writing method descriptors are inverse to each other.** A text is read as
parameters and a return type exactly if these can make up a descriptor and the text is what is
written from them; a method with the types that are read has the text as its descriptor. Every other
text is refused as a whole. Reading it byte by byte, with the first closing parenthesis and the
types found by their offsets, comes to the same result and never cuts it inside a character. -/
theorem readMethod_iff_ofMethod (text : String) :
    (∀ params returns, readMethod text = .ok (params, returns) ↔
      IsSignature params returns ∧ text = ofMethod params returns) ∧
    (∀ types owner name isStatic, readMethod text = .ok types →
      ∃ m, Method.ofDescriptor owner name text isStatic = .ok m ∧ m.descriptor = text) ∧
    ((¬∃ types, readMethod text = .ok types) →
      readMethod text = .error (.invalidMethod text) ∧
      ∀ owner name isStatic,
        Method.ofDescriptor owner name text isStatic = .error (.invalidMethod text)) ∧
    Bytes.readMethod? text = some (readMethod text) := by
  refine ⟨fun _ _ => readMethod_eq_ok_iff, fun types owner name isStatic h => ?_, fun h => ?_,
    Bytes.readMethod?_eq text⟩
  · obtain ⟨params, returns⟩ := types
    refine ⟨.of owner name returns isStatic params, ?_, (readMethod_eq_ok_iff.1 h).2.symm⟩
    rw [Method.ofDescriptor, h]
    rfl
  · rcases readMethod_cases text with ⟨types, hok⟩ | herror
    · exact absurd ⟨types, hok⟩ h
    · refine ⟨herror, fun owner name isStatic => ?_⟩
      rw [Method.ofDescriptor, herror]
      rfl

/-- Class names may hold the marks of a descriptor, but those of the parameters no closing
parenthesis: read byte by byte, the type that it stands in goes on after it. -/
theorem readMethod_iff_ofMethod_marks :
    let params := ["[[La(I[;", "D", "Lñ/é;"]
    let text := "([[La(I[;DLñ/é;)Lb)c;"
    (readMethod text = .ok (params, "Lb)c;") ∧ IsSignature params "Lb)c;" ∧
      ∃ m, Method.ofDescriptor "shop/Shop" "plus" text true = .ok m ∧ m.descriptor = text) ∧
    (¬∃ types, readMethod "(Lb)c;)V" = .ok types) ∧
      Method.ofDescriptor "shop/Shop" "plus" "(Lb)c;)V" true =
        .error (.invalidMethod "(Lb)c;)V") ∧
      Bytes.readMethod? "(Lb)c;)V" = some (.error (.invalidMethod "(Lb)c;)V")) := by
  intro params text
  have hsignature : IsSignature params "Lb)c;" := ⟨by decide, by decide⟩
  have hread := ((readMethod_iff_ofMethod text).1 params "Lb)c;").2 ⟨hsignature, by decide⟩
  have herror : readMethod "(Lb)c;)V" = .error (.invalidMethod "(Lb)c;)V") := by cbv
  have hrefused : ¬∃ types, readMethod "(Lb)c;)V" = .ok types := by
    rw [herror]
    rintro ⟨types, h⟩
    cases h
  obtain ⟨-, -, hother, hbytes⟩ := readMethod_iff_ofMethod "(Lb)c;)V"
  rw [herror] at hbytes
  exact ⟨⟨hread, hsignature, (readMethod_iff_ofMethod text).2.1 _ _ _ _ hread⟩, hrefused,
    (hother hrefused).2 _ _ _, hbytes⟩

end ReturnFlow

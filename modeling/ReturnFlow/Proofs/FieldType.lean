import ReturnFlow.Proofs.Signature

/-!
Field types as texts, and how they are read byte by byte.

* `Descriptor.IsFieldText`: the texts that the grammar of field types generates, written out.
* `Bytes.readField?`: a reader that looks at the bytes of a text and cuts it at byte offsets. A cut
  inside a character would fail (`Bytes.cut?`).
* `Bytes.toUInt8_mem_encode_iff`: the byte of an ASCII character occurs in the encoding of no other
  character. So the offsets that the reader finds are edges of characters, and it reads what
  `Descriptor.readField` reads (`Bytes.readField?_eq`).
-/

namespace ReturnFlow.Descriptor

/-! ## The grammar -/

theorem IsFieldType.replicate {type : List Char} (h : IsFieldType type) (dims : Nat) :
    IsFieldType (List.replicate dims '[' ++ type) := by
  induction dims with
  | zero => exact h
  | succ dims ih =>
    rw [List.replicate_succ, List.cons_append]
    exact .array ih

/-- Any number of brackets, and then a primitive letter, or a class name between `L` and `;` that is
not empty and has no `;` of its own. -/
def IsFieldText (text : String) : Prop :=
  ∃ dims, (∃ c ∈ ['Z', 'B', 'C', 'S', 'I', 'J', 'F', 'D'],
      text.toList = List.replicate dims '[' ++ [c]) ∨
    ∃ name, name ≠ [] ∧ ';' ∉ name ∧
      text.toList = List.replicate dims '[' ++ 'L' :: name ++ [';']

theorem isFieldText_iff {text : String} : IsFieldText text ↔ IsFieldType text.toList := by
  unfold IsFieldText
  generalize text.toList = cs
  constructor
  · rintro ⟨dims, ⟨c, hc, rfl⟩ | ⟨name, hname, hend, rfl⟩⟩
    · exact (IsFieldType.primitive (decide_eq_true hc)).replicate dims
    · rw [List.append_assoc]
      exact (IsFieldType.ofClass hname hend).replicate dims
  · intro h
    induction h with
    | primitive hc => exact ⟨0, Or.inl ⟨_, of_decide_eq_true hc, rfl⟩⟩
    | ofClass hname hend => exact ⟨0, Or.inr ⟨_, hname, hend, rfl⟩⟩
    | array _ ih =>
      obtain ⟨dims, ⟨c, hc, rfl⟩ | ⟨name, hname, hend, rfl⟩⟩ := ih
      · exact ⟨dims + 1, Or.inl ⟨c, hc, rfl⟩⟩
      · exact ⟨dims + 1, Or.inr ⟨name, hname, hend, rfl⟩⟩

theorem splitField?_replicate (dims : Nat) (cs : List Char) :
    splitField? (List.replicate dims '[' ++ cs) =
      (splitField? cs).map fun found => (List.replicate dims '[' ++ found.1, found.2) := by
  induction dims with
  | zero => simp
  | succ dims ih =>
    rw [List.replicate_succ, List.cons_append, splitField?, if_pos rfl, ih, Option.map_map]
    rfl

/-- A text begins with some number of brackets. -/
theorem exists_dims (cs : List Char) :
    ∃ dims rest, cs = List.replicate dims '[' ++ rest ∧ rest.head? ≠ some '[' := by
  induction cs with
  | nil => exact ⟨0, [], rfl, nofun⟩
  | cons c cs ih =>
    by_cases hc : c = '['
    · obtain ⟨dims, rest, rfl, hrest⟩ := ih
      exact ⟨dims + 1, rest, by rw [hc]; rfl, hrest⟩
    · exact ⟨0, c :: cs, rfl, by simpa using hc⟩

/-! ## Reading by bytes -/

namespace Bytes

/-- The bytes of a text. -/
def bytes (text : String) : List UInt8 := text.toByteArray.data.toList

/-- The part of a text between two offsets, which both have to be edges of characters. -/
def cut? (text : String) (start stop : Nat) : Option String :=
  if start ≤ stop ∧ (String.Pos.Raw.mk start).IsValid text ∧ (String.Pos.Raw.mk stop).IsValid text
  then String.fromUTF8? (text.toByteArray.extract start stop)
  else none

/-- The first offset from the given one on at which no bracket stands. -/
def skipDims (text : String) (start : Nat) : Nat :=
  start + (((bytes text).drop start).takeWhile (· = '['.toUInt8)).length

/-- The offset after the type that begins at the given offset without brackets, if there is one. -/
def typeEnd? (text : String) (pos : Nat) : Option (Option Nat) :=
  ((bytes text)[pos]?).elim (some none) fun tag =>
    if tag ∈ ['Z', 'B', 'C', 'S', 'I', 'J', 'F', 'D'].map Char.toUInt8 then some (some (pos + 1))
    else if tag = 'L'.toUInt8 then
      -- the offset counts from the `L`: it is 1 for an empty name
      (cut? text pos text.utf8ByteSize).map fun rest =>
        ((bytes rest).findIdx? (· = ';'.toUInt8)).bind fun offset =>
          if 1 < offset then some (pos + offset + 1) else none
    else some none

/-- Reads the type that begins at an offset, and finds the offset after it. -/
def readType? (text : String) (start : Nat) : Option (Except DescriptorError (String × Nat)) :=
  (typeEnd? text (skipDims text start)).bind fun stop =>
    stop.elim
      ((cut? text start text.utf8ByteSize).map fun rest => .error (.invalidType rest))
      fun stop => (cut? text start stop).map fun type => .ok (type, stop)

/-- Reads a text as one field type. There is no answer if the text is cut inside a character. -/
def readField? (text : String) : Option (Except DescriptorError String) :=
  if text = "" then some (.error .empty)
  else
    (readType? text 0).map fun read => read.bind fun found =>
      if found.2 = text.utf8ByteSize then .ok found.1 else .error (.invalidType text)

/-! ### Bytes of characters -/

theorem le_toNat_or (x : UInt8) {y : UInt8} (h : 128 ≤ y.toNat) : 128 ≤ (x ||| y).toNat := by
  rw [UInt8.toNat_or]
  exact h.trans Nat.right_le_or

theorem le_toNat_of_mem_encode {c : Char} {b : UInt8} (hc : c.utf8Size ≠ 1)
    (hb : b ∈ String.utf8EncodeChar c) : 128 ≤ b.toNat := by
  rcases c.utf8Size_eq with hsize | hsize | hsize | hsize
  · exact absurd hsize hc
  · rw [String.utf8EncodeChar_eq_cons_cons hsize] at hb
    simp only [List.mem_cons, List.not_mem_nil, or_false] at hb
    rcases hb with rfl | rfl <;> exact le_toNat_or _ (by decide)
  · rw [String.utf8EncodeChar_eq_cons_cons_cons hsize] at hb
    simp only [List.mem_cons, List.not_mem_nil, or_false] at hb
    rcases hb with rfl | rfl | rfl <;> exact le_toNat_or _ (by decide)
  · rw [String.utf8EncodeChar_eq_cons_cons_cons_cons hsize] at hb
    simp only [List.mem_cons, List.not_mem_nil, or_false] at hb
    rcases hb with rfl | rfl | rfl | rfl <;> exact le_toNat_or _ (by decide)

theorem toNat_toUInt8 {c : Char} (hc : c.utf8Size = 1) :
    c.toUInt8.toNat = c.toNat ∧ c.toNat < 128 := by
  rw [Char.utf8Size_eq_one_iff, UInt32.le_iff_toNat_le] at hc
  have hlt : c.toNat < 128 := Nat.lt_succ_of_le hc
  refine ⟨?_, hlt⟩
  rw [Char.toUInt8, UInt32.toNat_toUInt8]
  exact Nat.mod_eq_of_lt (show c.toNat < 256 by omega)

/-- **Marks are found by their bytes.** The byte of an ASCII character occurs in the encoding of no
other character. -/
theorem toUInt8_mem_encode_iff {mark c : Char} (hmark : mark.utf8Size = 1) :
    mark.toUInt8 ∈ String.utf8EncodeChar c ↔ c = mark := by
  obtain ⟨hbyte, hlt⟩ := toNat_toUInt8 hmark
  constructor
  · intro h
    by_cases hc : c.utf8Size = 1
    · rw [String.utf8EncodeChar_eq_singleton hc, List.mem_singleton, ← Char.toUInt8] at h
      have hsame := congrArg UInt8.toNat h
      rw [hbyte, (toNat_toUInt8 hc).1] at hsame
      exact (Char.toNat_inj.1 hsame).symm
    · -- all bytes of a longer encoding have the high bit
      have hle := le_toNat_of_mem_encode hc h
      omega
  · rintro rfl
    rw [String.utf8EncodeChar_eq_singleton hmark]
    exact List.mem_singleton_self _

/-! ### Bytes of texts -/

theorem length_bytes (text : String) : (bytes text).length = text.utf8ByteSize := rfl

theorem bytes_append (s t : String) : bytes (s ++ t) = bytes s ++ bytes t := by
  rw [bytes, String.toByteArray_append, ByteArray.data_append, Array.toList_append]
  rfl

theorem bytes_ofList (cs : List Char) :
    bytes (String.ofList cs) = cs.flatMap String.utf8EncodeChar := by
  rw [bytes, String.toByteArray_ofList]
  exact List.toList_data_toByteArray

theorem utf8ByteSize_ofList_eq_zero_iff {cs : List Char} :
    (String.ofList cs).utf8ByteSize = 0 ↔ cs = [] := by
  rw [String.utf8ByteSize_eq_zero_iff, String.ofList_eq_empty_iff]

theorem utf8ByteSize_ofList_pos {cs : List Char} (h : cs ≠ []) :
    0 < (String.ofList cs).utf8ByteSize :=
  Nat.pos_of_ne_zero fun hzero => h (utf8ByteSize_ofList_eq_zero_iff.1 hzero)

theorem utf8ByteSize_ofList_cons {mark : Char} (hmark : mark.utf8Size = 1) (cs : List Char) :
    (String.ofList (mark :: cs)).utf8ByteSize = (String.ofList cs).utf8ByteSize + 1 := by
  rw [← length_bytes, ← length_bytes, bytes_ofList, bytes_ofList, List.flatMap_cons,
    List.length_append, String.length_utf8EncodeChar, hmark, Nat.add_comm]

theorem toUInt8_mem_bytes_iff {mark : Char} (hmark : mark.utf8Size = 1) {cs : List Char} :
    mark.toUInt8 ∈ bytes (String.ofList cs) ↔ mark ∈ cs := by
  simp [bytes_ofList, toUInt8_mem_encode_iff hmark]

/-- The first byte of a text tells whether it begins with an ASCII character. -/
theorem head?_bytes {c : Char} (cs : List Char) :
    ∃ tag, (bytes (String.ofList (c :: cs))).head? = some tag ∧
      ∀ mark : Char, mark.utf8Size = 1 → (tag = mark.toUInt8 ↔ c = mark) := by
  obtain ⟨tag, more, hcode⟩ := List.exists_cons_of_ne_nil (String.utf8EncodeChar_ne_nil (c := c))
  refine ⟨tag, by rw [bytes_ofList, List.flatMap_cons, hcode]; rfl, fun mark hmark => ?_⟩
  constructor
  · rintro rfl
    rw [← toUInt8_mem_encode_iff hmark, hcode]
    exact List.mem_cons_self
  · rintro rfl
    rw [String.utf8EncodeChar_eq_singleton hmark] at hcode
    exact (List.cons.inj hcode).1.symm

theorem isValid_utf8ByteSize (s t : String) :
    (String.Pos.Raw.mk s.utf8ByteSize).IsValid (s ++ t) :=
  String.Pos.Raw.isValid_iff_exists_append.2 ⟨s, t, rfl, rfl⟩

/-- Between the edges of characters, a text is cut into its parts. -/
theorem cut?_append (front part back : String) :
    cut? (front ++ part ++ back) front.utf8ByteSize (front.utf8ByteSize + part.utf8ByteSize) =
      some part := by
  have hstart := isValid_utf8ByteSize front (part ++ back)
  have hstop := isValid_utf8ByteSize (front ++ part) back
  rw [← String.append_assoc] at hstart
  rw [String.utf8ByteSize_append] at hstop
  have hbytes : (front ++ part ++ back).toByteArray.extract front.utf8ByteSize
      (front.utf8ByteSize + part.utf8ByteSize) = part.toByteArray := by
    rw [String.append_assoc, String.toByteArray_append, String.toByteArray_append,
      ← String.size_toByteArray, ← String.size_toByteArray]
    exact (ByteArray.extract_append_size_add (i := 0)).trans (ByteArray.extract_append_eq_left rfl)
  rw [cut?, if_pos ⟨Nat.le_add_right .., hstart, hstop⟩, hbytes, String.fromUTF8?,
    dif_pos part.isValidUTF8]
  rfl

example : cut? "Lñ;" 2 4 = none := by
  decide +kernel

theorem cut?_append_right (front back : String) :
    cut? (front ++ back) front.utf8ByteSize (front ++ back).utf8ByteSize = some back := by
  have hcut := cut?_append front back ""
  rwa [String.append_empty, ← String.utf8ByteSize_append] at hcut

/-! ### The reader -/

theorem bytes_replicate (dims : Nat) :
    bytes (String.ofList (List.replicate dims '[')) = List.replicate dims '['.toUInt8 := by
  rw [bytes_ofList]
  induction dims with
  | zero => rfl
  | succ dims ih =>
    rw [List.replicate_succ, List.flatMap_cons, ih]
    rfl

theorem skipDims_append (front : String) (dims : Nat) {rest : List Char}
    (hrest : rest.head? ≠ some '[') :
    skipDims (front ++ String.ofList (List.replicate dims '[' ++ rest)) front.utf8ByteSize =
      front.utf8ByteSize + dims := by
  have hend : (bytes (String.ofList rest)).takeWhile (· = '['.toUInt8) = [] := by
    cases rest with
    | nil => rfl
    | cons c cs =>
      obtain ⟨tag, htag, hmark⟩ := head?_bytes (c := c) cs
      obtain ⟨more, hmore⟩ := List.head?_eq_some_iff.1 htag
      have hne : tag ≠ '['.toUInt8 := by
        rw [Ne, hmark '[' (by decide)]
        simpa using hrest
      rw [hmore, List.takeWhile_cons_of_neg (by simpa using hne)]
  rw [skipDims, bytes_append, List.drop_left' (length_bytes front), String.ofList_append,
    bytes_append, bytes_replicate, List.takeWhile_append_of_pos (by simp), hend]
  simp

theorem findIdx?_bytes_eq_none {mark : Char} (hmark : mark.utf8Size = 1) {cs : List Char}
    (hcs : mark ∉ cs) : (bytes (String.ofList cs)).findIdx? (· = mark.toUInt8) = none := by
  rw [List.findIdx?_eq_none_iff]
  intro b hb
  rw [decide_eq_false_iff_not]
  rintro rfl
  exact hcs ((toUInt8_mem_bytes_iff hmark).1 hb)

/-- A mark is found at the offset where the characters before it end. -/
theorem findIdx?_bytes {mark : Char} (hmark : mark.utf8Size = 1) {front : List Char}
    (hfront : mark ∉ front) (back : List Char) :
    (bytes (String.ofList (front ++ mark :: back))).findIdx? (· = mark.toUInt8) =
      some (String.ofList front).utf8ByteSize := by
  have hback : bytes (String.ofList (mark :: back)) =
      mark.toUInt8 :: bytes (String.ofList back) := by
    rw [bytes_ofList, List.flatMap_cons, String.utf8EncodeChar_eq_singleton hmark, ← bytes_ofList]
    rfl
  rw [String.ofList_append, bytes_append, List.findIdx?_append,
    findIdx?_bytes_eq_none hmark hfront, hback, List.findIdx?_cons]
  simp [length_bytes]

theorem splitField?_class_eq_none {cs : List Char}
    (h : ∀ name rest, ';' ∉ name → cs = name ++ ';' :: rest → name = []) :
    splitField? ('L' :: cs) = none := by
  rw [Option.eq_none_iff_forall_ne_some]
  rintro ⟨type, rest⟩ hsome
  obtain ⟨name, hname, hend, -, hcs⟩ := splitField?_class_iff.1 hsome
  exact hname (h name rest hend hcs)

/-- The end of a class type is found where it is split off. -/
theorem find_classEnd (pos : Nat) (cs : List Char) :
    (((bytes (String.ofList ('L' :: cs))).findIdx? (· = ';'.toUInt8)).bind fun offset =>
        if 1 < offset then some (pos + offset + 1) else none) =
      (splitField? ('L' :: cs)).map fun found =>
        pos + (String.ofList found.1).utf8ByteSize := by
  have hsemi : ';'.utf8Size = 1 := by decide
  by_cases hmem : ';' ∈ cs
  · obtain ⟨name, back, rfl, hend⟩ := List.eq_append_cons_of_mem hmem
    have hfront : ';' ∉ 'L' :: name := by simpa using hend
    have hfind := findIdx?_bytes hsemi hfront back
    have hsize := utf8ByteSize_ofList_cons (show 'L'.utf8Size = 1 by decide) name
    rw [← List.cons_append, hfind, Option.bind_some, hsize]
    -- a name that is not empty takes at least one byte, so the test on the offset is one on the name
    by_cases hname : name = []
    · subst hname
      rw [List.cons_append, splitField?_class_eq_none fun name' rest hend' hcs => ?_]
      · rfl
      · cases name' with
        | nil => rfl
        | cons c cs =>
          cases hcs
          exact absurd List.mem_cons_self hend'
    · have hpos := utf8ByteSize_ofList_pos hname
      have htype : (String.ofList ('L' :: name ++ [';'])).utf8ByteSize =
          (String.ofList name).utf8ByteSize + 1 + 1 := by
        rw [String.ofList_append, String.utf8ByteSize_append, hsize]
        rfl
      have hsome : splitField? ('L' :: name ++ ';' :: back) =
          some ('L' :: name ++ [';'], back) :=
        splitField?_class_iff.2 ⟨name, hname, hend, rfl, rfl⟩
      rw [if_pos (by omega), hsome, Option.map_some, htype]
      rfl
  · rw [findIdx?_bytes_eq_none hsemi (by simpa using hmem), splitField?_class_eq_none]
    · rfl
    · rintro name rest - rfl
      exact absurd (List.mem_append_right name List.mem_cons_self) hmem

/-- The end of a type is found where it is split off. -/
theorem typeEnd?_append (front : String) {rest : List Char} (hrest : rest.head? ≠ some '[') :
    typeEnd? (front ++ String.ofList rest) front.utf8ByteSize =
      some ((splitField? rest).map fun found =>
        front.utf8ByteSize + (String.ofList found.1).utf8ByteSize) := by
  have hbyte : (bytes (front ++ String.ofList rest))[front.utf8ByteSize]? =
      (bytes (String.ofList rest)).head? := by
    rw [bytes_append, List.getElem?_append_right (length_bytes front).le, length_bytes,
      Nat.sub_self, List.head?_eq_getElem?]
  rw [typeEnd?, hbyte]
  cases rest with
  | nil => rfl
  | cons c cs =>
    obtain ⟨tag, htag, hmark⟩ := head?_bytes (c := c) cs
    have hascii : ∀ letter ∈ ['Z', 'B', 'C', 'S', 'I', 'J', 'F', 'D'], letter.utf8Size = 1 := by
      simp only [List.mem_cons, List.not_mem_nil, or_false, forall_eq_or_imp, forall_eq]
      decide
    have hprimitive : tag ∈ ['Z', 'B', 'C', 'S', 'I', 'J', 'F', 'D'].map Char.toUInt8 ↔
        isPrimitive c = true := by
      rw [List.mem_map, isPrimitive, decide_eq_true_eq]
      constructor
      · rintro ⟨letter, hletter, htag⟩
        rwa [(hmark letter (hascii letter hletter)).1 htag.symm]
      · intro hc
        exact ⟨c, hc, ((hmark c (hascii c hc)).2 rfl).symm⟩
    rw [htag, Option.elim_some]
    by_cases hc : isPrimitive c = true
    · have hsize : (String.ofList [c]).utf8ByteSize = 1 :=
        utf8ByteSize_ofList_cons (hascii c (of_decide_eq_true hc)) []
      rw [if_pos (hprimitive.2 hc), splitField?_primitive hc, Option.map_some, hsize]
    · rw [if_neg (mt hprimitive.1 hc)]
      by_cases hclass : c = 'L'
      · subst hclass
        rw [if_pos ((hmark 'L' (by decide)).2 rfl), cut?_append_right, Option.map_some,
          find_classEnd]
      · have harray : c ≠ '[' := by simpa using hrest
        rw [if_neg (mt (hmark 'L' (by decide)).1 hclass), splitField?, if_neg harray, if_neg hc,
          if_neg hclass]
        rfl

/-- Reading a type is splitting it off. -/
theorem readType?_append (front : String) (cs : List Char) :
    readType? (front ++ String.ofList cs) front.utf8ByteSize =
      some ((splitField? cs).elim (.error (.invalidType (String.ofList cs))) fun found =>
        let type := String.ofList found.1
        .ok (type, front.utf8ByteSize + type.utf8ByteSize)) := by
  obtain ⟨dims, rest, rfl, hrest⟩ := exists_dims cs
  -- past the brackets, the end of the type is that of its element, seen from further on
  have hend : typeEnd? (front ++ String.ofList (List.replicate dims '[' ++ rest))
      (front.utf8ByteSize + dims) =
      some ((splitField? (List.replicate dims '[' ++ rest)).map fun found =>
        front.utf8ByteSize + (String.ofList found.1).utf8ByteSize) := by
    have hdims : (String.ofList (List.replicate dims '[')).utf8ByteSize = dims := by
      rw [← length_bytes, bytes_replicate, List.length_replicate]
    have hstop := typeEnd?_append (front ++ String.ofList (List.replicate dims '[')) hrest
    rw [String.utf8ByteSize_append, hdims, String.append_assoc, ← String.ofList_append] at hstop
    rw [hstop, splitField?_replicate, Option.map_map]
    congr 2
    funext found
    rw [Function.comp_apply, String.ofList_append, String.utf8ByteSize_append, hdims,
      Nat.add_assoc]
  rw [readType?, skipDims_append front dims hrest, hend, Option.bind_some]
  cases hsplit : splitField? (List.replicate dims '[' ++ rest) with
  | none =>
    rw [Option.map_none, Option.elim_none, cut?_append_right]
    rfl
  | some found =>
    obtain ⟨type, back⟩ := found
    obtain ⟨-, hcs⟩ := splitField?_eq_some_iff.1 hsplit
    have hcut := cut?_append front (String.ofList type) (String.ofList back)
    rw [String.append_assoc, ← String.ofList_append, ← hcs] at hcut
    rw [Option.map_some, Option.elim_some, hcut]
    rfl

/-- **No text is cut inside a character**, and what is read by bytes is what is read. -/
theorem readField?_eq (text : String) : readField? text = some (readField text) := by
  have hread := readType?_append "" text.toList
  rw [String.empty_append, String.ofList_toList, String.utf8ByteSize_empty] at hread
  rw [readField?, readField]
  split
  · rfl
  · rw [hread, Option.map_some]
    cases hsplit : splitField? text.toList with
    | none =>
      have hfield : isField text.toList = false := by rw [isField, hsplit]
      rw [hfield]
      rfl
    | some found =>
      obtain ⟨type, back⟩ := found
      obtain ⟨-, hcs⟩ := splitField?_eq_some_iff.1 hsplit
      have htext : text = String.ofList type ++ String.ofList back := by
        rw [← String.ofList_append, ← hcs, String.ofList_toList]
      have hfield : isField text.toList = decide (back = []) := by rw [isField, hsplit]
      have hstop : 0 + (String.ofList type).utf8ByteSize = text.utf8ByteSize ↔ back = [] := by
        rw [htext, String.utf8ByteSize_append, ← utf8ByteSize_ofList_eq_zero_iff]
        omega
      simp only [Option.elim_some, Except.bind, hstop, hfield, decide_eq_true_eq]
      split
      · next hback =>
        rw [htext, hback]
        simp
      · rfl

end Bytes

/-- **Exactly the field types are read.** A text is read if and only if it is a field type, and then
as it stands. The empty text has an error of its own, and every other text is refused as a whole.
Reading it byte by byte comes to the same result and never cuts it inside a character. -/
theorem readField_iff_isFieldText (text : String) :
    (∀ type, readField text = .ok type ↔ type = text ∧ IsFieldText text) ∧
    (∀ e, readField text = .error e ↔
      (e = .empty ∧ text = "") ∨ (e = .invalidType text ∧ text ≠ "" ∧ ¬IsFieldText text)) ∧
    Bytes.readField? text = some (readField text) := by
  have hfield : isField text.toList = true ↔ IsFieldText text :=
    isField_iff.trans isFieldText_iff.symm
  refine ⟨fun type => ?_, fun e => ?_, Bytes.readField?_eq text⟩
  · rw [readField_eq_ok_iff, isFieldText_iff]
  · rw [← hfield, readField]
    split
    · next hempty =>
      rw [Except.error.injEq, eq_comm]
      simp [hempty]
    · next hempty =>
      split
      · next htype => simp [hempty, htype]
      · next htype =>
        rw [Except.error.injEq, eq_comm]
        simp [hempty, htype]

/-- Names may hold any character but `;`. -/
example : readField "[[Lñ/[é(;" = .ok "[[Lñ/[é(;" ∧ readField "[L;" = .error (.invalidType "[L;") ∧
    readField "Lñ;;" = .error (.invalidType "Lñ;;") := by
  decide +kernel

end ReturnFlow.Descriptor

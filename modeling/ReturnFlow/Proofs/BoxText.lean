import ReturnFlow.Proofs.Numeral
import ReturnFlow.Proofs.Occurrence
import ReturnFlow.Proofs.RuleClass

/-!
The text of a primitive value, asked for directly and by way of its box.

A box class has a static method that gives the text of a primitive value, and a method that gives
the text of a box. The first converts what is known of the value to a text; the second converts what
is known of the box, which came from converting the value to the box.

* `Element.converted_converted`: two conversions of an element convert each of its literals twice.
* `Box.convert?_eq_textVia?_iff`: for one literal, it makes no difference to go by the box exactly if
  the box shows the literal as it is (`Box.Shows`).
-/

namespace ReturnFlow

/-! ## Conversions of elements -/

namespace Element

theorem mem_literals_converted {e : Element} {type : String} {l : Literal} :
    l ∈ (e.converted type).literals ↔ ∃ l' ∈ e.literals, Literal.convert? type l' = some l := by
  simp [mem_literals, converted, ofValues]

/-- The literals of an element, each taken through a function, as an element. -/
def viaLiterals (e : Element) (type : String) (f : Literal → Option Literal) : Element :=
  ofValues type ((e.literals.filterMap f).map .literal)

/-- An element that is converted twice is one whose literals are converted twice. -/
theorem converted_converted (e : Element) (type type' : String) :
    (e.converted type).converted type' =
      e.viaLiterals type' fun l => (Literal.convert? type l).bind (Literal.convert? type') := by
  refine congrArg (mk [type']) (Sorted.ofList_eq_ofList_iff.2 fun v => ?_)
  simp only [List.mem_map, List.mem_filterMap, mem_literals_converted, Option.bind_eq_some_iff]
  constructor
  · rintro ⟨l, ⟨l₁, ⟨l₀, hl₀, hl₁⟩, hl⟩, rfl⟩
    exact ⟨l, ⟨l₀, hl₀, l₁, hl₁, hl⟩, rfl⟩
  · rintro ⟨l, ⟨l₀, hl₀, l₁, hl₁, hl⟩, rfl⟩
    exact ⟨l, ⟨l₁, ⟨l₀, hl₀, hl₁⟩, hl⟩, rfl⟩

theorem viaLiterals_congr {e : Element} (type : String) {f g : Literal → Option Literal}
    (h : ∀ l ∈ e.literals, f l = g l) : e.viaLiterals type f = e.viaLiterals type g := by
  rw [viaLiterals, viaLiterals, List.filterMap_congr h]

/-- With one literal, the functions can be told apart by what they make of it. -/
theorem viaLiterals_eq_iff {e : Element} {l : Literal} (hl : e.literals = [l]) (type : String)
    (f g : Literal → Option Literal) :
    e.viaLiterals type f = e.viaLiterals type g ↔ f l = g l := by
  constructor
  · intro h
    have hvalues := congrArg values h
    rw [viaLiterals, viaLiterals, hl] at hvalues
    ext l'
    have hmem := Sorted.ofList_eq_ofList_iff.1 hvalues (.literal l')
    simpa only [List.mem_map, List.mem_filterMap, List.mem_singleton, exists_eq_left,
      Value.literal.injEq, exists_eq_right] using hmem
  · intro h
    refine viaLiterals_congr type fun l' hl' => ?_
    rw [hl, List.mem_singleton] at hl'
    rw [hl', h]

end Element

/-! ## Boxes -/

/-- The box classes of truth values, characters and whole numbers. -/
inductive Box where
  | boolean
  | character
  | integer
  | long
  | short
  | byte
  deriving DecidableEq

namespace Box

def owner : Box → String
  | .boolean => "java/lang/Boolean"
  | .character => "java/lang/Character"
  | .integer => "java/lang/Integer"
  | .long => "java/lang/Long"
  | .short => "java/lang/Short"
  | .byte => "java/lang/Byte"

def primitive : Box → String
  | .boolean => "Z"
  | .character => "C"
  | .integer => "I"
  | .long => "J"
  | .short => "S"
  | .byte => "B"

def type (b : Box) : String := Descriptor.ofClass b.owner

/-- The text of a primitive value. -/
def textOf (b : Box) : Method := ⟨b.owner, "toString", Descriptor.string, true, [b.primitive]⟩

/-- The box of a primitive value. -/
def boxOf (b : Box) : Method := ⟨b.owner, "valueOf", b.type, true, [b.primitive]⟩

/-- The text of a box. -/
def text (b : Box) : Method := ⟨b.owner, "toString", Descriptor.string, false, []⟩

/-- The width of the whole numbers that a box holds, if it holds such. -/
def width? : Box → Option Nat
  | .boolean | .character => none
  | .integer => some 32
  | .long => some 64
  | .short => some 16
  | .byte => some 8

/-- A literal that has the same text as what a box makes of it: no value, a value of the kind that
the box holds, or the text of such a value. -/
def Shows (b : Box) : Literal → Prop
  | .null => True
  | .bool _ => b = .boolean
  | .char _ => b = .character
  | .int _ => b.width? ≠ none
  | .string s =>
    b = .boolean ∧ (s = "true" ∨ s = "false") ∨
      ∃ bits v, b.width? = some bits ∧ Fits bits v ∧ s = Text.writeInt v
  | .double _ | .cls _ => False

end Box

namespace Rule

/-- A static conversion of a box class converts its argument to what it returns. -/
theorem call?_conversion {m : Method} (hclass : m.owner ∈ valueClasses) (hstatic : m.isStatic = true)
    (hconversion : Boxing.isConversion m = true) (receiver : Option Element) (e : Element)
    (rest : List Element) :
    call? ⟨m, receiver, e :: rest⟩ = some (.value (e.converted m.returnType)) := by
  simp only [call?, apiName?_of_mem_valueClasses _ hclass, Boxing.call?,
    (isValueClass_iff m.owner).2 hclass, hstatic, hconversion]
  rfl

/-- An accessor of a box class converts the box to what it returns. -/
theorem call?_accessor {m : Method} (hclass : m.owner ∈ valueClasses) (hstatic : m.isStatic = false)
    (hinit : m.isConstructor = false) (haccessor : Boxing.isAccessor m.name = true) (e : Element)
    (args : List Element) :
    call? ⟨m, some e, args⟩ = some (.value (e.converted m.returnType)) := by
  simp only [call?, apiName?_of_mem_valueClasses _ hclass, Boxing.call?,
    (isValueClass_iff m.owner).2 hclass, hstatic, hinit, haccessor]
  rfl

end Rule

/-! ## Texts of literals -/

namespace Text

/-- A word is not how a number is written. -/
theorem writeInt_ne {s : String} (h : readInt? s.toList = none) (v : Int) : writeInt v ≠ s := by
  rintro rfl
  rw [readInt?_eq_some_iff.2 (numeral_writeInt v)] at h
  cases h

theorem digits_singleton_iff {c : Char} {n : Nat} : Digits [c] n ↔ IsDigitOf n c := by
  constructor
  · intro h
    cases h with
    | last hc => exact hc
    | cons hc hcs => cases hcs
  · exact .last

/-- No character is how its own code point is written: the digits have other values. -/
theorem writeInt_toNat_ne (c : Char) : writeInt c.toNat ≠ String.singleton c := by
  intro h
  have hnumeral := numeral_writeInt c.toNat
  rw [h, String.toList_singleton] at hnumeral
  generalize hv : (c.toNat : Int) = v at hnumeral
  cases hnumeral with
  | plain hdigits =>
    obtain ⟨hdigit, hvalue⟩ := isDigitOf_iff.1 (digits_singleton_iff.1 hdigits)
    have hzero : '0'.toNat = 48 := rfl
    rw [isDigit_iff] at hdigit
    rw [digitValue, hzero] at hvalue
    omega
  | plus hdigits => cases hdigits
  | minus hdigits => cases hdigits

end Text

namespace Literal

theorem convert?_string_of_ne_null {l : Literal} (h : l ≠ .null) :
    convert? Descriptor.string l = some (.string l.text) := by
  cases l <;> first | rfl | exact absurd rfl h

theorem convert?_ne_null {type : String} {l l' : Literal} (h : convert? type l = some l') :
    l' ≠ .null := by
  obtain ⟨c, -, h⟩ := Option.bind_eq_some_iff.1 h
  rintro rfl
  cases c <;> cases l <;> simp [convertBy?, readIntegral?, ofCodePoint?] at h
  -- what is left is a text that is read as a number
  split at h
  · split at h <;> cases h
  · cases h

theorem text_codePoint (c : Char) :
    (Literal.int (Int64.ofNat c.toNat)).text = Text.writeInt c.toNat := by
  have hvalid : c.toNat.isValidChar := c.valid
  unfold Nat.isValidChar at hvalid
  rw [text, Int64.toInt_ofNat_of_lt (by omega)]

theorem ofCodePoint?_eq_some_iff {v : Int64} {l : Literal} :
    ofCodePoint? v = some l ↔ ∃ c : Char, v.toInt = c.toNat ∧ l = .char c := by
  simp only [ofCodePoint?, Option.ite_none_right_eq_some, Option.some.injEq]
  constructor
  · rintro ⟨⟨hnonneg, hvalid⟩, rfl⟩
    have hcode : (Char.ofNat v.toInt.toNat).toNat = v.toInt.toNat := by
      rw [Char.ofNat, dif_pos hvalid]
      rfl
    refine ⟨_, ?_, rfl⟩
    rw [hcode, Int.toNat_of_nonneg hnonneg]
  · rintro ⟨c, hv, rfl⟩
    rw [hv, Int.toNat_natCast, Char.ofNat_toNat]
    exact ⟨⟨Int.natCast_nonneg _, c.valid⟩, rfl⟩

end Literal

namespace Box

open Literal

theorem owner_mem_valueClasses (b : Box) : b.owner ∈ Rule.valueClasses := by
  cases b <;> decide

theorem mem_integralTypes {b : Box} {bits : Nat} (h : b.width? = some bits) :
    (b.type, bits) ∈ integralTypes := by
  cases b <;> cases h <;> decide

/-- The text of what a box makes of a literal. -/
def textVia? (b : Box) (l : Literal) : Option Literal :=
  (convert? b.type l).bind (convert? Descriptor.string)

/-- What a box makes of a literal has the text of the literal. -/
def Keeps (b : Box) (l : Literal) : Prop :=
  ∃ l', convert? b.type l = some l' ∧ l'.text = l.text

theorem keeps_boolean_iff {l : Literal} (hl : l ≠ .null) : boolean.Keeps l ↔ boolean.Shows l := by
  have hconvert : convert? boolean.type l = convertBy? .boolean l := rfl
  rw [Keeps, hconvert]
  cases l with
  | null => exact absurd rfl hl
  | int v =>
    have htrue := Text.writeInt_ne (s := "true") (by decide) v.toInt
    have hfalse := Text.writeInt_ne (s := "false") (by decide) v.toInt
    cases hv : v != 0 <;>
      simp [convertBy?, Shows, width?, Literal.text, hv, htrue.symm, hfalse.symm]
  | string s =>
    simp only [convertBy?, Shows, width?, Literal.text, Option.some.injEq, exists_eq_left',
      true_and, reduceCtorEq, false_and, exists_false, or_false]
    constructor
    · intro htext
      cases hword : isTrueWord s <;> simp [hword] at htext <;> simp [htext]
    · rintro (rfl | rfl) <;> rfl
  | bool v | char c | double d | cls type => simp [convertBy?, Shows]

theorem keeps_character_iff {l : Literal} (hl : l ≠ .null) :
    character.Keeps l ↔ character.Shows l := by
  have hconvert : convert? character.type l = convertBy? .character l := rfl
  rw [Keeps, hconvert]
  cases l with
  | null => exact absurd rfl hl
  | int v =>
    refine iff_of_false ?_ (fun h => h rfl)
    rintro ⟨l', hl', htext⟩
    obtain ⟨c, hv, rfl⟩ := ofCodePoint?_eq_some_iff.1 hl'
    rw [Literal.text, Literal.text, hv] at htext
    exact Text.writeInt_toNat_ne c htext.symm
  | bool v | char c | double d | cls type | string s => simp [convertBy?, Shows, width?]

theorem keeps_integral_iff {b : Box} {bits : Nat} (hb : b.width? = some bits) {l : Literal}
    (hl : l ≠ .null) : b.Keeps l ↔ b.Shows l := by
  have hkind : b ≠ .boolean ∧ b ≠ .character := by constructor <;> rintro rfl <;> cases hb
  have hconvert (l : Literal) : convert? b.type l =
      convertBy? (.integral (-2 ^ (bits - 1)) (2 ^ (bits - 1) - 1)) l := by
    rw [convert?, Conversion.of?_integral (mem_integralTypes hb)]
    rfl
  cases l with
  | null => exact absurd rfl hl
  | char c =>
    refine iff_of_false ?_ hkind.2
    rw [Keeps, hconvert]
    rintro ⟨_, ⟨⟩, htext⟩
    rw [text_codePoint] at htext
    exact Text.writeInt_toNat_ne c htext
  | string s =>
    simp only [Keeps, convert?_string_eq_some_iff (mem_integralTypes hb), Shows, hkind, hb,
      false_and, false_or, Option.some.injEq]
    constructor
    · rintro ⟨_, ⟨v, rfl, -, hfits⟩, htext⟩
      exact ⟨bits, v.toInt, rfl, hfits, htext.symm⟩
    · rintro ⟨_, v, rfl, hfits, rfl⟩
      have hint := hfits.toInt_ofInt (bits_le_of_mem_integralTypes (mem_integralTypes hb))
      refine ⟨_, ⟨Int64.ofInt v, rfl, ?_⟩, ?_⟩
      · rw [hint]
        exact ⟨Text.numeral_writeInt v, hfits⟩
      · rw [Literal.text, hint, Literal.text]
  | bool v | int v | double d | cls type => simp [Keeps, hconvert, convertBy?, Shows, hkind, hb]

/-- For one literal, it makes no difference to go by the box exactly if the box shows it. -/
theorem convert?_eq_textVia?_iff (b : Box) (l : Literal) :
    convert? Descriptor.string l = b.textVia? l ↔ b.Shows l := by
  by_cases hl : l = .null
  · rw [hl]
    refine iff_of_true ?_ trivial
    cases b <;> rfl
  · have hkeeps : b.Keeps l ↔ b.Shows l := by
      cases b with
      | boolean => exact keeps_boolean_iff hl
      | character => exact keeps_character_iff hl
      | integer | long | short | byte => exact keeps_integral_iff rfl hl
    rw [← hkeeps, convert?_string_of_ne_null hl, eq_comm, textVia?, Option.bind_eq_some_iff]
    refine exists_congr fun l' => and_congr_right fun hl' => ?_
    rw [convert?_string_of_ne_null (convert?_ne_null hl')]
    simp

end Box

open Rule in
/-- **The text of a primitive value is that of its box, if the box shows what is known of the value.**
Both ways to ask for the text are settled. They give the same if each constant that the value may be
is shown as it is by the box; and if it can only be one constant, they differ otherwise. -/
theorem text_eq_text_of_box (b : Box) (e : Element) (receiver : Option Element) :
    ∃ direct boxed via, call? ⟨b.textOf, receiver, [e]⟩ = some direct ∧
      call? ⟨b.boxOf, receiver, [e]⟩ = some boxed ∧
      call? ⟨b.text, some boxed.result, []⟩ = some via ∧
      ((∀ l ∈ e.literals, b.Shows l) → direct = via) ∧
      ∀ l, e.literals = [l] → (direct = via ↔ b.Shows l) := by
  have hclass := b.owner_mem_valueClasses
  have hvia : (e.converted b.type).converted Descriptor.string =
      e.viaLiterals Descriptor.string b.textVia? := e.converted_converted b.type Descriptor.string
  refine ⟨.value (e.converted Descriptor.string), .value (e.converted b.type), .value _,
    call?_conversion hclass rfl rfl receiver e [], call?_conversion hclass rfl rfl receiver e [],
    call?_accessor hclass rfl rfl rfl (e.converted b.type) [], fun hshows => ?_, fun l hl => ?_⟩
  · refine congrArg Known.value (Eq.trans ?_ hvia.symm)
    exact Element.viaLiterals_congr _ fun l hl => (b.convert?_eq_textVia?_iff l).2 (hshows l hl)
  · rw [← b.convert?_eq_textVia?_iff, ← Element.viaLiterals_eq_iff hl Descriptor.string, ← hvia]
    exact ⟨congrArg Known.result, congrArg Known.value⟩

/-- A value that may be one of two numbers or a structure, whose box is shown alike. -/
theorem text_eq_text_of_box_integer :
    let e : Element := ⟨["I"], [.literal (.int (-7)), .literal (.int 40), .json .emptyArray]⟩
    (∀ l ∈ e.literals, Box.integer.Shows l) ∧
      ∃ direct boxed, Rule.call? ⟨Box.integer.textOf, none, [e]⟩ = some direct ∧
        Rule.call? ⟨Box.integer.boxOf, none, [e]⟩ = some boxed ∧
        Rule.call? ⟨Box.integer.text, some boxed.result, []⟩ = some direct ∧
        direct.result.strings = ["-7", "40"] := by
  intro e
  have hshows : ∀ l ∈ e.literals, Box.integer.Shows l := by
    have hliterals : e.literals = [.int (-7), .int 40] := rfl
    simp [hliterals, Box.Shows, Box.width?]
  obtain ⟨direct, boxed, via, hdirect, hboxed, hvia, hequal, -⟩ :=
    text_eq_text_of_box .integer e none
  have hstrings : (Rule.call? ⟨Box.integer.textOf, none, [e]⟩).map (·.result.strings) =
      some ["-7", "40"] := by decide +kernel
  rw [hdirect] at hstrings
  exact ⟨hshows, direct, boxed, hdirect, hboxed, hequal hshows ▸ hvia, Option.some.inj hstrings⟩

/-- Truth, which code pushes as a one: the text that is asked for directly is that of the number. -/
theorem text_ne_text_of_box_boolean :
    ∃ direct boxed via, Rule.call? ⟨Box.boolean.textOf, none, [.int 1]⟩ = some direct ∧
      Rule.call? ⟨Box.boolean.boxOf, none, [.int 1]⟩ = some boxed ∧
      Rule.call? ⟨Box.boolean.text, some boxed.result, []⟩ = some via ∧
      direct.result = .string "1" ∧ via.result = .string "true" := by
  have hclass := Box.owner_mem_valueClasses .boolean
  exact ⟨_, _, _, Rule.call?_conversion hclass rfl rfl none _ [],
    Rule.call?_conversion hclass rfl rfl none _ [], Rule.call?_accessor hclass rfl rfl rfl _ [],
    by decide +kernel, by decide +kernel⟩

end ReturnFlow

import Mathlib.Tactic.IntervalCases
import Mathlib.Tactic.Ring
import ReturnFlow.Rule.Boxing

/-!
Decimal numerals.

* `Text.Digits`, `Text.Numeral`: which number a text denotes, by the places of its digits. Reading
  accepts exactly these texts and finds these numbers (`Text.readInt?_eq_some_iff`), so a text
  denotes at most one number (`Text.Numeral.unique`).
* `Text.numeral_writeInt`: writing a number gives a text that denotes it.
* `Literal.convert?_string_eq_some_iff`: a text is converted to an integral type exactly if it
  denotes a number in the range of the type.
-/

namespace ReturnFlow

namespace Text

/-! ## Digits -/

/-- The digit with a value. -/
def IsDigitOf (d : Nat) (c : Char) : Prop := "0123456789".toList[d]? = some c

theorem isDigit_iff {c : Char} : isDigit c = true ↔ 48 ≤ c.toNat ∧ c.toNat ≤ 57 := by
  rw [isDigit, Bool.and_eq_true, decide_eq_true_iff, decide_eq_true_iff]
  rfl

theorem isDigitOf_iff {d : Nat} {c : Char} :
    IsDigitOf d c ↔ isDigit c = true ∧ digitValue c = d := by
  have hzero : '0'.toNat = 48 := rfl
  rw [isDigit_iff, digitValue, hzero]
  constructor
  · intro h
    obtain ⟨hlt, -⟩ := List.getElem?_eq_some_iff.1 h
    have hlt : d < 10 := hlt
    interval_cases d <;> cases h <;> decide
  · rintro ⟨⟨hle, hge⟩, rfl⟩
    have hc : c = Char.ofNat c.toNat := (Char.ofNat_toNat c).symm
    interval_cases hn : c.toNat <;> rw [hc] <;> rfl

/-- A row of digits, with the number that it denotes: each digit counts as many units of its place
as its value says. -/
inductive Digits : List Char → Nat → Prop
  | last {d : Nat} {c : Char} (hc : IsDigitOf d c) : Digits [c] d
  | cons {d n : Nat} {c : Char} {cs : List Char} (hc : IsDigitOf d c) (hcs : Digits cs n) :
      Digits (c :: cs) (d * 10 ^ cs.length + n)

/-- Digits after at most one sign, with the number that they denote. -/
inductive Numeral : List Char → Int → Prop
  | plain {cs : List Char} {n : Nat} (h : Digits cs n) : Numeral cs n
  | plus {cs : List Char} {n : Nat} (h : Digits cs n) : Numeral ('+' :: cs) n
  | minus {cs : List Char} {n : Nat} (h : Digits cs n) : Numeral ('-' :: cs) (-n)

/-! ## Reading -/

/-- The first digit counts units of the highest place. -/
theorem digitsValue_cons (c : Char) (cs : List Char) :
    digitsValue (c :: cs) = digitValue c * 10 ^ cs.length + digitsValue cs := by
  have hinit (n : Nat) : cs.foldl (fun n c => 10 * n + digitValue c) n =
      n * 10 ^ cs.length + digitsValue cs := by
    unfold digitsValue
    induction cs generalizing n with
    | nil => simp
    | cons c cs ih =>
      rw [List.foldl_cons, List.foldl_cons, ih, ih (10 * 0 + digitValue c), List.length_cons]
      ring
  rw [digitsValue, List.foldl_cons, hinit, Nat.mul_zero, Nat.zero_add]

theorem readNat?_cons_eq_some_iff {c : Char} {cs : List Char} {n : Nat} :
    readNat? (c :: cs) = some n ↔
      (isDigit c = true ∧ cs.all isDigit = true) ∧ digitsValue (c :: cs) = n := by
  simp [readNat?]

theorem readNat?_eq_some_iff {cs : List Char} {n : Nat} :
    readNat? cs = some n ↔ Digits cs n := by
  constructor
  · intro h
    induction cs generalizing n with
    | nil => simp [readNat?] at h
    | cons c cs ih =>
      obtain ⟨⟨hc, hcs⟩, rfl⟩ := readNat?_cons_eq_some_iff.1 h
      have hdigit : IsDigitOf (digitValue c) c := isDigitOf_iff.2 ⟨hc, rfl⟩
      rw [digitsValue_cons]
      cases cs with
      | nil =>
        have hvalue : digitValue c * 10 ^ ([] : List Char).length + digitsValue [] =
            digitValue c := by simp [digitsValue]
        rw [hvalue]
        exact .last hdigit
      | cons c' cs =>
        refine .cons hdigit (ih ?_)
        exact readNat?_cons_eq_some_iff.2 ⟨by simpa using hcs, rfl⟩
  · intro h
    induction h with
    | last hc =>
      obtain ⟨hdigit, rfl⟩ := isDigitOf_iff.1 hc
      simp [readNat?, hdigit, digitsValue]
    | @cons d n c cs hc _ ih =>
      obtain ⟨hdigit, rfl⟩ := isDigitOf_iff.1 hc
      cases cs with
      | nil => simp [readNat?] at ih
      | cons c' cs =>
        obtain ⟨hcs, rfl⟩ := readNat?_cons_eq_some_iff.1 ih
        refine readNat?_cons_eq_some_iff.2 ⟨⟨hdigit, by simpa using hcs⟩, ?_⟩
        rw [digitsValue_cons c]

theorem Digits.ne_sign {cs : List Char} {n : Nat} (h : Digits cs n) {c : Char} {rest : List Char}
    (hcs : cs = c :: rest) : c ≠ '+' ∧ c ≠ '-' := by
  have hdigit : isDigit c = true := by
    cases h with
    | last hc => cases hcs; exact (isDigitOf_iff.1 hc).1
    | cons hc _ => cases hcs; exact (isDigitOf_iff.1 hc).1
  constructor <;> rintro rfl <;> cases hdigit

theorem splitSign_of_digits {cs : List Char} {n : Nat} (h : Digits cs n) :
    splitSign cs = (false, cs) := by
  unfold splitSign
  split
  · exact absurd rfl (h.ne_sign rfl).2
  · exact absurd rfl (h.ne_sign rfl).1
  · rfl

theorem readInt?_eq (cs : List Char) :
    readInt? cs = (readNat? (splitSign cs).2).map fun n : Nat =>
      if (splitSign cs).1 then -(n : Int) else (n : Int) := by
  rw [readInt?]
  obtain ⟨negative, digits⟩ := splitSign cs
  show Option.map _ ((readNat? digits).bind _) = (readNat? digits).map _
  cases readNat? digits <;> rfl

theorem readInt?_eq_some_iff {cs : List Char} {v : Int} : readInt? cs = some v ↔ Numeral cs v := by
  rw [readInt?_eq]
  constructor
  · intro h
    rw [Option.map_eq_some_iff] at h
    obtain ⟨n, hn, hv⟩ := h
    revert hn hv
    unfold splitSign
    split
    · rintro hn rfl
      exact .minus (readNat?_eq_some_iff.1 hn)
    · rintro hn rfl
      exact .plus (readNat?_eq_some_iff.1 hn)
    · rintro hn rfl
      exact .plain (readNat?_eq_some_iff.1 hn)
  · intro h
    cases h with
    | plain h => rw [splitSign_of_digits h, readNat?_eq_some_iff.2 h]; rfl
    | plus h => rw [splitSign, readNat?_eq_some_iff.2 h]; rfl
    | minus h => rw [splitSign, readNat?_eq_some_iff.2 h]; rfl

/-- A text denotes at most one number. -/
theorem Numeral.unique {cs : List Char} {v w : Int} (hv : Numeral cs v) (hw : Numeral cs w) :
    v = w :=
  Option.some.inj ((readInt?_eq_some_iff.2 hv).symm.trans (readInt?_eq_some_iff.2 hw))

/-! ## Writing -/

theorem digits_toDigits (n : Nat) : Digits (Nat.toDigits 10 n) n := by
  have hall : (Nat.toDigits 10 n).all isDigit = true := by
    refine List.all_eq_true.2 fun c hc => ?_
    have hdigit : c.isDigit = true := Nat.isDigit_of_mem_toDigits (by decide) (by decide) hc
    exact hdigit
  have hvalue : digitsValue (Nat.toDigits 10 n) = n :=
    Nat.ofDigitChars_eq_foldl.symm.trans Nat.ofDigitChars_ten_toDigits
  rw [← readNat?_eq_some_iff, readNat?, if_pos ⟨Nat.toDigits_ne_nil, hall⟩, hvalue]

/-- A number is written as a text that denotes it. -/
theorem numeral_writeInt (v : Int) : Numeral (writeInt v).toList v := by
  cases v with
  | ofNat n =>
    rw [writeInt, Nat.repr_eq_ofList_toDigits, String.toList_ofList]
    exact .plain (digits_toDigits n)
  | negSucc n =>
    have hsign : "-".toList = ['-'] := rfl
    rw [writeInt, String.toList_append, hsign, Nat.repr_eq_ofList_toDigits, String.toList_ofList]
    exact .minus (digits_toDigits (n + 1))

end Text

/-! ## Integral types -/

/-- The integral types, each with its box, and their widths. -/
def integralTypes : List (String × Nat) :=
  [("I", 32), ("Ljava/lang/Integer;", 32), ("J", 64), ("Ljava/lang/Long;", 64),
   ("S", 16), ("Ljava/lang/Short;", 16), ("B", 8), ("Ljava/lang/Byte;", 8)]

/-- Is a number one of the signed numbers of a width? -/
def Fits (bits : Nat) (v : Int) : Prop := -2 ^ (bits - 1) ≤ v ∧ v < 2 ^ (bits - 1)

instance (bits : Nat) (v : Int) : Decidable (Fits bits v) :=
  inferInstanceAs (Decidable (_ ∧ _))

theorem Conversion.of?_integral {type : String} {bits : Nat} (h : (type, bits) ∈ integralTypes) :
    of? type = some (.integral (-2 ^ (bits - 1)) (2 ^ (bits - 1) - 1)) := by
  have hall : ∀ p ∈ integralTypes,
      of? p.1 = some (.integral (-2 ^ (p.2 - 1)) (2 ^ (p.2 - 1) - 1)) := by decide
  exact hall _ h

theorem bits_le_of_mem_integralTypes {type : String} {bits : Nat}
    (h : (type, bits) ∈ integralTypes) : bits ≤ 64 := by
  have hall : ∀ p ∈ integralTypes, p.2 ≤ 64 := by decide
  exact hall _ h

/-- The numbers of an integral type are those that a literal can hold, or fewer. -/
theorem Fits.toInt_ofInt {bits : Nat} {v : Int} (h : Fits bits v) (hbits : bits ≤ 64) :
    (Int64.ofInt v).toInt = v := by
  have hpow : (2 : Int) ^ (bits - 1) ≤ 2 ^ 63 := by
    exact_mod_cast Nat.pow_le_pow_right (by decide : 0 < 2) (by omega : bits - 1 ≤ 63)
  obtain ⟨hleast, hgreatest⟩ := h
  exact Int64.toInt_ofInt_of_le (by omega) (by omega)

namespace Literal

open Text

/-- A text is converted to an integral type exactly if it denotes a number in its range. -/
theorem convert?_string_eq_some_iff {type : String} {bits : Nat}
    (htype : (type, bits) ∈ integralTypes) {s : String} {l : Literal} :
    convert? type (.string s) = some l ↔
      ∃ v : Int64, l = .int v ∧ Numeral s.toList v.toInt ∧ Fits bits v.toInt := by
  have hconvert : convert? type (.string s) =
      readIntegral? (-2 ^ (bits - 1)) (2 ^ (bits - 1) - 1) s := by
    rw [convert?, Conversion.of?_integral htype]
    rfl
  rw [hconvert, readIntegral?]
  constructor
  · intro h
    split at h
    · next v hv =>
      split at h
      · next hrange =>
        cases h
        have hfits : Fits bits v := ⟨hrange.1, Int.lt_of_le_sub_one hrange.2⟩
        have hint := hfits.toInt_ofInt (bits_le_of_mem_integralTypes htype)
        refine ⟨Int64.ofInt v, rfl, ?_⟩
        rw [hint]
        exact ⟨readInt?_eq_some_iff.1 hv, hfits⟩
      · cases h
    · cases h
  · rintro ⟨v, rfl, hnumeral, hleast, hgreatest⟩
    rw [readInt?_eq_some_iff.2 hnumeral]
    dsimp only
    rw [if_pos ⟨hleast, Int.le_sub_one_of_lt hgreatest⟩, Int64.ofInt_toInt]

theorem convert?_string_int (v : Int64) :
    convert? Descriptor.string (.int v) = some (.string (writeInt v.toInt)) := rfl

/-- **Reading a whole number inverts writing it.** A text is converted to an integral type, primitive
or boxed, exactly if it is a decimal numeral with at most one sign whose number is in the range of
the type, and then to this number. So a number that is written and converted back is the same again
if it is in the range of the type, and lost otherwise. -/
theorem convert?_integral_iff {type : String} {bits : Nat}
    (htype : (type, bits) ∈ integralTypes) :
    (∀ (s : String) (v : Int64), convert? type (.string s) = some (.int v) ↔
      Numeral s.toList v.toInt ∧ Fits bits v.toInt) ∧
    (∀ s : String, convert? type (.string s) = none ↔
      ¬∃ v : Int, Numeral s.toList v ∧ Fits bits v) ∧
    ∀ v : Int64, ∃ s : String, convert? Descriptor.string (.int v) = some (.string s) ∧
      convert? type (.string s) = if Fits bits v.toInt then some (.int v) else none := by
  have hsome (s : String) (v : Int64) : convert? type (.string s) = some (.int v) ↔
      Numeral s.toList v.toInt ∧ Fits bits v.toInt := by
    simp [convert?_string_eq_some_iff htype]
  have hnone (s : String) : convert? type (.string s) = none ↔
      ¬∃ v : Int, Numeral s.toList v ∧ Fits bits v := by
    rw [← not_iff_not, not_not, ← ne_eq, Option.ne_none_iff_exists']
    simp only [convert?_string_eq_some_iff htype]
    constructor
    · rintro ⟨l, v, -, hnumeral, hfits⟩
      exact ⟨v.toInt, hnumeral, hfits⟩
    · rintro ⟨v, hnumeral, hfits⟩
      have hint := hfits.toInt_ofInt (bits_le_of_mem_integralTypes htype)
      exact ⟨_, Int64.ofInt v, rfl, hint.symm ▸ hnumeral, hint.symm ▸ hfits⟩
  refine ⟨hsome, hnone, fun v => ⟨_, convert?_string_int v, ?_⟩⟩
  have hwritten := numeral_writeInt v.toInt
  split
  · next hfits => exact (hsome _ v).2 ⟨hwritten, hfits⟩
  · next hfits =>
    rw [hnone]
    rintro ⟨w, hw, hw'⟩
    exact hfits (hwritten.unique hw ▸ hw')

/-- The least number that a short can hold, written with a zero too many, and the one below it. -/
theorem convert?_integral_iff_short :
    ("Ljava/lang/Short;", 16) ∈ integralTypes ∧
      convert? "Ljava/lang/Short;" (.string "-032768") = some (.int (-32768)) ∧
      ∃ s, convert? Descriptor.string (.int (-32769)) = some (.string s) ∧
        convert? "Ljava/lang/Short;" (.string s) = none := by
  have htype : ("Ljava/lang/Short;", 16) ∈ integralTypes := by decide
  obtain ⟨hsome, -, hback⟩ := convert?_integral_iff htype
  have hnumeral : Numeral "-032768".toList (-32768) := readInt?_eq_some_iff.1 (by decide)
  obtain ⟨s, hs, hlost⟩ := hback (-32769)
  rw [if_neg (by decide)] at hlost
  exact ⟨htype, (hsome _ _).2 ⟨hnumeral, by decide⟩, s, hs, hlost⟩

end Literal

end ReturnFlow

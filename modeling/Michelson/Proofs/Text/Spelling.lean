import Mathlib.Data.List.Basic
import Michelson.Text.Hex
import Michelson.Text.Numeral

/-!
# Spelled numbers and bytes

Decimal numerals are read back as their numbers by both grammars, and hexadecimal digits as their
bytes. Besides its numeral, a number without sign is read from what has zeros in front of that, or a
plus sign, and from nothing else.

## Main definitions

* `IsLead`: what may stand in front of a numeral

## Main results

* `readInteger?_toString`, `readSigned?_toString`: numerals
* `readNatural?_eq_some_iff`, `readUnsigned?_eq_some_iff`: all texts of a number without sign
* `Hex.decode_encode`: hexadecimal digits
-/

namespace Michelson.Text

/-! ## Numerals -/

theorem digitValue?_of_isDigit {c : Char} (h : c.isDigit = true) :
    digitValue? c = some (c.toNat - '0'.toNat) := by
  rw [digitValue?, if_pos h]

theorem readDigits?_of_isDigit {cs : List Char} (h : ∀ c ∈ cs, c.isDigit = true) (value : Nat) :
    readDigits? value cs = some (Nat.ofDigitChars 10 cs value) := by
  induction cs generalizing value with
  | nil => rw [readDigits?, Nat.ofDigitChars_nil]
  | cons c cs ih =>
    rw [List.forall_mem_cons] at h
    rw [readDigits?, digitValue?_of_isDigit h.1, Nat.ofDigitChars_cons]
    exact ih h.2 _

section Digits

variable (n : Nat)

theorem isDigit_of_mem_digits : ∀ c ∈ Nat.toDigits 10 n, c.isDigit = true :=
  fun _ hc => Nat.isDigit_of_mem_toDigits (by decide) (by decide) hc

/-- The numeral of a number starts with a digit. -/
theorem exists_toDigits_eq_cons :
    ∃ c cs, Nat.toDigits 10 n = c :: cs ∧ c.isDigit = true := by
  obtain ⟨c, cs, hcs⟩ := List.exists_cons_of_ne_nil (Nat.toDigits_ne_nil (n := n) (b := 10))
  exact ⟨c, cs, hcs, isDigit_of_mem_digits n c (hcs ▸ List.mem_cons_self)⟩

theorem readNatural?_toDigits : readNatural? (Nat.toDigits 10 n) = some n := by
  obtain ⟨c, cs, hcs, -⟩ := exists_toDigits_eq_cons n
  have hread := readDigits?_of_isDigit (isDigit_of_mem_digits n) 0
  rw [hcs] at hread ⊢
  rw [readNatural?, hread, ← hcs, Nat.ofDigitChars_ten_toDigits]
  exact List.cons_ne_nil c cs

/-- A numeral has no underscores to be left out. -/
theorem readGrouped?_toDigits : readGrouped? (Nat.toDigits 10 n) = some n := by
  have hfilter : (Nat.toDigits 10 n).filter (· ≠ '_') = Nat.toDigits 10 n := by
    rw [List.filter_eq_self]
    intro c hc
    have hne : c ≠ '_' := fun heq => Nat.underscore_not_in_toDigits (heq ▸ hc)
    exact decide_eq_true hne
  have hread := readNatural?_toDigits n
  obtain ⟨c, cs, hcs, hdigit⟩ := exists_toDigits_eq_cons n
  have hne : c ≠ '_' := by
    rintro rfl
    cases hdigit
  rw [hcs] at hfilter hread ⊢
  rw [readGrouped?, if_neg hne, hfilter, hread]

end Digits

/-- What is written for an integer: a minus sign or none, and the numeral of its magnitude. -/
theorem toList_toString_int (n : Int) :
    (0 ≤ n ∧ (toString n).toList = Nat.toDigits 10 n.toNat) ∨
    (n < 0 ∧ (toString n).toList = '-' :: Nat.toDigits 10 (-n).toNat) := by
  rw [Int.toString_eq_repr, Int.repr_eq_if]
  by_cases hnonneg : 0 ≤ n
  · refine .inl ⟨hnonneg, ?_⟩
    rw [if_pos hnonneg, Nat.toList_repr]
  · refine .inr ⟨Int.not_le.mp hnonneg, ?_⟩
    rw [if_neg hnonneg, String.toList_append, Nat.toList_repr]
    rfl

/-- **An integer of any size is read back** from its numeral. -/
theorem readInteger?_toString (n : Int) : readInteger? (toString n) = some n := by
  rcases toList_toString_int n with ⟨hnonneg, htext⟩ | ⟨hneg, htext⟩
  · have hread := readGrouped?_toDigits n.toNat
    obtain ⟨c, cs, hcs, hdigit⟩ := exists_toDigits_eq_cons n.toNat
    rw [hcs] at hread htext
    rw [readInteger?, htext]
    split
    · simp_all
    · simp_all
    · rw [hread]
      exact congrArg some (Int.toNat_of_nonneg hnonneg)
  · have hmagnitude : -((-n).toNat : Int) = n := by omega
    rw [readInteger?, htext]
    simp only [readGrouped?_toDigits]
    exact congrArg some hmagnitude

/-- **An integer of 64 bits is read back** from its numeral. -/
theorem readSigned?_toString {n : Int} (h : fitsWord n = true) :
    readSigned? (toString n) = some n := by
  rcases toList_toString_int n with ⟨hnonneg, htext⟩ | ⟨hneg, htext⟩
  · have hread := readNatural?_toDigits n.toNat
    obtain ⟨c, cs, hcs, hdigit⟩ := exists_toDigits_eq_cons n.toNat
    rw [hcs] at hread htext
    rw [readSigned?, htext]
    split
    · simp_all
    · simp_all
    · rw [hread]
      show (some (n.toNat : Int)).filter fitsWord = some n
      rw [Int.toNat_of_nonneg hnonneg, Option.filter_some, if_pos h]
  · have hmagnitude : -((-n).toNat : Int) = n := by omega
    rw [readSigned?, htext]
    simp only [readNatural?_toDigits]
    show (some (-((-n).toNat : Int))).filter fitsWord = some n
    rw [hmagnitude, Option.filter_some, if_pos h]

/-! ## All texts of a number -/

/-- A digit is the numeral of its value. -/
theorem toDigits_of_digitValue? {c : Char} {d : Nat} (h : digitValue? c = some d) :
    d < 10 ∧ Nat.toDigits 10 d = [c] := by
  rw [digitValue?] at h
  obtain ⟨hdigit, hd⟩ := Option.ite_none_right_eq_some.mp h
  have hcode : 48 ≤ c.toNat ∧ c.toNat ≤ 57 := Char.isDigit_iff_toNat.mp hdigit
  have hvalue : c.toNat - 48 = d := Option.some.inj hd
  have hlt : d < 10 := by omega
  have hchar : d.digitChar = c := by
    refine Char.toNat_inj.mp ?_
    rw [Nat.toNat_digitChar_of_lt_ten hlt]
    omega
  exact ⟨hlt, by rw [Nat.toDigits_of_lt_base hlt, hchar]⟩

/-- Further digits of a number that is not zero spell its numeral on. -/
theorem toDigits_append_of_readDigits? {value n : Nat} {cs : List Char} (hvalue : 0 < value)
    (h : readDigits? value cs = some n) : Nat.toDigits 10 value ++ cs = Nat.toDigits 10 n := by
  induction cs generalizing value with
  | nil =>
    cases h
    rw [List.append_nil]
  | cons c cs ih =>
    rw [readDigits?] at h
    split at h
    next d hd =>
      obtain ⟨hlt, hdigit⟩ := toDigits_of_digitValue? hd
      rw [← ih (by omega) h, ← Nat.toDigits_append_toDigits (by decide) hvalue hlt, hdigit,
        List.append_assoc]
      rfl
    next => cases h

/-- **The digits of a number** are those of its numeral, behind zeros or not. -/
theorem readNatural?_eq_some_iff {cs : List Char} {n : Nat} :
    readNatural? cs = some n ↔ ∃ zeros, cs = List.replicate zeros '0' ++ Nat.toDigits 10 n := by
  constructor
  · intro h
    induction cs with
    | nil => cases h
    | cons c cs ih =>
      have h : readDigits? 0 (c :: cs) = some n := h
      rw [readDigits?] at h
      split at h
      next d hd =>
        obtain ⟨-, hdigit⟩ := toDigits_of_digitValue? hd
        rcases Nat.eq_zero_or_pos d with rfl | hpos
        · obtain rfl : '0' = c := List.singleton_inj.mp hdigit
          cases cs with
          | nil =>
            cases h
            exact ⟨0, rfl⟩
          | cons c' cs =>
            obtain ⟨zeros, hzeros⟩ := ih h
            exact ⟨zeros + 1, by rw [hzeros, List.replicate_succ, List.cons_append]⟩
        · rw [Nat.mul_zero, Nat.zero_add] at h
          have hdigits := toDigits_append_of_readDigits? hpos h
          rw [hdigit] at hdigits
          exact ⟨0, hdigits⟩
      next => cases h
  · rintro ⟨zeros, rfl⟩
    have hread (count : Nat) :
        readDigits? 0 (List.replicate count '0' ++ Nat.toDigits 10 n) = some n := by
      induction count with
      | zero =>
        rw [List.replicate_zero, List.nil_append, readDigits?_of_isDigit (isDigit_of_mem_digits n),
          Nat.ofDigitChars_ten_toDigits]
      | succ count ih => exact ih
    cases zeros with
    | zero => exact readNatural?_toDigits n
    | succ zeros => exact hread (zeros + 1)

/-- **What may stand in front of a numeral** without a change of the number: zeros, with a plus sign
in front of them or not. -/
def IsLead (lead : String) : Prop :=
  ∃ zeros, lead.toList = List.replicate zeros '0' ∨ lead.toList = '+' :: List.replicate zeros '0'

theorem isLead_empty : IsLead "" := ⟨0, .inl rfl⟩

/-- Zeros and a numeral behind them begin with a digit. -/
theorem exists_replicate_append_eq_cons (zeros n : Nat) :
    ∃ c cs, List.replicate zeros '0' ++ Nat.toDigits 10 n = c :: cs ∧ c.isDigit = true := by
  cases zeros with
  | zero => exact exists_toDigits_eq_cons n
  | succ zeros => exact ⟨'0', _, rfl, rfl⟩

/-- **The texts of a number without sign** that fits in 64 bits are its numeral and those that have
something in front of it that does not change the number. -/
theorem readUnsigned?_eq_some_iff {text : String} {size : UInt64} :
    readUnsigned? text = some size ↔ ∃ lead, IsLead lead ∧ text = lead ++ toString size.toNat := by
  have hnumeral : (toString size.toNat).toList = Nat.toDigits 10 size.toNat := Nat.toList_repr
  constructor
  · intro h
    obtain ⟨n, hn, hsize⟩ := Option.map_eq_some_iff.mp h
    obtain ⟨hn, hfits⟩ := Option.filter_eq_some_iff.mp hn
    have hvalue : size.toNat = n := by
      rw [← hsize]
      exact UInt64.toNat_ofNat_of_lt (of_decide_eq_true hfits)
    split at hn
    next rest htext =>
      obtain ⟨zeros, rfl⟩ := readNatural?_eq_some_iff.mp hn
      refine ⟨String.ofList ('+' :: List.replicate zeros '0'),
        ⟨zeros, .inr String.toList_ofList⟩, String.toList_inj.mp ?_⟩
      rw [String.toList_append, String.toList_ofList, hnumeral, hvalue, htext, List.cons_append]
    next =>
      obtain ⟨zeros, htext⟩ := readNatural?_eq_some_iff.mp hn
      refine ⟨String.ofList (List.replicate zeros '0'),
        ⟨zeros, .inl String.toList_ofList⟩, String.toList_inj.mp ?_⟩
      rw [String.toList_append, String.toList_ofList, hnumeral, hvalue, htext]
  · rintro ⟨lead, ⟨zeros, hlead⟩, rfl⟩
    have hread : readNatural? (List.replicate zeros '0' ++ Nat.toDigits 10 size.toNat) =
        some size.toNat := readNatural?_eq_some_iff.mpr ⟨zeros, rfl⟩
    have hvalue : ((some size.toNat).filter (· < UInt64.size)).map UInt64.ofNat = some size := by
      rw [Option.filter_some, if_pos (decide_eq_true size.toNat_lt), Option.map_some,
        UInt64.ofNat_toNat]
    rw [readUnsigned?, String.toList_append, hnumeral]
    rcases hlead with hlead | hlead
    · rw [hlead]
      obtain ⟨c, cs, hcs, hdigit⟩ := exists_replicate_append_eq_cons zeros size.toNat
      rw [hcs] at hread ⊢
      split
      next heq =>
        cases heq
        cases hdigit
      next => rw [hread, hvalue]
    · rw [hlead, List.cons_append]
      simp only [hread, hvalue]

/-! ## Hexadecimal digits -/

namespace Hex

/-- A digit is one byte, which has its value. -/
theorem utf8EncodeChar_digit : ∀ value < 16,
    String.utf8EncodeChar (digit value) = [(digit value).toUInt8] ∧
      digitValue? (digit value).toUInt8 = some (UInt8.ofNat value) := by
  decide

/-- The two digits of a byte are two bytes, which have the values of its halves. -/
theorem exists_utf8_encodeByte (b : UInt8) : ∃ high low,
    (encodeByte b).flatMap String.utf8EncodeChar = [high, low] ∧
      digitValue? high = some (UInt8.ofNat (b.toNat / 16)) ∧
      digitValue? low = some (UInt8.ofNat (b.toNat % 16)) := by
  have hb := b.toNat_lt
  obtain ⟨hhigh, hvalue⟩ := utf8EncodeChar_digit (b.toNat / 16) (by omega)
  obtain ⟨hlow, hvalue'⟩ := utf8EncodeChar_digit (b.toNat % 16) (by omega)
  refine ⟨_, _, ?_, hvalue, hvalue'⟩
  simp only [encodeByte, List.flatMap_cons, List.flatMap_nil, hhigh, hlow]
  rfl

theorem ofNat_halves (b : UInt8) :
    16 * UInt8.ofNat (b.toNat / 16) + UInt8.ofNat (b.toNat % 16) = b := by
  have hb := b.toNat_lt
  rw [← UInt8.toNat_inj, UInt8.toNat_add, UInt8.toNat_mul, UInt8.toNat_ofNat', UInt8.toNat_ofNat']
  simp only [UInt8.reduceToNat]
  omega

theorem utf8_encode (bytes : List UInt8) :
    utf8 (encode bytes) =
      bytes.flatMap fun b => (encodeByte b).flatMap String.utf8EncodeChar := by
  rw [utf8, encode, String.toList_ofList, List.flatMap_assoc]

/-- Digits are read back from any position on. -/
theorem decodeFrom_utf8_encode (bytes : List UInt8) (position : Nat) :
    (utf8 (encode bytes)).length % 2 = 0 ∧
      decodeFrom position (utf8 (encode bytes)) = .ok bytes := by
  rw [utf8_encode]
  induction bytes generalizing position with
  | nil => exact ⟨rfl, rfl⟩
  | cons b bytes ih =>
    obtain ⟨high, low, hdigits, hhigh, hlow⟩ := exists_utf8_encodeByte b
    obtain ⟨heven, hread⟩ := ih (position + 2)
    rw [List.flatMap_cons, hdigits]
    constructor
    · rw [List.length_append, List.length_cons, List.length_singleton]
      omega
    · simp only [List.cons_append, List.nil_append, decodeFrom, readDigit, hhigh, hlow, bind,
        Except.bind, hread]
      rw [ofNat_halves]
      rfl

/-- **Bytes are read back** from their digits. -/
theorem decode_encode (bytes : List UInt8) : decode (encode bytes) = .ok bytes := by
  obtain ⟨heven, hread⟩ := decodeFrom_utf8_encode bytes 0
  rw [decode]
  simp only [heven, hread]
  rfl

end Hex

end Michelson.Text

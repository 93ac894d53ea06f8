import Mathlib.Data.List.Induction
import Michelson.Identifier.Format
import Michelson.Proofs.Order.Lexicographic

/-!
# The order of identifiers as texts

A text in base 58 is the numeral of a number, which begins with the mark of the format. The marks
are chosen such that all texts of a format begin with the same characters and have the same length.
So texts of one format are ordered as their payloads are, and texts of two formats by what they
begin with.

## Main definitions

* `Identifier.Format.BeginsWith`: what all texts of a format begin with

## Main results

* `Identifier.Format.IsLead.beginsWith`: what the mark has to do with it
* `Identifier.Format.compare_write`: texts of one format
* `Identifier.Format.compare_write_append`: texts of two formats
-/

namespace Michelson

namespace Text.Base58

/-! ## Digits -/

section Digits

variable {base : Nat} {h : 2 ≤ base}

/-- The digits behind the lowest ones are those of the quotient. -/
theorem drop_digits (n i : Nat) : (digits base h n).drop i = digits base h (n / base ^ i) := by
  induction i generalizing n with
  | zero => simp
  | succ i ih =>
    by_cases hn : n = 0
    · rw [hn, Nat.zero_div, digits, if_pos rfl, List.drop_nil]
    · rw [digits, if_neg hn, List.drop_succ_cons, ih, Nat.div_div_eq_div_mul, pow_succ']

theorem digits_lt (n : Nat) : ∀ d ∈ digits base h n, d < base := by
  induction n using digits.induct base h with
  | case1 =>
    rw [digits, if_pos rfl]
    simp
  | case2 n hn ih =>
    rw [digits, if_neg hn, List.forall_mem_cons]
    exact ⟨Nat.mod_lt n (by omega), ih⟩

/-- The digits of a number spell it. -/
theorem number_reverse_digits (n : Nat) : number base (digits base h n).reverse = n := by
  induction n using digits.induct base h with
  | case1 =>
    rw [digits, if_pos rfl]
    rfl
  | case2 n hn ih =>
    rw [digits, if_neg hn, number, List.reverse_cons, List.foldl_append, ← number, ih]
    exact Nat.div_add_mod n base

/-- A numeral without zeros in front has the digits of its number. -/
theorem reverse_digits_number {ds : List Nat} (hhead : ds.headD 1 ≠ 0) (hds : ∀ d ∈ ds, d < base) :
    (digits base h (number base ds)).reverse = ds := by
  induction ds using List.reverseRecOn with
  | nil =>
    rw [number, List.foldl_nil, digits, if_pos rfl]
    rfl
  | append_singleton ds d ih =>
    rw [List.forall_mem_append, List.forall_mem_singleton] at hds
    have hnumber : number base (ds ++ [d]) = base * number base ds + d := by
      rw [number, List.foldl_append]
      rfl
    have hfront : (digits base h (number base ds)).reverse = ds := by
      cases ds with
      | nil => exact ih Nat.one_ne_zero hds.1
      | cons => exact ih hhead hds.1
    have hne : base * number base ds + d ≠ 0 := by
      intro hzero
      rw [Nat.add_eq_zero_iff, Nat.mul_eq_zero] at hzero
      rw [hzero.1.resolve_left (by omega), digits, if_pos rfl, List.reverse_nil] at hfront
      rw [← hfront, hzero.2] at hhead
      exact hhead rfl
    have hquotient : (base * number base ds + d) / base = number base ds := by
      rw [Nat.mul_add_div (by omega), Nat.div_eq_of_lt hds.2, Nat.add_zero]
    rw [hnumber, digits, if_neg hne, List.reverse_cons, hquotient, hfront, Nat.mul_add_mod,
      Nat.mod_eq_of_lt hds.2]

/-- The digits of a number, from those of what is left of it without the lowest ones. -/
theorem reverse_digits {n i lead : Nat} (hlead : n / base ^ i = lead) (hpos : 0 < lead) :
    ∃ rest, (digits base h n).reverse = (digits base h lead).reverse ++ rest ∧
      rest.length = i := by
  refine ⟨((digits base h n).take i).reverse, ?_, ?_⟩
  · rw [← hlead, ← drop_digits, ← List.reverse_append, List.take_append_drop]
  · have hne : (digits base h n).drop i ≠ [] := by
      rw [drop_digits, hlead, digits, if_neg (by omega)]
      exact List.cons_ne_nil _ _
    rw [List.length_reverse, List.length_take]
    have hlt : i < (digits base h n).length := by simpa using hne
    omega

end Digits

theorem headD_append_ne {bytes : List UInt8} (h : bytes.headD 0 ≠ 0) (rest : List UInt8) :
    (bytes ++ rest).headD 0 ≠ 0 := by
  cases bytes with
  | nil => exact absurd rfl h
  | cons b bytes => exact h

/-- The letter of a digit. -/
def letter (d : Nat) : Char := alphabet.getD d '1'

/-- The letters are ordered as the digits are. -/
theorem compare_letter : ∀ d < 58, ∀ e < 58, compare (letter d) (letter e) = compare d e := by
  decide +kernel

/-- The digits that a text spells. -/
def values (text : String) : List Nat := text.toList.map (alphabet.idxOf ·)

theorem letter_idxOf {c : Char} (h : c ∈ alphabet) : letter (alphabet.idxOf c) = c := by
  have hall : alphabet.all (fun c => letter (alphabet.idxOf c) == c) = true := by decide +kernel
  exact eq_of_beq (List.all_eq_true.mp hall c h)

theorem map_letter_values {text : String} (h : ∀ c ∈ text.toList, c ∈ alphabet) :
    (values text).map letter = text.toList := by
  rw [values, List.map_map]
  exact (List.map_congr_left fun c hc => letter_idxOf (h c hc)).trans (List.map_id _)

/-- The number that a byte string is. -/
def numberOf (bytes : List UInt8) : Nat := number 256 (bytes.map UInt8.toNat)

/-- Without zeros in front, a byte string is written as a numeral. -/
theorem toList_encode {bytes : List UInt8} (h : bytes.headD 0 ≠ 0) :
    (encode bytes).toList = (digits 58 (by decide) (numberOf bytes)).reverse.map letter := by
  cases bytes with
  | nil => exact absurd rfl h
  | cons b bytes =>
    have hzeros : (b :: bytes).takeWhile (· = 0) = [] :=
      List.takeWhile_cons_of_neg (by simpa using h)
    rw [encode, hzeros, String.toList_ofList]
    rfl

theorem forall_mem_map_toNat_lt (bytes : List UInt8) : ∀ d ∈ bytes.map UInt8.toNat, d < 256 := by
  simp only [List.mem_map]
  rintro _ ⟨b, -, rfl⟩
  exact b.toNat_lt

theorem numberOf_lt (bytes : List UInt8) : numberOf bytes < 256 ^ bytes.length := by
  have hlt := number_lt (forall_mem_map_toNat_lt bytes)
  rwa [List.length_map] at hlt

theorem numberOf_append (bytes bytes' : List UInt8) :
    numberOf (bytes ++ bytes') = 256 ^ bytes'.length * numberOf bytes + numberOf bytes' := by
  rw [numberOf, List.map_append, number_append, List.length_map, ← numberOf, ← numberOf]

theorem compare_numberOf {bytes bytes' : List UInt8} (h : bytes.length = bytes'.length) :
    compare (numberOf bytes) (numberOf bytes') = compare bytes bytes' := by
  rw [numberOf, numberOf, compare_number (by simpa using h) (forall_mem_map_toNat_lt _)
    (forall_mem_map_toNat_lt _)]
  exact compare_map fun b _ b' _ => compare_toNat b b'

/-- **Texts of one length** without zeros in front are ordered as their bytes are. -/
theorem compare_encode {bytes bytes' : List UInt8} (hzero : bytes.headD 0 ≠ 0)
    (hzero' : bytes'.headD 0 ≠ 0) (hbytes : bytes.length = bytes'.length)
    (htexts : (encode bytes).toList.length = (encode bytes').toList.length) :
    compare (encode bytes).toList (encode bytes').toList = compare bytes bytes' := by
  rw [toList_encode hzero, toList_encode hzero'] at htexts ⊢
  rw [List.length_map, List.length_map] at htexts
  have hlt (n : Nat) : ∀ d ∈ (digits 58 (by decide) n).reverse, d < 58 := by
    intro d hd
    exact digits_lt n d (List.mem_reverse.mp hd)
  calc compare _ _
      = compare _ _ := compare_map fun d hd e he => compare_letter d (hlt _ d hd) e (hlt _ e he)
    _ = compare _ _ := (compare_number htexts (hlt _) (hlt _)).symm
    _ = compare (numberOf bytes) (numberOf bytes') := by
        rw [number_reverse_digits, number_reverse_digits]
    _ = compare bytes bytes' := compare_numberOf hbytes

theorem length_checksum (bytes : List UInt8) : (checksum bytes).length = 4 := by
  have hdigest (message : List UInt8) : (Sha256.digest message).length = 32 := by
    simp [Sha256.digest, Sha256.State.words, Sha256.bytesOf]
  rw [checksum, List.length_take, hdigest]
  rfl

end Text.Base58

namespace Identifier

open Text.Base58

namespace Format

/-- **What all texts of a format begin with**: these characters, and as many others for every
payload. -/
structure BeginsWith (format : Format) (lead : String) : Prop where
  mark : format.mark.headD 0 ≠ 0
  texts : ∃ count, ∀ payload, payload.length = format.length →
    ∃ rest, (format.write payload).toList = lead.toList ++ rest ∧ rest.length = count

/-- Whether the digits of a text are those in front of the least and of the greatest number that have
the mark of the format in front. -/
def IsLead (format : Format) (text : String) : Prop :=
  format.mark.headD 0 ≠ 0 ∧ (values text).headD 0 ≠ 0 ∧ text.toList.all (· ∈ alphabet) ∧
    ∃ count < 2 * (format.mark.length + format.length + 4),
      58 ^ count * number 58 (values text) ≤ 256 ^ (format.length + 4) * numberOf format.mark ∧
      256 ^ (format.length + 4) * (numberOf format.mark + 1) ≤
        58 ^ count * (number 58 (values text) + 1)

instance (format : Format) (text : String) : Decidable (format.IsLead text) :=
  inferInstanceAs (Decidable (_ ∧ _ ∧ _ ∧ _))

/-- **What a format begins with is told by its mark**, since all numbers between two that have some
digits in front have the same digits in front. -/
theorem IsLead.beginsWith {format : Format} {text : String} (h : format.IsLead text) :
    format.BeginsWith text where
  mark := h.1
  texts := by
    obtain ⟨hmark, hhead, hall, count, -, hlow, hhigh⟩ := h
    have hchars : ∀ c ∈ text.toList, c ∈ alphabet := fun c hc =>
      of_decide_eq_true (List.all_eq_true.mp hall c hc)
    refine ⟨count, fun payload hpayload => ?_⟩
    let below := payload ++ checksum (format.mark ++ payload)
    have hlength : below.length = format.length + 4 := by
      rw [List.length_append, hpayload, length_checksum]
    have hbelow := numberOf_lt below
    rw [hlength] at hbelow
    rw [Nat.mul_add_one] at hhigh
    have hquotient : numberOf (format.mark ++ below) / 58 ^ count = number 58 (values text) := by
      rw [numberOf_append, hlength]
      refine Nat.div_eq_of_lt_le ?_ ?_
      · rw [Nat.mul_comm (number 58 _)]
        omega
      · rw [Nat.mul_comm (number 58 _ + 1)]
        omega
    have hvalues : ∀ d ∈ values text, d < 58 := by
      simp only [values, List.mem_map]
      rintro _ ⟨c, hc, rfl⟩
      exact List.idxOf_lt_length_of_mem (hchars c hc)
    have hhead' : (values text).headD 1 ≠ 0 := by
      cases hcase : values text with
      | nil => exact Nat.one_ne_zero
      | cons =>
        rw [hcase] at hhead
        exact hhead
    have hlead := reverse_digits_number (h := by decide) hhead' hvalues
    have hpos : number 58 (values text) ≠ 0 := by
      intro hzero
      rw [hzero, digits, if_pos rfl] at hlead
      rw [← hlead] at hhead
      exact hhead rfl
    obtain ⟨rest, hdigits, hrest⟩ := reverse_digits hquotient (Nat.pos_of_ne_zero hpos)
    refine ⟨rest.map letter, ?_, by rw [List.length_map, hrest]⟩
    have hzero : (format.mark ++ below).headD 0 ≠ 0 := headD_append_ne hmark below
    rw [write, encodeChecked, List.append_assoc, toList_encode hzero, hdigits, List.map_append,
      hlead, map_letter_values hchars]

variable {format format' : Format} {lead lead' : String} {payload payload' : List UInt8}

theorem length_write_eq (h : format.BeginsWith lead) (hpayload : payload.length = format.length)
    (hpayload' : payload'.length = format.length) :
    (format.write payload).toList.length = (format.write payload').toList.length := by
  obtain ⟨count, htexts⟩ := h.texts
  obtain ⟨rest, htext, hrest⟩ := htexts payload hpayload
  obtain ⟨rest', htext', hrest'⟩ := htexts payload' hpayload'
  rw [htext, htext', List.length_append, List.length_append, hrest, hrest']

/-- **Texts of one format** are ordered as their payloads are. The checksum, which stands behind,
decides nothing. -/
theorem compare_write (h : format.BeginsWith lead) (hpayload : payload.length = format.length)
    (hpayload' : payload'.length = format.length) :
    compare (format.write payload) (format.write payload') = compare payload payload' := by
  have hmark := h.mark
  have htexts := length_write_eq h hpayload hpayload'
  have hbytes : payload.length = payload'.length := hpayload.trans hpayload'.symm
  rw [write, encodeChecked, List.append_assoc] at htexts ⊢
  rw [write, encodeChecked, List.append_assoc] at htexts ⊢
  rw [compare_string, compare_encode (headD_append_ne hmark _) (headD_append_ne hmark _)
    (by simp [hbytes, length_checksum]) htexts, compare_append rfl, compare_append hbytes,
    Std.ReflOrd.compare_self, Ordering.eq_then]
  cases hcompare : compare payload payload' with
  | lt | gt => rfl
  | eq =>
    obtain rfl := Std.LawfulEqOrd.eq_of_compare hcompare
    rw [Std.ReflOrd.compare_self]
    rfl

/-- **Texts of two formats** are ordered as what they begin with. -/
theorem compare_write_append (h : format.BeginsWith lead) (h' : format'.BeginsWith lead')
    (hlead : ¬lead.toList <+: lead'.toList) (hlead' : ¬lead'.toList <+: lead.toList)
    (hpayload : payload.length = format.length) (hpayload' : payload'.length = format'.length)
    (s s' : String) :
    compare (format.write payload ++ s) (format'.write payload' ++ s') = compare lead lead' := by
  obtain ⟨count, htexts⟩ := h.texts
  obtain ⟨count', htexts'⟩ := h'.texts
  obtain ⟨rest, htext, -⟩ := htexts payload hpayload
  obtain ⟨rest', htext', -⟩ := htexts' payload' hpayload'
  rw [compare_string, compare_string lead, String.toList_append, String.toList_append, htext,
    htext', List.append_assoc, List.append_assoc, compare_append_of_not_prefix hlead hlead']

end Format

end Identifier

end Michelson

import Mathlib.Data.List.TakeWhile
import Michelson.Identifier.Format
import Michelson.Proofs.Identifier.TextOrder
import Michelson.Proofs.Success

/-!
# Identifiers read back from their texts

A byte string is a numeral in base 256, and its text is the numeral of the same number in base 58
with as many zeros in front. To spell a numeral in another base and back again changes nothing, so
that writing and reading undo each other, with the checksum and without it. What a format writes is
read back with its mark, and nothing else is read as it.

## Main definitions

* `Text.Base58.respell`: the numeral of the same number in another base

## Main results

* `Text.Base58.respell_respell`: a numeral is spelled back
* `Text.Base58.decode?_eq_some_iff`, `decodeChecked?_eq_some_iff`: byte strings and their texts
* `Identifier.decodeText_eq_ok_iff`, `Identifier.payload?_eq_some_iff`: what a format writes
-/

namespace Michelson

namespace Text.Base58

/-! ## Numerals in two bases -/

section Numerals

variable {base base' : Nat}

/-- The highest digit of a number is not zero. -/
theorem ne_zero_of_head?_reverse_digits {h : 2 ≤ base} (n : Nat) :
    ∀ d ∈ (digits base h n).reverse.head?, d ≠ 0 := by
  induction n using digits.induct base h with
  | case1 =>
    rw [digits, if_pos rfl]
    simp
  | case2 n hn ih =>
    rw [digits, if_neg hn, List.reverse_cons, List.head?_append]
    cases hfront : (digits base h (n / base)).reverse.head? with
    | some d =>
      rw [hfront] at ih
      simpa using ih
    | none =>
      have hzero : n / base = 0 := by
        by_contra hne
        rw [digits, if_neg hne] at hfront
        simp at hfront
      have hmod : n % base ≠ 0 := by
        intro hmod
        have hsum := Nat.div_add_mod n base
        rw [hzero, hmod, Nat.mul_zero] at hsum
        exact hn hsum.symm
      simpa using hmod

theorem takeWhile_reverse_digits {h : 2 ≤ base} (n : Nat) :
    (digits base h n).reverse.takeWhile (· = 0) = [] := by
  have hhead := ne_zero_of_head?_reverse_digits (h := h) n
  cases hdigits : (digits base h n).reverse with
  | nil => rfl
  | cons d ds =>
    rw [hdigits] at hhead
    exact List.takeWhile_cons_of_neg (by simpa using hhead d rfl)

/-- Zeros in front do not count. -/
theorem number_takeWhile_append (ds es : List Nat) :
    number base (ds.takeWhile (· = 0) ++ es) = number base es := by
  have hzeros : ∀ zs : List Nat, (∀ d ∈ zs, d = 0) → number base zs = 0 := by
    intro zs hzs
    induction zs with
    | nil => rfl
    | cons d zs ih =>
      rw [List.forall_mem_cons] at hzs
      rw [number_cons, hzs.1, ih hzs.2, Nat.mul_zero]
  have hall : ∀ d ∈ ds.takeWhile (· = 0), d = 0 := fun d hd => by
    simpa using List.mem_takeWhile_imp hd
  rw [number_append, hzeros _ hall, Nat.mul_zero, Nat.zero_add]

/-- A numeral is the zeros in front of it and the digits of its number. -/
theorem takeWhile_append_digits {h : 2 ≤ base} {ds : List Nat} (hds : ∀ d ∈ ds, d < base) :
    ds.takeWhile (· = 0) ++ (digits base h (number base ds)).reverse = ds := by
  have hsplit : ds.takeWhile (· = 0) ++ ds.dropWhile (· = 0) = ds := List.takeWhile_append_dropWhile
  have hnumber : number base ds = number base (ds.dropWhile (· = 0)) := by
    rw [← number_takeWhile_append ds (ds.dropWhile (· = 0)), hsplit]
  have hhead : (ds.dropWhile (· = 0)).headD 1 ≠ 0 := by
    cases hrest : ds.dropWhile (· = 0) with
    | nil => exact Nat.one_ne_zero
    | cons d rest =>
      have hd := List.head_dropWhile_not (· = 0) (l := ds) (by simp [hrest])
      simpa [hrest] using hd
  have hlt : ∀ d ∈ ds.dropWhile (· = 0), d < base := fun d hd =>
    hds d ((List.dropWhile_suffix _).subset hd)
  rw [hnumber, reverse_digits_number hhead hlt, hsplit]

/-- **The numeral of the same number in another base**, with as many zeros in front. -/
def respell (base base' : Nat) (h : 2 ≤ base') (ds : List Nat) : List Nat :=
  ds.takeWhile (· = 0) ++ (digits base' h (number base ds)).reverse

variable {h : 2 ≤ base} {h' : 2 ≤ base'} {ds : List Nat}

theorem lt_of_mem_respell : ∀ d ∈ respell base base' h' ds, d < base' := by
  rw [respell, List.forall_mem_append]
  constructor
  · intro d hd
    obtain rfl : d = 0 := by simpa using List.mem_takeWhile_imp hd
    omega
  · intro d hd
    exact digits_lt _ d (List.mem_reverse.mp hd)

/-- **A numeral is spelled back** from another base. -/
theorem respell_respell (hds : ∀ d ∈ ds, d < base) :
    respell base' base h (respell base base' h' ds) = ds := by
  have hzeros : (respell base base' h' ds).takeWhile (· = 0) = ds.takeWhile (· = 0) := by
    have hall : ∀ d ∈ ds.takeWhile (· = 0), (fun d => decide (d = 0)) d = true := fun _ =>
      List.mem_takeWhile_imp
    rw [respell, List.takeWhile_append_of_pos hall, takeWhile_reverse_digits, List.append_nil]
  have hnumber : number base' (respell base base' h' ds) = number base ds := by
    rw [respell, number_takeWhile_append, number_reverse_digits]
  rw [respell, hzeros, hnumber, takeWhile_append_digits hds]

end Numerals

/-! ## Byte strings and texts -/

theorem toList_encode_eq (bytes : List UInt8) :
    (encode bytes).toList =
      (respell 256 58 (by decide) (bytes.map UInt8.toNat)).map letter := by
  have hzeros : (bytes.takeWhile (· = 0)).map (fun _ => '1') =
      ((bytes.map UInt8.toNat).takeWhile (· = 0)).map letter := by
    have hzero : ((fun d : Nat => decide (d = 0)) ∘ UInt8.toNat) = fun b => decide (b = 0) := by
      funext b
      rw [Function.comp, decide_eq_decide, ← UInt8.toNat_inj]
      rfl
    rw [List.takeWhile_map, hzero, List.map_map]
    refine List.map_congr_left fun b hb => ?_
    obtain rfl : b = 0 := by simpa using List.mem_takeWhile_imp hb
    rfl
  rw [encode, String.toList_ofList, hzeros, respell, List.map_append]
  rfl

theorem idxOf?_eq_some_iff {c : Char} {d : Nat} :
    alphabet.idxOf? c = some d ↔ d < 58 ∧ letter d = c := by
  have hletter : ∀ d < 58, alphabet.idxOf? (letter d) = some d := by decide
  constructor
  · intro h
    obtain ⟨hlt, hc, -⟩ := List.idxOf?_eq_some_iff.mp h
    refine ⟨hlt, ?_⟩
    rw [← hc, letter, List.getD_eq_getElem?_getD, List.getElem?_eq_getElem hlt, Option.getD_some]
  · rintro ⟨hlt, rfl⟩
    exact hletter d hlt

/-- The digits that are read are those that the letters stand for. -/
theorem mapM_idxOf?_eq_some_iff {cs : List Char} {ds : List Nat} :
    cs.mapM (alphabet.idxOf? ·) = some ds ↔ (∀ d ∈ ds, d < 58) ∧ ds.map letter = cs := by
  induction cs generalizing ds with
  | nil => cases ds <;> simp
  | cons c cs ih =>
    rw [List.mapM_cons]
    constructor
    · intro h
      obtain ⟨d, hd, h⟩ := Option.bind_eq_some_iff.mp h
      obtain ⟨es, hes, h⟩ := Option.bind_eq_some_iff.mp h
      cases h
      obtain ⟨hlt, rfl⟩ := idxOf?_eq_some_iff.mp hd
      obtain ⟨hlts, rfl⟩ := ih.mp hes
      exact ⟨List.forall_mem_cons.mpr ⟨hlt, hlts⟩, rfl⟩
    · rintro ⟨hlt, hmap⟩
      cases ds with
      | nil => cases hmap
      | cons d ds =>
        obtain ⟨rfl, hcs⟩ := List.cons.inj hmap
        rw [List.forall_mem_cons] at hlt
        rw [idxOf?_eq_some_iff.mpr ⟨hlt.1, rfl⟩, ih.mpr ⟨hlt.2, hcs⟩]
        rfl

/-- **Writing and reading undo each other**: a text is read as the byte string of which it is the
text, and as no other. -/
theorem decode?_eq_some_iff {text : String} {bytes : List UInt8} :
    decode? text = some bytes ↔ encode bytes = text := by
  have hdecode : decode? text = (text.toList.mapM (alphabet.idxOf? ·)).map fun ds =>
      (respell 58 256 (by decide) ds).map UInt8.ofNat := by
    have hzeros (ds : List Nat) : (ds.takeWhile (· = 0)).map (fun _ => (0 : UInt8)) =
        (ds.takeWhile (· = 0)).map UInt8.ofNat := by
      refine List.map_congr_left fun d hd => ?_
      obtain rfl : d = 0 := by simpa using List.mem_takeWhile_imp hd
      rfl
    unfold decode? respell
    cases text.toList.mapM (alphabet.idxOf? ·) with
    | none => rfl
    | some ds =>
      rw [Option.map_some, List.map_append, ← hzeros]
      rfl
  rw [hdecode, Option.map_eq_some_iff, ← String.toList_inj, toList_encode_eq]
  constructor
  · rintro ⟨ds, hds, rfl⟩
    obtain ⟨hlt, hmap⟩ := mapM_idxOf?_eq_some_iff.mp hds
    have hbytes : ((respell 58 256 (by decide) ds).map UInt8.ofNat).map UInt8.toNat =
        respell 58 256 (by decide) ds := by
      rw [List.map_map]
      refine (List.map_congr_left fun d hd => ?_).trans (List.map_id _)
      exact UInt8.toNat_ofNat_of_lt' (lt_of_mem_respell d hd)
    rw [hbytes, respell_respell hlt, hmap]
  · intro htext
    have hbytes : (bytes.map UInt8.toNat).map UInt8.ofNat = bytes := by
      rw [List.map_map]
      exact (List.map_congr_left fun b _ => UInt8.ofNat_toNat).trans (List.map_id _)
    refine ⟨_, mapM_idxOf?_eq_some_iff.mpr ⟨lt_of_mem_respell, htext⟩, ?_⟩
    rw [respell_respell (forall_mem_map_toNat_lt bytes), hbytes]

/-- **The same with the checksum** at the end of the bytes. -/
theorem decodeChecked?_eq_some_iff {text : String} {bytes : List UInt8} :
    decodeChecked? text = some bytes ↔ encodeChecked bytes = text := by
  rw [encodeChecked, ← decode?_eq_some_iff]
  constructor
  · intro h
    obtain ⟨all, hall, h⟩ := Option.bind_eq_some_iff.mp h
    dsimp only at h
    split at h
    next hcheck =>
      obtain rfl := Option.some.inj h
      rw [Bool.and_eq_true, decide_eq_true_eq, decide_eq_true_eq] at hcheck
      rw [← hcheck.2, List.take_append_drop, hall]
    next => cases h
  · intro h
    have hlength : (bytes ++ checksum bytes).length - 4 = bytes.length := by
      rw [List.length_append, length_checksum]
      omega
    simp only [decodeChecked?, h, bind, Option.bind, hlength, List.take_left, List.drop_left]
    rw [List.length_append, length_checksum]
    simp

end Text.Base58

namespace Identifier

open Text.Base58 (encodeChecked)

theorem decodeText_eq_ok_iff {text : String} {bytes : List UInt8} :
    decodeText text = .ok bytes ↔ encodeChecked bytes = text := by
  rw [← Text.Base58.decodeChecked?_eq_some_iff, decodeText]
  cases Text.Base58.decodeChecked? text <;> simp

/-- **What a format writes** is read back with its mark. -/
theorem decodeText_write (format : Format) (payload : List UInt8) :
    decodeText (format.write payload) = .ok (format.mark ++ payload) :=
  decodeText_eq_ok_iff.mpr rfl

/-- A payload is what stands behind the mark. -/
theorem payload?_eq_some_iff {format : Format} {bytes : List UInt8}
    {payload : FixedBytes format.length} :
    format.payload? bytes = some payload ↔ format.mark ++ payload.1 = bytes := by
  rw [Format.payload?]
  constructor
  · intro h
    split at h
    next hmark =>
      obtain ⟨rest, rfl⟩ := List.isPrefixOf_iff_prefix.mp hmark
      simp only [List.drop_left] at h
      split at h
      next => rw [← Option.some.inj h]
      next => cases h
    next => cases h
  · rintro rfl
    have hmark : format.mark.isPrefixOf (format.mark ++ payload.1) = true :=
      List.isPrefixOf_iff_prefix.mpr (List.prefix_append ..)
    rw [if_pos hmark]
    simp only [List.drop_left, dif_pos payload.2]

end Identifier

end Michelson

import Mathlib.Data.List.Basic
import Michelson.Binary.Zarith
import Michelson.Proofs.Binary.Reader

/-!
# Reading back integers

The bytes of an integer tell where they end, so an integer is read back whatever follows it.

## Main results

* `spellTail_encodeTail`: the groups after the first spell what they were cut from
* `takes_read`: an integer is read back from its bytes
-/

namespace Michelson.Binary.Zarith

theorem lt_128_iff (b : UInt8) : b < 128 ↔ b.toNat < 128 := UInt8.lt_iff_toNat_lt

theorem toNat_ofNat_of_lt {n : Nat} (h : n < 256) : (UInt8.ofNat n).toNat = n := by
  rw [UInt8.toNat_ofNat']
  exact Nat.mod_eq_of_lt h

theorem encodeTail_zero : encodeTail 0 = [] := by
  rw [encodeTail, if_pos rfl]

/-- The further bytes of an integer spell it, whatever follows them: of all these bytes just the
last has no high bit. -/
theorem spellTail_encodeTail (n : Nat) (rest : List UInt8) (hn : n ≠ 0) :
    spellTail (encodeTail n ++ rest) = some (n, (encodeTail n).length) := by
  induction n using Nat.strongRecOn with
  | ind n ih =>
    rw [encodeTail, if_neg hn]
    by_cases hmore : n / 128 = 0
    · have hval : (UInt8.ofNat (n % 128 + 0)).toNat = n := by
        rw [toNat_ofNat_of_lt] <;> omega
      have hlast : UInt8.ofNat (n % 128 + 0) < 128 := by
        rw [lt_128_iff, hval]
        omega
      simp only [hmore, if_true, encodeTail_zero, List.cons_append, List.nil_append, spellTail,
        if_pos hlast, hval, List.length_singleton]
    · have hval : (UInt8.ofNat (n % 128 + 128)).toNat = n % 128 + 128 :=
        toNat_ofNat_of_lt (by omega)
      have hnext : ¬ UInt8.ofNat (n % 128 + 128) < 128 := by
        rw [lt_128_iff, hval]
        omega
      have hsum : n % 128 + 128 - 128 + 128 * (n / 128) = n := by omega
      simp only [if_neg hmore, List.cons_append, spellTail, if_neg hnext,
        ih (n / 128) (by omega) hmore, Option.map_some, hval, hsum, List.length_cons]

theorem takes_readTail {n : Nat} (hn : n ≠ 0) : readTail.Takes (encodeTail n) n := by
  intro offset rest
  simp only [readTail, spellTail_encodeTail n rest hn, List.drop_left]

/-- **An integer is read back** from its bytes. -/
theorem takes_read (n : Int) : read.Takes (encode n) n := by
  -- The first byte holds the two highest bits, `sign` and `follow`, and six bits of the number;
  -- the two bits are named so that `omega` sees them as numbers.
  obtain ⟨sign, hsign, hneg⟩ : ∃ sign, (if n < 0 then 64 else 0) = sign ∧
      (n < 0 ∧ sign = 64 ∨ 0 ≤ n ∧ sign = 0) := by
    by_cases h : n < 0
    · exact ⟨64, if_pos h, .inl ⟨h, rfl⟩⟩
    · exact ⟨0, if_neg h, .inr ⟨by omega, rfl⟩⟩
  obtain ⟨follow, hfollow, hmore⟩ : ∃ follow, (if n.natAbs / 64 = 0 then 0 else 128) = follow ∧
      (n.natAbs / 64 = 0 ∧ follow = 0 ∨ n.natAbs / 64 ≠ 0 ∧ follow = 128) := by
    by_cases h : n.natAbs / 64 = 0
    · exact ⟨0, if_pos h, .inl ⟨h, rfl⟩⟩
    · exact ⟨128, if_neg h, .inr ⟨h, rfl⟩⟩
  have hval : (UInt8.ofNat (n.natAbs % 64 + sign + follow)).toNat =
      n.natAbs % 64 + sign + follow := toNat_ofNat_of_lt (by omega)
  have hbytes : encode n =
      [UInt8.ofNat (n.natAbs % 64 + sign + follow)] ++ (encodeTail (n.natAbs / 64) ++ []) := by
    simp only [encode, hsign, hfollow, List.append_nil, List.cons_append, List.nil_append]
  have hsum : (n.natAbs % 64 + sign + follow) % 64 + 64 * (n.natAbs / 64) = n.natAbs := by omega
  have hread : (if (n.natAbs % 64 + sign + follow) / 64 % 2 = 1 then -(n.natAbs : Int)
      else (n.natAbs : Int)) = n := by
    rcases hneg with ⟨hlt, rfl⟩ | ⟨hge, rfl⟩
    · rw [if_pos (by omega)]
      omega
    · rw [if_neg (by omega)]
      omega
  rw [hbytes, read]
  refine (Reader.takes_byte _).bind ?_
  simp only [lt_128_iff, hval]
  rcases hmore with ⟨hzero, rfl⟩ | ⟨hpos, rfl⟩
  · rw [if_pos (by omega), hzero, encodeTail_zero]
    refine (Reader.takes_pure 0).bind ?_
    rw [hzero] at hsum
    rw [hsum, hread]
    exact Reader.takes_pure n
  · rw [if_neg (by omega)]
    refine (takes_readTail hpos).bind ?_
    rw [hsum, hread]
    exact Reader.takes_pure n

end Michelson.Binary.Zarith

import Michelson.Proofs.Binary.Normalization

/-!
# The canonical bytes of integers

The bytes of an integer can be told without saying how they are written. The high bit of a byte
says whether another one follows, the next bit of the first byte is the sign, and the other bits
spell the magnitude from the lowest on, with a last byte that is not idle. For every integer there
is just one byte string of this form. It is the one that is written, it is read back in front of
anything, and it is the shortest from which the integer is read.

## Main definitions

* `Zarith.groups`, `Zarith.magnitude`: the numbers that bytes spell
* `Zarith.Marked`: bytes that tell where they end
* `Zarith.IsCanonical`: the canonical bytes of an integer

## Main results

* `Zarith.encodeTail_canonical`, `Zarith.eq_encodeTail`: the bytes after the first one
* `Zarith.encode_canonical`: the bytes of an integer
-/

namespace Michelson.Binary.Zarith

/-! ## What bytes spell -/

/-- The number that bytes spell with seven bits each, the lowest first. -/
def groups : List UInt8 → Nat
  | [] => 0
  | b :: rest => b.toNat % 128 + 128 * groups rest

/-- The number that bytes spell with six bits of the first of them and seven of each further one,
the lowest first. -/
def magnitude : List UInt8 → Nat
  | [] => 0
  | first :: more => first.toNat % 64 + 64 * groups more

/-- **Whether bytes tell where they end**: the high bit is set on every byte but the last. -/
def Marked (bytes : List UInt8) : Prop :=
  ∀ i b, bytes[i]? = some b → (b.toNat.testBit 7 = true ↔ i + 1 < bytes.length)

/-- **The canonical bytes of an integer.** -/
structure IsCanonical (n : Int) (bytes : List UInt8) : Prop where
  ne_nil : bytes ≠ []
  /-- The high bit is set on every byte but the last. -/
  marked : Marked bytes
  /-- The last byte is not zero, unless it is the only one. -/
  last_ne_zero : bytes.length = 1 ∨ bytes.getLast? ≠ some 0
  /-- The bit below the high one of the first byte is the sign. -/
  sign : ∀ first, bytes.head? = some first → (first.toNat.testBit 6 = true ↔ n < 0)
  /-- The remaining bits spell the magnitude. -/
  magnitude_eq : magnitude bytes = n.natAbs

theorem testBit_seven_iff (b : UInt8) : b.toNat.testBit 7 = true ↔ 128 ≤ b.toNat := by
  have hb : b.toNat < 256 := b.toNat_lt
  rw [Nat.testBit_eq_decide_div_mod_eq, decide_eq_true_iff]
  omega

theorem testBit_six_iff (b : UInt8) : b.toNat.testBit 6 = true ↔ b.toNat / 64 % 2 = 1 := by
  rw [Nat.testBit_eq_decide_div_mod_eq, decide_eq_true_iff]

theorem marked_nil : Marked [] := fun _ _ h => nomatch h

/-- A byte has its high bit set just if others follow, which are marked themselves. -/
theorem marked_cons_iff {b : UInt8} {rest : List UInt8} :
    Marked (b :: rest) ↔ (128 ≤ b.toNat ↔ rest ≠ []) ∧ Marked rest := by
  have hfirst : b.toNat.testBit 7 = true ↔ 128 ≤ b.toNat := testBit_seven_iff b
  have hlength : 0 + 1 < (b :: rest).length ↔ rest ≠ [] := by
    rw [List.length_cons, ← List.length_pos_iff]
    omega
  constructor
  · intro h
    refine ⟨hfirst.symm.trans ((h 0 b rfl).trans hlength), fun i c hc => ?_⟩
    exact (h (i + 1) c hc).trans (by rw [List.length_cons, Nat.add_lt_add_iff_right])
  · rintro ⟨hb, hrest⟩ i c hc
    cases i with
    | zero =>
      cases hc
      exact hfirst.trans (hb.trans hlength.symm)
    | succ i => exact (hrest i c hc).trans (by rw [List.length_cons, Nat.add_lt_add_iff_right])

/-- The last of some bytes is the last of all. -/
theorem getLast?_ne_zero_of_cons {b : UInt8} {rest : List UInt8}
    (h : (b :: rest).getLast? ≠ some 0) : rest.getLast? ≠ some 0 := by
  intro hrest
  rw [List.getLast?_cons, hrest] at h
  exact h rfl

/-! ## The bytes after the first one -/

/-- The bytes of a number begin with its lowest seven bits. -/
theorem exists_encodeTail_eq_cons {n : Nat} (hn : n ≠ 0) :
    ∃ b : UInt8, encodeTail n = b :: encodeTail (n / 128) ∧
      b.toNat = n % 128 + if n / 128 = 0 then 0 else 128 := by
  refine ⟨_, by rw [encodeTail, if_neg hn], toNat_ofNat_of_lt ?_⟩
  split <;> omega

theorem encodeTail_eq_nil_iff {n : Nat} : encodeTail n = [] ↔ n = 0 := by
  constructor
  · intro h
    by_contra hn
    obtain ⟨b, hb, -⟩ := exists_encodeTail_eq_cons hn
    rw [hb] at h
    cases h
  · rintro rfl
    exact encodeTail_zero

/-- The further bytes of a number tell where they end, which is not with zero, and spell the
number. -/
theorem encodeTail_canonical (n : Nat) :
    Marked (encodeTail n) ∧ (encodeTail n).getLast? ≠ some 0 ∧ groups (encodeTail n) = n := by
  induction n using Nat.strongRecOn with
  | ind n ih =>
    by_cases hn : n = 0
    · subst hn
      rw [encodeTail_zero]
      exact ⟨marked_nil, by simp, rfl⟩
    · obtain ⟨b, hb, hval⟩ := exists_encodeTail_eq_cons hn
      obtain ⟨hmarked, hlast, hgroups⟩ := ih (n / 128) (by omega)
      rw [hb]
      refine ⟨marked_cons_iff.mpr ⟨?_, hmarked⟩, ?_, ?_⟩
      · rw [Ne, encodeTail_eq_nil_iff, hval]
        split <;> omega
      · by_cases hmore : n / 128 = 0
        · rw [hmore, encodeTail_zero, List.getLast?_singleton]
          rintro ⟨⟩
          rw [if_pos hmore] at hval
          have hzero : n % 128 + 0 = 0 := hval.symm
          omega
        · rwa [List.getLast?_cons_of_ne_nil (mt encodeTail_eq_nil_iff.mp hmore)]
      · rw [groups, hgroups, hval]
        split <;> omega

/-- **No other bytes** spell the same number and are of the same form. -/
theorem eq_encodeTail {bytes : List UInt8} (hmarked : Marked bytes)
    (hlast : bytes.getLast? ≠ some 0) : bytes = encodeTail (groups bytes) := by
  induction bytes with
  | nil => exact encodeTail_zero.symm
  | cons b rest ih =>
    obtain ⟨hb, hrest⟩ := marked_cons_iff.mp hmarked
    have heq := ih hrest (getLast?_ne_zero_of_cons hlast)
    have hend : rest = [] ↔ groups rest = 0 := by
      rw [← encodeTail_eq_nil_iff, ← heq]
    have hlt : b.toNat < 256 := b.toNat_lt
    have hne : groups (b :: rest) ≠ 0 := by
      intro hzero
      rw [groups] at hzero
      obtain rfl : rest = [] := hend.mpr (by omega)
      have hsmall : ¬ 128 ≤ b.toNat := fun h => hb.mp h rfl
      have hbzero : b = 0 := UInt8.toNat_inj.mp (show b.toNat = 0 by omega)
      exact hlast (by rw [hbzero, List.getLast?_singleton])
    have hdiv : groups (b :: rest) / 128 = groups rest := by
      rw [groups]
      omega
    obtain ⟨b', hb', hval⟩ := exists_encodeTail_eq_cons hne
    have hbyte : b = b' := by
      refine UInt8.toNat_inj.mp ?_
      rw [hval, hdiv, groups]
      rw [Ne, hend] at hb
      split <;> omega
    rw [hb', hdiv, ← heq, hbyte]

/-! ## The bytes of an integer -/

/-- The first byte of an integer holds the marks and the lowest six bits. -/
theorem exists_encode_eq_cons (n : Int) :
    ∃ first : UInt8, encode n = first :: encodeTail (n.natAbs / 64) ∧
      first.toNat = n.natAbs % 64 + (if n < 0 then 64 else 0) +
        if n.natAbs / 64 = 0 then 0 else 128 := by
  refine ⟨_, rfl, toNat_ofNat_of_lt ?_⟩
  split <;> split <;> omega

theorem isCanonical_encode (n : Int) : IsCanonical n (encode n) := by
  obtain ⟨first, hencode, hval⟩ := exists_encode_eq_cons n
  obtain ⟨hmarked, hlast, hgroups⟩ := encodeTail_canonical (n.natAbs / 64)
  rw [hencode]
  refine ⟨List.cons_ne_nil _ _, marked_cons_iff.mpr ⟨?_, hmarked⟩, ?_, ?_, ?_⟩
  · rw [Ne, encodeTail_eq_nil_iff, hval]
    split <;> split <;> omega
  · by_cases hmore : n.natAbs / 64 = 0
    · rw [hmore, encodeTail_zero]
      exact .inl rfl
    · exact .inr (by rwa [List.getLast?_cons_of_ne_nil (mt encodeTail_eq_nil_iff.mp hmore)])
  · rintro _ ⟨⟩
    rw [testBit_six_iff, hval]
    split <;> split <;> omega
  · rw [magnitude, hgroups, hval]
    split <;> split <;> omega

theorem IsCanonical.eq_encode {n : Int} {bytes : List UInt8} (h : IsCanonical n bytes) :
    bytes = encode n := by
  obtain ⟨first, more, rfl⟩ := List.exists_cons_of_ne_nil h.ne_nil
  obtain ⟨hfirst, hmore⟩ := marked_cons_iff.mp h.marked
  have hlast : more.getLast? ≠ some 0 := by
    rcases h.last_ne_zero with hone | hlast
    · rw [List.length_eq_zero_iff.mp (Nat.succ.inj hone)]
      simp
    · exact getLast?_ne_zero_of_cons hlast
  have heq := eq_encodeTail hmore hlast
  have hmagnitude : first.toNat % 64 + 64 * groups more = n.natAbs := h.magnitude_eq
  have hdiv : n.natAbs / 64 = groups more := by omega
  have hsign := (testBit_six_iff first).symm.trans (h.sign first rfl)
  have hlt : first.toNat < 256 := first.toNat_lt
  obtain ⟨first', hencode, hval⟩ := exists_encode_eq_cons n
  have hbyte : first = first' := by
    refine UInt8.toNat_inj.mp ?_
    rw [heq, Ne, encodeTail_eq_nil_iff] at hfirst
    rw [hval, hdiv]
    split <;> split <;> omega
  rw [hencode, hdiv, ← heq, hbyte]

/-- **Integers have canonical bytes.** Those that are written are the only byte string of the form.
Whatever follows them, they are read as the integer, and the reader stops behind them. A byte string
from which nothing but the integer is read is not shorter. -/
theorem encode_canonical (n : Int) :
    (∀ bytes, IsCanonical n bytes ↔ bytes = encode n) ∧
    (∀ offset rest, read ⟨offset, encode n ++ rest⟩ =
      .ok (n, ⟨offset + (encode n).length, rest⟩)) ∧
    ∀ offset offset' bytes, read ⟨offset, bytes⟩ = .ok (n, ⟨offset', []⟩) →
      (encode n).length ≤ bytes.length := by
  refine ⟨fun bytes => ⟨IsCanonical.eq_encode, ?_⟩, takes_read n, ?_⟩
  · rintro rfl
    exact isCanonical_encode n
  · intro offset offset' bytes hread
    obtain ⟨taken, hlength, hle⟩ := Reader.gives_zarith _ _ _ hread
    have htaken : bytes.length = taken + 0 := hlength
    omega

/-- The integer with the largest magnitude in two bytes, with a sign: canonical bytes, and others
with an idle byte behind them. -/
theorem encode_canonical_twoBytes :
    IsCanonical (-8191) [0xff, 0x7f] ∧
    read ⟨3, [0xff, 0x7f, 0x07]⟩ = .ok (-8191, ⟨5, [0x07]⟩) ∧
    read ⟨0, [0xff, 0xff, 0x00]⟩ = .ok (-8191, ⟨3, []⟩) ∧
    (encode (-8191)).length ≤ [0xff, 0xff, 0x00].length := by
  have hbytes : encode (-8191) = [0xff, 0x7f] := by decide +kernel
  have hread : read ⟨0, [0xff, 0xff, 0x00]⟩ = .ok (-8191, ⟨3, []⟩) := by rfl
  obtain ⟨hcanonical, htakes, hshortest⟩ := encode_canonical (-8191)
  rw [hbytes] at hcanonical htakes
  exact ⟨(hcanonical _).mpr rfl, htakes 3 [0x07], hread, hshortest 0 3 _ hread⟩

end Michelson.Binary.Zarith

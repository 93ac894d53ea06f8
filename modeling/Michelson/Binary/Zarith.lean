import Michelson.Binary.Reader

/-!
# Integers of any size in bytes

The magnitude of an integer is cut into groups of bits, six for the first byte and seven for
each further one, lowest first. The high bit of a byte says that another follows, and the next
bit of the first byte is the sign.

## Main definitions

* `Zarith.encode`: the bytes of an integer
* `Zarith.read`: the integer at the front of the input
-/

namespace Michelson.Binary.Zarith

/-- The bytes of the bits above the first group: none for zero, else seven bits a byte. -/
def encodeTail (n : Nat) : List UInt8 :=
  if n = 0 then []
  else
    let more := n / 128
    UInt8.ofNat (n % 128 + if more = 0 then 0 else 128) :: encodeTail more
termination_by n
decreasing_by omega

/-- **The bytes of an integer.** -/
def encode (n : Int) : List UInt8 :=
  let more := n.natAbs / 64
  let sign := if n < 0 then 64 else 0
  let follow := if more = 0 then 0 else 128
  UInt8.ofNat (n.natAbs % 64 + sign + follow) :: encodeTail more

/-- The number that the further bytes spell, and how many they are; the last of them has no high
bit. -/
def spellTail : List UInt8 → Option (Nat × Nat)
  | [] => none
  | b :: rest =>
    if b < 128 then some (b.toNat, 1)
    else (spellTail rest).map fun (n, count) => (b.toNat - 128 + 128 * n, count + 1)

/-- The number that the further bytes spell. If the input ends before them, it ends at the
offset of the failure. -/
def readTail : Reader Nat := fun c =>
  match spellTail c.rest with
  | some (n, count) => .ok (n, ⟨c.offset + count, c.rest.drop count⟩)
  | none => .error (.truncated (c.offset + c.rest.length))

/-- **The integer at the front of the input.** Neither zero with a sign nor a last byte of zero
is refused. -/
def read : Reader Int := do
  let first ← Reader.byte
  let more ← if first < 128 then pure 0 else readTail
  let magnitude : Int := ((first.toNat % 64 + 64 * more : Nat) : Int)
  return if first.toNat / 64 % 2 = 1 then -magnitude else magnitude

end Michelson.Binary.Zarith

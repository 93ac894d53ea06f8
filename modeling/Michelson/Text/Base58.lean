import Michelson.Hash.Sha256

/-!
# Base58 with a checksum

Bytes are written as a number in base 58, with a `1` for each zero byte in front. Four bytes of
a double hash at the end guard against slips.

## Main definitions

* `Base58.encode`, `Base58.decode?`: bytes as text in base 58
* `Base58.encodeChecked`, `Base58.decodeChecked?`: the same with the checksum
-/

namespace Michelson.Text.Base58

/-- The fifty-eight digits. -/
def alphabet : List Char :=
  "123456789ABCDEFGHJKLMNPQRSTUVWXYZabcdefghijkmnopqrstuvwxyz".toList

/-- The digits of a number in a base of two or more, the lowest first; zero has none. -/
def digits (base : Nat) (h : 2 ≤ base) (n : Nat) : List Nat :=
  if n = 0 then [] else n % base :: digits base h (n / base)
termination_by n
decreasing_by exact Nat.div_lt_self (by omega) h

/-- The number with the given digits, the highest first. -/
def number (base : Nat) (ds : List Nat) : Nat := ds.foldl (fun n d => base * n + d) 0

/-- The text of a byte string. -/
def encode (bytes : List UInt8) : String :=
  let zeros := bytes.takeWhile (· = 0)
  let n := number 256 (bytes.map UInt8.toNat)
  String.ofList (zeros.map (fun _ => '1')
    ++ (digits 58 (by decide) n).reverse.map fun d => alphabet.getD d '1')

/-- The byte string with a given text. -/
def decode? (text : String) : Option (List UInt8) := do
  let ds ← text.toList.mapM (alphabet.idxOf? ·)
  let zeros := ds.takeWhile (· = 0)
  let n := number 58 ds
  return zeros.map (fun _ => 0) ++ (digits 256 (by decide) n).reverse.map UInt8.ofNat

/-- The checksum of a byte string: four bytes of its double hash. -/
def checksum (bytes : List UInt8) : List UInt8 :=
  (Sha256.digest (Sha256.digest bytes)).take 4

/-- The text of a byte string and its checksum. -/
def encodeChecked (bytes : List UInt8) : String := encode (bytes ++ checksum bytes)

/-- The byte string with a given text, if the checksum at its end is right. -/
def decodeChecked? (text : String) : Option (List UInt8) := do
  let bytes ← decode? text
  let count := bytes.length - 4
  let front := bytes.take count
  if 4 ≤ bytes.length && bytes.drop count = checksum front then return front else none

end Michelson.Text.Base58

import Michelson.Text.Quoted
import Michelson.Text.Utf8

/-!
# Hexadecimal text

Bytes are written as two lower-case hexadecimal digits each; upper-case digits are read too.

## Main definitions

* `Hex.encode`: the digits of a byte string
* `Hex.decode`: the byte string that a text spells
* `Hex.Fault`: why a text spells none
-/

namespace Michelson.Text.Hex

/-- The lower-case digit of a value below sixteen. -/
def digit (value : Nat) : Char := Nat.digitChar value

/-- The two digits of a byte. -/
def encodeByte (byte : UInt8) : List Char := [digit (byte.toNat / 16), digit (byte.toNat % 16)]

/-- The digits of a byte string. -/
def encode (bytes : List UInt8) : String := String.ofList (bytes.flatMap encodeByte)

/-- Why a text is not hexadecimal. -/
inductive Fault where
  /-- The text has an odd number of bytes. -/
  | oddLength
  /-- The byte at the position is no hexadecimal digit. -/
  | badDigit (byte : UInt8) (position : Nat)
  deriving DecidableEq, Repr

/-- The wording of a fault. A byte is shown as the character of the same code. -/
def Fault.message : Fault → String
  | oddLength => "Odd number of digits"
  | badDigit byte position =>
    s!"Invalid character {quoteChar (Char.ofNat byte.toNat)} at position {position}"

/-- The value of a hexadecimal digit, given by its ASCII code. -/
def digitValue? (byte : UInt8) : Option UInt8 :=
  if 0x30 ≤ byte && byte ≤ 0x39 then some (byte - 0x30)
  else if 0x41 ≤ byte && byte ≤ 0x46 then some (byte - 0x37)
  else if 0x61 ≤ byte && byte ≤ 0x66 then some (byte - 0x57)
  else none

/-- The value of the digit at a position. -/
def readDigit (byte : UInt8) (position : Nat) : Except Fault UInt8 :=
  match digitValue? byte with
  | some value => .ok value
  | none => .error (.badDigit byte position)

/-- The bytes spelled by digits of which the first stands at the given position. -/
def decodeFrom (position : Nat) : List UInt8 → Except Fault (List UInt8)
  | [] => .ok []
  | [_] => .error .oddLength
  | high :: low :: rest => do
    let h ← readDigit high position
    let l ← readDigit low (position + 1)
    let bytes ← decodeFrom (position + 2) rest
    return (16 * h + l) :: bytes

/-- The bytes that a text spells. An odd length is reported before any bad digit. -/
def decode (text : String) : Except Fault (List UInt8) :=
  let digits := utf8 text
  if digits.length % 2 = 1 then .error .oddLength else decodeFrom 0 digits

end Michelson.Text.Hex

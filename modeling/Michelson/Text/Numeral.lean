/-!
# Whole numbers in text

Two grammars for decimal whole numbers. An integer of any size may group its digits with
underscores after the first one, as in `1_000`; a bounded number is digits alone. Both take a
sign.

## Main definitions

* `readInteger?`: an integer of any size
* `fitsWord`: the integers of 64 bits with a sign
* `readSigned?`, `readUnsigned?`: a number that fits in 64 bits, with and without sign
-/

namespace Michelson.Text

/-- The value of a decimal digit. -/
def digitValue? (c : Char) : Option Nat :=
  if c.isDigit then some (c.toNat - '0'.toNat) else none

/-- The number spelled by digits, with what was read so far in front. -/
def readDigits? (value : Nat) : List Char → Option Nat
  | [] => some value
  | c :: rest => match digitValue? c with
    | some digit => readDigits? (10 * value + digit) rest
    | none => none

/-- The natural number spelled by a non-empty list of digits. -/
def readNatural? : List Char → Option Nat
  | [] => none
  | cs => readDigits? 0 cs

/-- Digits that underscores may separate: the first character is a digit. -/
def readGrouped? : List Char → Option Nat
  | [] => none
  | c :: rest => if c = '_' then none else readNatural? ((c :: rest).filter (· ≠ '_'))

/-- An integer of any size: `-`, `+` or no sign, then digits, with underscores anywhere after
the first of them. -/
def readInteger? (text : String) : Option Int :=
  match text.toList with
  | '-' :: rest => (readGrouped? rest).map fun n => -(n : Int)
  | '+' :: rest => (readGrouped? rest).map fun n => (n : Int)
  | cs => (readGrouped? cs).map fun n => (n : Int)

/-- Whether an integer fits in 64 bits with a sign. -/
def fitsWord (n : Int) : Bool := -0x8000000000000000 ≤ n && n < 0x8000000000000000

/-- A whole number from −2⁶³ to 2⁶³ − 1: an optional sign and digits. -/
def readSigned? (text : String) : Option Int :=
  let value : Option Int := match text.toList with
    | '-' :: rest => (readNatural? rest).map fun n => -(n : Int)
    | '+' :: rest => (readNatural? rest).map fun n => (n : Int)
    | cs => (readNatural? cs).map fun n => (n : Int)
  value.filter fitsWord

/-- A whole number from 0 to 2⁶⁴ − 1: digits, after a `+` or not. -/
def readUnsigned? (text : String) : Option UInt64 :=
  let value : Option Nat := match text.toList with
    | '+' :: rest => readNatural? rest
    | cs => readNatural? cs
  (value.filter (· < UInt64.size)).map UInt64.ofNat

end Michelson.Text

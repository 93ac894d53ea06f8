/-!
# The shortest decimal of a float

A finite double stands for an interval of reals, those that round to it. Its shortest decimal is
the one with the fewest digits inside the interval, the nearest to the double among those, and of
two equally near ones the one with an even last digit. All is exact arithmetic on naturals.

## Main definitions

* `Binary`: a positive double, significand times a power of two
* `Binary.interval`: the reals that round to it
* `Scaled`: digits and the power of ten of the last one
* `Binary.shortest`: the shortest decimal
* `FloatText`, `FloatText.render`: a way to lay out decimals, and a float laid out in it
-/

namespace Michelson.Decimal

/-- The positive double `significand * 2 ^ exponent`. Just above a power of two the gap to the
next lower double is half the gap to the next higher one; `tightBelow` says so. -/
structure Binary where
  significand : Nat
  exponent : Int
  tightBelow : Bool
  deriving Repr

/-- The decimal `digits * 10 ^ exponent`. -/
structure Scaled where
  digits : Nat
  exponent : Int
  deriving DecidableEq, Repr

/-- The magnitude of the double with the given bits, unless it is zero. Infinities and numbers
that are not one are taken as their bits stand. -/
def Binary.ofBits? (bits : UInt64) : Option Binary :=
  let fraction : Nat := bits.toNat % 0x10000000000000
  let biased : Nat := bits.toNat / 0x10000000000000 % 0x800
  if biased = 0 then
    if fraction = 0 then none else some ⟨fraction, -1074, false⟩
  else some ⟨0x10000000000000 + fraction, (biased : Int) - 1075, fraction = 0 && biased > 1⟩

/-- Four times the value and the ends of the interval of a double, over a common
denominator. -/
structure Interval where
  low : Nat
  value : Nat
  high : Nat
  denominator : Nat
  /-- Whether the ends belong to the interval. -/
  closed : Bool

/-- The reals that round to a double: up to half the gap on either side, with the ends if the
significand is even. -/
def Binary.interval (b : Binary) : Interval :=
  let q := b.exponent - 2
  let scale := Nat.pow 2 q.toNat
  { low := (4 * b.significand - if b.tightBelow then 1 else 2) * scale
    value := 4 * b.significand * scale
    high := (4 * b.significand + 2) * scale
    denominator := Nat.pow 2 (-q).toNat
    closed := b.significand % 2 = 0 }

/-- The interval in units of `10 ^ k`. -/
def Interval.inUnits (i : Interval) (k : Int) : Interval :=
  let up := Nat.pow 10 (-k).toNat
  { low := i.low * up, value := i.value * up, high := i.high * up
    denominator := i.denominator * Nat.pow 10 k.toNat, closed := i.closed }

/-- Whether a whole number of units lies in the interval. -/
def Interval.contains (i : Interval) (n : Nat) : Bool :=
  let x := n * i.denominator
  if i.closed then i.low ≤ x && x ≤ i.high else i.low < x && x < i.high

/-- The whole number of units in the interval that is nearest to its value, if there is one
among the two neighbours of the value. -/
def Interval.nearest? (i : Interval) : Option Nat :=
  let below := i.value / i.denominator
  let above := below + 1
  match i.contains below, i.contains above with
  | true, true =>
    let twice := 2 * i.value
    let middle := (below + above) * i.denominator
    some (if twice < middle then below
      else if twice > middle then above
      else if below % 2 = 0 then below else above)
  | true, false => some below
  | false, true => some above
  | false, false => none

/-- The power of ten of the leading digit of a positive quotient. -/
def leadingExponent (numerator denominator : Nat) : Int :=
  if denominator ≤ numerator then (Nat.toDigits 10 (numerator / denominator)).length - 1
  else
    let l := (Nat.toDigits 10 (denominator / numerator)).length
    if denominator = numerator * Nat.pow 10 (l - 1) then -((l : Int) - 1) else -(l : Int)

/-- The decimal with one zero at its end left off. A step up to the next power of ten ends in
one. -/
def Scaled.dropZero (d : Scaled) : Scaled :=
  if d.digits % 10 = 0 then ⟨d.digits / 10, d.exponent + 1⟩ else d

/-- **The shortest decimal** that rounds to a double. Seventeen digits always suffice. -/
def Binary.shortest (b : Binary) : Scaled :=
  let i := b.interval
  let leading := leadingExponent i.value i.denominator
  let found := (List.range 17).findSome? fun (n : Nat) =>
    let k := leading - (n : Int)
    ((i.inUnits k).nearest?).map fun digits => Scaled.dropZero ⟨digits, k⟩
  found.getD ⟨0, 0⟩

/-- A way to lay out floats. -/
structure FloatText where
  /-- The least power of ten of the leading digit that is written without an exponent. -/
  leastPositional : Int
  /-- The greatest power of ten of the leading digit that is written without an exponent. -/
  greatestPositional : Int
  /-- What a whole number ends in when it is written without an exponent. -/
  wholeEnding : String
  /-- What stands before an exponent that is not negative. -/
  exponentMark : String
  /-- What stands before the magnitude of a negative exponent. -/
  negativeExponentMark : String

/-- A decimal laid out. -/
def FloatText.ofScaled (layout : FloatText) (d : Scaled) : String :=
  let digits := Nat.toDigits 10 d.digits
  let leading := d.exponent + digits.length - 1
  if layout.leastPositional ≤ leading && leading ≤ layout.greatestPositional then
    if 0 ≤ d.exponent then
      String.ofList (digits ++ List.replicate d.exponent.toNat '0') ++ layout.wholeEnding
    else if 0 ≤ leading then
      String.ofList (digits.take (leading + 1).toNat ++ '.' :: digits.drop (leading + 1).toNat)
    else String.ofList ('0' :: '.' :: List.replicate (-leading - 1).toNat '0' ++ digits)
  else
    let mantissa := match digits with
      | first :: second :: rest => String.ofList (first :: '.' :: second :: rest)
      | _ => String.ofList digits
    let exponent :=
      if 0 ≤ leading then layout.exponentMark ++ toString leading
      else layout.negativeExponentMark ++ toString (-leading)
    mantissa ++ exponent

/-- A finite float laid out with its shortest decimal. -/
def FloatText.render (layout : FloatText) (x : Float) : String :=
  let bits := x.toBits
  let sign := if 0x8000000000000000 ≤ bits.toNat then "-" else ""
  match Binary.ofBits? bits with
  | some b => sign ++ layout.ofScaled b.shortest
  | none => sign ++ layout.ofScaled ⟨0, 0⟩

end Michelson.Decimal

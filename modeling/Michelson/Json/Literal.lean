import Michelson.Json.Basic

/-!
# Number literals

A number literal that has neither fraction nor exponent and fits in 64 bits is an integer; any
other is a float. The significand of a float is what of its digits fits in 64 bits, and it is
scaled by its power of ten in one step, so the last bit of the result may differ from the
nearest float. A magnitude beyond the floats is no number.

## Main definitions

* `Literal`: the parts of a literal
* `Literal.scan?`: the literal at the front of a text
* `Literal.number?`: the number that a literal stands for
-/

namespace Michelson.Json

/-- The parts of a number literal. -/
structure Literal where
  negative : Bool
  whole : List Nat
  /-- The digits after the point; there is at least one if there is a point. -/
  fraction : List Nat
  /-- The written exponent. -/
  exponent : Option Int
  deriving Repr

namespace Literal

/-- The digits at the front of a text, and what follows them. -/
def digits (s : List Char) : List Nat × List Char :=
  ((s.takeWhile Char.isDigit).map fun c => c.toNat - '0'.toNat, s.dropWhile Char.isDigit)

/-- The number that decimal digits spell. -/
def spell (ds : List Nat) : Nat := ds.foldl (fun n d => 10 * n + d) 0

/-- The digits after a point at the front of a text; none without a point. -/
def scanFraction? : List Char → Option (List Nat × List Char)
  | '.' :: s => match digits s with
    | ([], _) => none
    | (ds, rest) => some (ds, rest)
  | s => some ([], s)

/-- The exponent at the front of a text, after a mark and a sign. -/
def scanExponent? : List Char → Option (Option Int × List Char)
  | c :: s =>
    if c = 'e' || c = 'E' then
      let (negative, s) := match s with
        | '-' :: s => (true, s)
        | '+' :: s => (false, s)
        | s => (false, s)
      match digits s with
      | ([], _) => none
      | (ds, rest) => some (some (if negative then -(spell ds : Int) else spell ds), rest)
    else some (none, c :: s)
  | [] => some (none, [])

/-- The literal at the front of a text, and what follows it. A leading zero stands alone. -/
def scan? (s : List Char) : Option (Literal × List Char) := do
  let (negative, s) := match s with
    | '-' :: s => (true, s)
    | s => (false, s)
  let (whole, s) := digits s
  match whole with
  | [] | 0 :: _ :: _ => none
  | _ =>
    let (fraction, s) ← scanFraction? s
    let (exponent, s) ← scanExponent? s
    return (⟨negative, whole, fraction, exponent⟩, s)

/-- Whether a literal has neither fraction nor exponent. -/
def isWhole (l : Literal) : Bool := l.fraction.isEmpty && l.exponent.isNone

/-- Digits taken into a significand as long as it stays below 2⁶⁴, and the number of digits
left over. -/
def gather (significand : Nat) : List Nat → Nat × Nat
  | [] => (significand, 0)
  | d :: ds =>
    let next := 10 * significand + d
    if next < UInt64.size then gather next ds else (significand, ds.length + 1)

/-- A power of ten that is a float. -/
def powerOfTen (n : Nat) : Float := Float.ofScientific 1 false n

/-- A significand times a power of ten, if that is finite. Divisors beyond the floats are
applied in two steps. -/
def scale? (significand : Nat) (exponent : Int) : Option Float :=
  let f := (UInt64.ofNat significand).toFloat
  if 0 ≤ exponent then
    if exponent ≤ 308 then
      let x := f * powerOfTen exponent.toNat
      if x.isInf then none else some x
    else if significand = 0 then some f else none
  else if -308 ≤ exponent then some (f / powerOfTen (-exponent).toNat)
  else if -616 ≤ exponent then some (f / powerOfTen 308 / powerOfTen (-exponent - 308).toNat)
  else some 0

/-- The greatest magnitude of a written exponent that is taken at its value. -/
def exponentLimit : Int := 0x7fffffff

/-- The float that a literal stands for, if it is finite. A written exponent beyond the limit
leaves only zero. -/
def float? (l : Literal) : Option Float :=
  let (whole, extra) := gather 0 l.whole
  let (significand, ignored) := gather whole l.fraction
  let written := l.exponent.getD 0
  let magnitude :=
    if written < -exponentLimit then some 0
    else if exponentLimit < written then if significand = 0 then some 0 else none
    else scale? significand (written + extra - (l.fraction.length - ignored : Nat))
  magnitude.map fun x => if l.negative then -x else x

/-- **The number that a literal stands for.** An integer has a value from −2⁶³ to 2⁶⁴ − 1, and
no sign if it is zero. -/
def number? (l : Literal) : Option Number :=
  let n := spell l.whole
  if l.isWhole && !l.negative && n < UInt64.size then some (.integer n)
  else if l.isWhole && l.negative && 0 < n && n ≤ 0x8000000000000000 then some (.integer (-n))
  else l.float?.map .float

end Literal

end Michelson.Json

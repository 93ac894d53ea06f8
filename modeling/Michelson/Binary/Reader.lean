import Michelson.Expr.DecodeError
import Michelson.Text.Utf8

/-!
# Reading bytes

A reader takes something from the front of what is left of the input and knows the offset at
which that starts, so that a failure can name its place.

## Main definitions

* `Cursor`: the bytes left and the offset of the first of them
* `Reader`: what takes something from the front
* `Reader.take`, `Reader.byte`, `Reader.sized`, `Reader.text`: bytes, counted or with a length
  in front
* `Reader.untilEnd`: items up to the end of the input
* `big4`: four bytes that spell a length
-/

namespace Michelson.Binary

/-- The bytes left of an input and the offset of the first of them. -/
structure Cursor where
  offset : Nat
  rest : List UInt8
  deriving DecidableEq, Repr

/-- **A reader** takes something from the front of the input. -/
abbrev Reader := StateT Cursor (Except DecodeError)

/-- The four bytes of a length, the highest first. Lengths of 2³² and more lose what does not
fit. -/
def big4 (n : Nat) : List UInt8 :=
  [UInt8.ofNat (n / 0x1000000), UInt8.ofNat (n / 0x10000), UInt8.ofNat (n / 0x100), UInt8.ofNat n]

/-- The number that bytes spell, the highest first. -/
def spell (bytes : List UInt8) : Nat := bytes.foldl (fun n b => 256 * n + b.toNat) 0

/-- Bytes with their length in front. -/
def sized (bytes : List UInt8) : List UInt8 := big4 bytes.length ++ bytes

namespace Reader

variable {α : Type}

/-- The next bytes, so many as asked for. -/
def take (count : Nat) : Reader (List UInt8) := fun c =>
  let front := c.rest.take count
  if front.length = count then .ok (front, ⟨c.offset + count, c.rest.drop count⟩)
  else .error (.truncated c.offset)

/-- The next byte. -/
def byte : Reader UInt8 := fun c =>
  match c.rest with
  | b :: rest => .ok (b, ⟨c.offset + 1, rest⟩)
  | [] => .error (.truncated c.offset)

/-- The offset of the next byte. -/
def offset : Reader Nat := return (← get).offset

/-- Bytes after a length of four bytes. -/
def sized : Reader (List UInt8) := do
  let length ← take 4
  take (spell length)

/-- A text in UTF-8 after a length of four bytes. -/
def text : Reader String := do
  let start ← offset
  let bytes ← sized
  match Text.ofUtf8? bytes with
  | some s => return s
  | none => throw (.invalidUtf8 start)

/-- Items one after the other up to the end of the input. As fuel serves the input itself,
since each item takes a byte. -/
def itemsUntilEnd (item : Reader α) : List UInt8 → Reader (List α)
  | [] => do return []
  | _ :: fuel => do
    if (← get).rest.isEmpty then return []
    else
      let x ← item
      return x :: (← itemsUntilEnd item fuel)

/-- Items one after the other up to the end of the input. -/
def untilEnd (item : Reader α) : Reader (List α) := do
  itemsUntilEnd item (← get).rest

/-- What a reader takes from bytes that start at the given offset. -/
def within (bytes : List UInt8) (start : Nat) (reader : Reader α) : Reader α := fun c =>
  (reader ⟨start, bytes⟩).map fun (x, _) => (x, c)

end Reader

end Michelson.Binary

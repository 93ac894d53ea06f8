/-!
# SHA-256

The hash function SHA-256 on byte strings: the padded message is cut into blocks of sixteen
words, and each block is mixed into a state of eight words in sixty-four rounds.

## Main definitions

* `Sha256.digest`: the thirty-two bytes of the hash
-/

namespace Michelson.Sha256

/-- The eight words of the state. -/
structure State where
  a : UInt32
  b : UInt32
  c : UInt32
  d : UInt32
  e : UInt32
  f : UInt32
  g : UInt32
  h : UInt32

/-- The state before the first block. -/
def State.start : State :=
  ⟨0x6a09e667, 0xbb67ae85, 0x3c6ef372, 0xa54ff53a,
    0x510e527f, 0x9b05688c, 0x1f83d9ab, 0x5be0cd19⟩

/-- The words of the state in order. -/
def State.words (s : State) : List UInt32 := [s.a, s.b, s.c, s.d, s.e, s.f, s.g, s.h]

/-- The sum of two states, word by word. -/
def State.add (s t : State) : State :=
  ⟨s.a + t.a, s.b + t.b, s.c + t.c, s.d + t.d, s.e + t.e, s.f + t.f, s.g + t.g, s.h + t.h⟩

/-- The constants of the rounds. -/
def roundConstants : List UInt32 := [
  0x428a2f98, 0x71374491, 0xb5c0fbcf, 0xe9b5dba5, 0x3956c25b, 0x59f111f1,
  0x923f82a4, 0xab1c5ed5, 0xd807aa98, 0x12835b01, 0x243185be, 0x550c7dc3,
  0x72be5d74, 0x80deb1fe, 0x9bdc06a7, 0xc19bf174, 0xe49b69c1, 0xefbe4786,
  0x0fc19dc6, 0x240ca1cc, 0x2de92c6f, 0x4a7484aa, 0x5cb0a9dc, 0x76f988da,
  0x983e5152, 0xa831c66d, 0xb00327c8, 0xbf597fc7, 0xc6e00bf3, 0xd5a79147,
  0x06ca6351, 0x14292967, 0x27b70a85, 0x2e1b2138, 0x4d2c6dfc, 0x53380d13,
  0x650a7354, 0x766a0abb, 0x81c2c92e, 0x92722c85, 0xa2bfe8a1, 0xa81a664b,
  0xc24b8b70, 0xc76c51a3, 0xd192e819, 0xd6990624, 0xf40e3585, 0x106aa070,
  0x19a4c116, 0x1e376c08, 0x2748774c, 0x34b0bcb5, 0x391c0cb3, 0x4ed8aa4a,
  0x5b9cca4f, 0x682e6ff3, 0x748f82ee, 0x78a5636f, 0x84c87814, 0x8cc70208,
  0x90befffa, 0xa4506ceb, 0xbef9a3f7, 0xc67178f2]

/-- A word turned to the right. -/
def rotate (x : UInt32) (count : UInt32) : UInt32 := x >>> count ||| x <<< (32 - count)

/-- One round with its constant and its word of the message. -/
def State.round (s : State) (constant word : UInt32) : State :=
  let turned := rotate s.e 6 ^^^ rotate s.e 11 ^^^ rotate s.e 25
  let choice := (s.e &&& s.f) ^^^ (~~~s.e &&& s.g)
  let t := s.h + turned + choice + constant + word
  let turned' := rotate s.a 2 ^^^ rotate s.a 13 ^^^ rotate s.a 22
  let majority := (s.a &&& s.b) ^^^ (s.a &&& s.c) ^^^ (s.b &&& s.c)
  ⟨t + (turned' + majority), s.a, s.b, s.c, s.d + t, s.e, s.f, s.g⟩

/-- A block of words, latest first, extended by so many more. -/
def extend : Nat → List UInt32 → List UInt32
  | 0, words => words
  | n + 1, words =>
    let near := words.getD 1 0
    let far := words.getD 14 0
    let x := rotate near 17 ^^^ rotate near 19 ^^^ near >>> 10
    let y := rotate far 7 ^^^ rotate far 18 ^^^ far >>> 3
    extend n ((x + words.getD 6 0 + y + words.getD 15 0) :: words)

/-- The state after a block of sixteen words. -/
def State.absorb (s : State) (block : List UInt32) : State :=
  let words := (extend 48 block.reverse).reverse
  s.add ((roundConstants.zip words).foldl (fun t (constant, word) => t.round constant word) s)

/-- Bytes as words of four bytes, the highest first. Fewer than four left over are dropped. -/
def words : List UInt8 → List UInt32
  | a :: b :: c :: d :: rest =>
    (a.toUInt32 <<< 24 ||| b.toUInt32 <<< 16 ||| c.toUInt32 <<< 8 ||| d.toUInt32) :: words rest
  | _ => []

/-- The bytes of a word, the highest first. -/
def bytesOf (word : UInt32) : List UInt8 :=
  [(word >>> 24).toUInt8, (word >>> 16).toUInt8, (word >>> 8).toUInt8, word.toUInt8]

/-- A message filled up to whole blocks: a one bit, zeros, and its length in bits. -/
def padded (message : List UInt8) : List UInt8 :=
  let length := message.length
  let bits := 8 * length
  message ++ 0x80 :: List.replicate ((119 - length % 64) % 64) 0
    ++ (List.range 8).map fun (i : Nat) => (bits >>> (8 * (7 - i))).toUInt8

/-- **The hash of a message.** -/
def digest (message : List UInt8) : List UInt8 :=
  let all := words (padded message)
  let blocks := (List.range (all.length / 16)).map fun i => (all.drop (16 * i)).take 16
  (blocks.foldl State.absorb State.start).words.flatMap bytesOf

end Michelson.Sha256

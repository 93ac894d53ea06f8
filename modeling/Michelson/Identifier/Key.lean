import Michelson.Identifier.Format

/-!
# Public keys

A public key has the length of its kind. In the binary form one byte tells the kind.

## Main definitions

* `KeyKind`, `Key`: kinds of keys, and keys
* `Key.toBytes`, `Key.ofBytes`: the binary form
* `Key.text`, `Key.ofText`: the text form
-/

namespace Michelson

open Identifier

/-- The kinds of public keys. -/
inductive KeyKind where
  | ed25519 | secp256k1 | p256 | bls12381
  deriving DecidableEq, Repr

namespace KeyKind

/-- Every kind, in the order of the tags. -/
def all : List KeyKind := [ed25519, secp256k1, p256, bls12381]

/-- The byte that tells the kind. -/
def tag : KeyKind → UInt8
  | ed25519 => 0
  | secp256k1 => 1
  | p256 => 2
  | bls12381 => 3

/-- The text format of keys of a kind. -/
def format : KeyKind → Format
  | ed25519 => ⟨[13, 15, 37, 217], 32⟩
  | secp256k1 => ⟨[3, 254, 226, 86], 33⟩
  | p256 => ⟨[3, 178, 139, 127], 33⟩
  | bls12381 => ⟨[6, 149, 135, 204], 48⟩

end KeyKind

/-- **A public key.** -/
structure Key where
  kind : KeyKind
  data : List UInt8
  deriving DecidableEq, Repr

namespace Key

/-- The binary form: the tag of the kind and the key. -/
def toBytes (key : Key) : List UInt8 := key.kind.tag :: key.data

/-- The key with a given binary form. -/
def ofBytes : List UInt8 → Except IdentifierError Key
  | [] => .error (.wrongLength 33 0)
  | tag :: data => match KeyKind.all.find? (·.tag == tag) with
    | none => .error (.unknownTag tag)
    | some kind =>
      if data.length = kind.format.length then .ok ⟨kind, data⟩
      else .error (.wrongLength kind.format.length data.length)

/-- The text form. -/
def text (key : Key) : String := key.kind.format.write key.data

/-- The key with a given text form. -/
def ofText (text : String) : Except IdentifierError Key :=
  readFirst KeyKind.all (fun kind bytes =>
    (kind.format.payload? bytes).map fun data => ⟨kind, data.1⟩) text

end Key

end Michelson

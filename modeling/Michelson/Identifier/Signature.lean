import Michelson.Identifier.Format

/-!
# Signatures

A signature is its bytes; the text form also tells the kind of the key that made it. The
binary form has no tag, so only the length tells a kind there.

## Main definitions

* `SignatureKind`, `Signature`: kinds of signatures, and signatures
* `Signature.ofBytes`: the signature with a given binary form
* `Signature.text`, `Signature.ofText`: the text form
-/

namespace Michelson

open Identifier

/-- The kinds of signatures; a generic one does not tell the kind of its key. -/
inductive SignatureKind where
  | generic | ed25519 | secp256k1 | p256 | bls12381
  deriving DecidableEq, Repr

namespace SignatureKind

/-- Every kind, in the order in which they are tried. -/
def all : List SignatureKind := [ed25519, secp256k1, p256, bls12381, generic]

/-- The text format of signatures of a kind. -/
def format : SignatureKind → Format
  | generic => ⟨[4, 130, 43], 64⟩
  | ed25519 => ⟨[9, 245, 205, 134, 18], 64⟩
  | secp256k1 => ⟨[13, 115, 101, 19, 63], 64⟩
  | p256 => ⟨[54, 240, 44, 52], 64⟩
  | bls12381 => ⟨[40, 171, 64, 207], 96⟩

end SignatureKind

/-- **A signature.** -/
structure Signature where
  kind : SignatureKind
  data : List UInt8
  deriving DecidableEq, Repr

namespace Signature

/-- The binary form: the signature alone. -/
def toBytes (signature : Signature) : List UInt8 := signature.data

/-- The signature with a given binary form; its length tells the kind. -/
def ofBytes (bytes : List UInt8) : Except IdentifierError Signature :=
  if bytes.length = 64 then .ok ⟨.generic, bytes⟩
  else if bytes.length = 96 then .ok ⟨.bls12381, bytes⟩
  else .error (.wrongLength 64 bytes.length)

/-- The text form. -/
def text (signature : Signature) : String := signature.kind.format.write signature.data

/-- The signature with a given text form. -/
def ofText (text : String) : Except IdentifierError Signature :=
  readFirst SignatureKind.all (fun kind bytes =>
    (kind.format.payload? bytes).map fun data => ⟨kind, data.1⟩) text

end Signature

end Michelson

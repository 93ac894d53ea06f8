import Michelson.Identifier.Format

/-!
# Addresses

An address names an implicit account, by the kind of its key, or an originated contract or
rollup. It has a text form, a binary form of 22 bytes and, for implicit accounts only, a form of
21 bytes.

## Main definitions

* `AddressKind`, `Address`: kinds of addresses, and addresses
* `Address.toBytes`, `Address.ofBytes`: the form of 22 bytes
* `Address.keyHashBytes`, `Address.ofKeyHashBytes`: the form of 21 bytes
* `Address.text`, `Address.ofText`: the text form
* `splitEntrypoint`: an address text and the entrypoint after it
-/

namespace Michelson

open Identifier

/-- The kinds of addresses. -/
inductive AddressKind where
  | ed25519 | secp256k1 | p256 | bls12381 | contract | smartRollup
  deriving DecidableEq, Repr

namespace AddressKind

/-- Every kind, in the order in which they are tried. -/
def all : List AddressKind := [ed25519, secp256k1, p256, bls12381, contract, smartRollup]

/-- The text format of addresses of a kind. -/
def format : AddressKind → Format
  | ed25519 => ⟨[6, 161, 159], 20⟩
  | secp256k1 => ⟨[6, 161, 161], 20⟩
  | p256 => ⟨[6, 161, 164], 20⟩
  | bls12381 => ⟨[6, 161, 166], 20⟩
  | contract => ⟨[2, 90, 121], 20⟩
  | smartRollup => ⟨[6, 124, 117], 20⟩

/-- The byte that tells the kind of an implicit account. -/
def implicitTag? : AddressKind → Option UInt8
  | ed25519 => some 0
  | secp256k1 => some 1
  | p256 => some 2
  | bls12381 => some 3
  | contract | smartRollup => none

/-- The kind of implicit account with a given tag. -/
def ofImplicitTag (tag : UInt8) : Except IdentifierError AddressKind :=
  match all.find? (·.implicitTag? == some tag) with
  | some kind => .ok kind
  | none => .error (.unknownTag tag)

/-- Whether addresses of the kind name implicit accounts. -/
def isImplicit (kind : AddressKind) : Bool := kind.implicitTag?.isSome

@[simp] theorem length_format (kind : AddressKind) : kind.format.length = 20 := by
  cases kind <;> rfl

end AddressKind

/-- **An address**: its kind and twenty bytes of hash. -/
structure Address where
  kind : AddressKind
  hash : FixedBytes 20
  deriving DecidableEq

namespace Address

/-- The binary form of 22 bytes. -/
def toBytes (address : Address) : List UInt8 :=
  match address.kind.implicitTag? with
  | some tag => 0 :: tag :: address.hash.1
  | none => (if address.kind = .contract then 1 else 3) :: address.hash.1 ++ [0]

/-- The address with a given binary form. The length is checked first, then the first byte, and
then the byte of the account kind or the zero at the end. -/
def ofBytes (bytes : List UInt8) : Except IdentifierError Address :=
  match bytes with
  | [] => .error (.wrongLength 22 0)
  | tag :: rest => do
    if rest.length ≠ 21 then throw (.wrongLength 22 (rest.length + 1))
    if tag = 0 then
      let kind ← AddressKind.ofImplicitTag (rest.headD 0)
      return ⟨kind, ← FixedBytes.ofList 20 rest.tail⟩
    else if tag = 1 || tag = 3 then
      let last := rest.getLastD 0
      if last ≠ 0 then throw (.unknownTag last)
      return ⟨if tag = 1 then .contract else .smartRollup, ← FixedBytes.ofList 20 rest.dropLast⟩
    else throw (.unknownTag tag)

/-- The text form. -/
def text (address : Address) : String := address.kind.format.write address.hash.1

/-- The form of 21 bytes of an implicit account. -/
def keyHashBytes (address : Address) : Except IdentifierError (List UInt8) :=
  match address.kind.implicitTag? with
  | some tag => .ok (tag :: address.hash.1)
  | none => .error (.notImplicit address.text)

/-- The implicit account with a given form of 21 bytes. -/
def ofKeyHashBytes (bytes : List UInt8) : Except IdentifierError Address :=
  match bytes with
  | [] => .error (.wrongLength 21 0)
  | tag :: rest => do
    if rest.length ≠ 20 then throw (.wrongLength 21 (rest.length + 1))
    return ⟨← AddressKind.ofImplicitTag tag, ← FixedBytes.ofList 20 rest⟩

/-- The address with a given text form. -/
def ofText (text : String) : Except IdentifierError Address :=
  readFirst AddressKind.all (fun kind bytes =>
    (kind.format.payload? bytes).map fun hash => ⟨kind, hash.1, by simp [hash.2]⟩) text

end Address

/-- The text of an address and of the entrypoint after the first `%`, if there is one. -/
def splitEntrypoint (text : String) : String × Option String :=
  let cs := text.toList
  match cs.dropWhile (· ≠ '%') with
  | _ :: entrypoint =>
    (String.ofList (cs.takeWhile (· ≠ '%')), some (String.ofList entrypoint))
  | [] => (text, none)

end Michelson

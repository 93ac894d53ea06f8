import Michelson.Diagnostic
import Michelson.Text.Base58
import Michelson.Text.Hex

/-!
# Formats of identifiers

Addresses, keys, signatures and hashes are written in base 58 with a checksum. The bytes start
with a mark that tells what they are, and the payload after it has a fixed length.

## Main definitions

* `IdentifierError`: why a text or a byte string is no identifier
* `FixedBytes`: byte strings of a given length
* `Format`: a mark and the length of what follows it
* `Format.write`, `Format.payload?`: a payload as text, and the payload of decoded bytes
* `readFirst`: the first reading of a text in several formats
-/

namespace Michelson

/-- Why a text or a byte string is no identifier. -/
inductive IdentifierError where
  /-- The text is not base 58 with a checksum. -/
  | base58 (text : String)
  /-- The text starts with no known mark, or has the wrong length for it. -/
  | unknownMark (text : String)
  /-- The number of bytes is wrong. -/
  | wrongLength (expected found : Nat)
  /-- A byte that tells the kind has no meaning. -/
  | unknownTag (tag : UInt8)
  /-- The address is not that of an implicit account. -/
  | notImplicit (text : String)
  deriving DecidableEq, Repr

/-- How the failure is reported. -/
def IdentifierError.diagnostic : IdentifierError → Diagnostic
  | base58 text =>
    ⟨"micheline::address::base58", s!"invalid base58check string `{text}`", none⟩
  | unknownMark text => ⟨"micheline::address::prefix", s!"unknown prefix in `{text}`", none⟩
  | wrongLength expected found =>
    ⟨"micheline::address::length", s!"expected {expected} bytes, found {found}", none⟩
  | unknownTag tag =>
    ⟨"micheline::address::tag", s!"unknown binary tag 0x{Text.Hex.encode [tag]}", none⟩
  | notImplicit text =>
    ⟨"micheline::address::not_implicit", s!"`{text}` is not an implicit account", none⟩

namespace Identifier

/-- Byte strings of a given length. -/
abbrev FixedBytes (n : Nat) := { bytes : List UInt8 // bytes.length = n }

/-- Bytes that are expected to be of a given length. -/
def FixedBytes.ofList (n : Nat) (bytes : List UInt8) : Except IdentifierError (FixedBytes n) :=
  if h : bytes.length = n then .ok ⟨bytes, h⟩ else .error (.wrongLength n bytes.length)

/-- **A format**: the mark in front of a payload and the length of the payload. -/
structure Format where
  mark : List UInt8
  length : Nat

/-- A payload as text. -/
def Format.write (format : Format) (payload : List UInt8) : String :=
  Text.Base58.encodeChecked (format.mark ++ payload)

/-- The payload of bytes that start with the mark and have the right length. -/
def Format.payload? (format : Format) (bytes : List UInt8) : Option (FixedBytes format.length) :=
  if format.mark.isPrefixOf bytes then
    let rest := bytes.drop format.mark.length
    if h : rest.length = format.length then some ⟨rest, h⟩ else none
  else none

/-- The bytes that a text stands for. -/
def decodeText (text : String) : Except IdentifierError (List UInt8) :=
  match Text.Base58.decodeChecked? text with
  | some bytes => .ok bytes
  | none => .error (.base58 text)

/-- The first reading of a text, of several ways to read its bytes. -/
def readFirst {κ α : Type} (kinds : List κ) (read : κ → List UInt8 → Option α) (text : String) :
    Except IdentifierError α := do
  let bytes ← decodeText text
  match kinds.findSome? (read · bytes) with
  | some x => return x
  | none => throw (.unknownMark text)

end Identifier

end Michelson

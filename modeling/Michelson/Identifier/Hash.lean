import Michelson.Identifier.Format

/-!
# Chain ids and expression hashes

A chain id is four bytes, and the hash of a packed expression thirty-two.

## Main definitions

* `ChainId`, `ChainId.ofBytes`, `ChainId.text`, `ChainId.ofText`
* `ExprHash`, `ExprHash.ofBytes`, `ExprHash.text`, `ExprHash.ofText`
-/

namespace Michelson

open Identifier

/-- **The id of a chain.** -/
structure ChainId where
  bytes : FixedBytes 4
  deriving DecidableEq

namespace ChainId

/-- The text format of chain ids. -/
def format : Format := ⟨[87, 82, 0], 4⟩

/-- The chain id with the given bytes. -/
def ofBytes (bytes : List UInt8) : Except IdentifierError ChainId :=
  (FixedBytes.ofList 4 bytes).map ChainId.mk

/-- The text form. -/
def text (id : ChainId) : String := format.write id.bytes.1

/-- The chain id with a given text form. -/
def ofText (text : String) : Except IdentifierError ChainId :=
  readFirst [format] (fun _ bytes => (format.payload? bytes).map ChainId.mk) text

end ChainId

/-- **The hash of a packed expression**, by which the keys of a big map are found. -/
structure ExprHash where
  bytes : FixedBytes 32
  deriving DecidableEq

namespace ExprHash

/-- The text format of expression hashes. -/
def format : Format := ⟨[13, 44, 64, 27], 32⟩

/-- The hash with the given bytes. -/
def ofBytes (bytes : List UInt8) : Except IdentifierError ExprHash :=
  (FixedBytes.ofList 32 bytes).map ExprHash.mk

/-- The text form. -/
def text (hash : ExprHash) : String := format.write hash.bytes.1

/-- The hash with a given text form. -/
def ofText (text : String) : Except IdentifierError ExprHash :=
  readFirst [format] (fun _ bytes => (format.payload? bytes).map ExprHash.mk) text

/-- The hash of zeros. -/
def zero : ExprHash := ⟨⟨List.replicate 32 0, by simp⟩⟩

end ExprHash

end Michelson

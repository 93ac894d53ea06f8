import Michelson.Diagnostic
import Michelson.Json.Printer
import Michelson.Text.Hex

/-!
# Failures in reading expressions

An expression is read from bytes or from JSON. Offsets count bytes from the start of the input.

## Main definitions

* `JsonFlaw`: what makes a JSON value no expression
* `DecodeError`: why an input is no expression
* `DecodeError.diagnostic`: how that is reported
-/

namespace Michelson

/-- What makes a JSON value no expression. -/
inductive JsonFlaw where
  | nonNumericInt | nonTextString | nonTextBytes | nonHexBytes | missingPrim | nonArrayArgs
  | nonTextAnnot | nonArrayAnnots | unexpectedValue
  deriving DecidableEq, Repr

/-- The wording of a flaw. -/
def JsonFlaw.text : JsonFlaw → String
  | nonNumericInt => "non-numeric `int`"
  | nonTextString => "non-text `string`"
  | nonTextBytes => "non-text `bytes`"
  | nonHexBytes => "non-hex `bytes`"
  | missingPrim => "missing `prim`"
  | nonArrayArgs => "non-array `args`"
  | nonTextAnnot => "non-text annotation"
  | nonArrayAnnots => "non-array `annots`"
  | unexpectedValue => "unexpected JSON value"

/-- Why an input is no expression. -/
inductive DecodeError where
  /-- The input ends within what starts at the offset. -/
  | truncated (offset : Nat)
  /-- A node starts with a byte that is no node tag. -/
  | unknownTag (tag : UInt8) (offset : Nat)
  /-- No primitive has the tag. -/
  | unknownOpcode (tag : UInt8)
  /-- No primitive has the name. -/
  | unknownPrimitive (name : String)
  /-- The text whose length stands at the offset is not UTF-8. -/
  | invalidUtf8 (offset : Nat)
  /-- The node at the offset is nested too deeply. -/
  | tooDeep (offset : Nat)
  /-- Bytes follow the expression. -/
  | trailingBytes (count : Nat)
  /-- Packed bytes do not start with the mark of packed data. -/
  | missingPackMark
  /-- A JSON value is no expression. -/
  | invalidJson (flaw : JsonFlaw) (value : Json)
  /-- A text is not JSON. -/
  | notJson

/-- How the failure is reported. -/
def DecodeError.diagnostic : DecodeError → Diagnostic
  | truncated offset =>
    ⟨"micheline::decode::truncated", s!"unexpected end of input at offset {offset}", none⟩
  | unknownTag tag offset =>
    ⟨"micheline::decode::tag",
      s!"unknown node tag 0x{Text.Hex.encode [tag]} at offset {offset}", none⟩
  | unknownOpcode tag =>
    ⟨"micheline::decode::opcode", s!"unknown opcode 0x{Text.Hex.encode [tag]}", none⟩
  | unknownPrimitive name =>
    ⟨"micheline::decode::primitive", s!"unknown primitive `{name}`", none⟩
  | invalidUtf8 offset =>
    ⟨"micheline::decode::utf8", s!"invalid utf-8 in string literal at offset {offset}", none⟩
  | tooDeep offset =>
    ⟨"micheline::decode::depth", s!"expression nested too deeply at offset {offset}", none⟩
  | trailingBytes count =>
    ⟨"micheline::decode::trailing", s!"{count} trailing bytes after expression", none⟩
  | missingPackMark => ⟨"micheline::decode::pack_prefix", "missing 0x05 pack prefix", none⟩
  | invalidJson flaw value =>
    ⟨"micheline::decode::json",
      s!"invalid JSON expression: {flaw.text} in {value.compact}", none⟩
  | notJson => ⟨"micheline::decode::json", "invalid JSON expression: not a JSON text", none⟩

end Michelson

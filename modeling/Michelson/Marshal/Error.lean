import Michelson.Expr.DecodeError
import Michelson.Identifier.Format
import Michelson.Typedef.Basic

/-!
# Failures in building values

## Main definitions

* `HostShape`: the shapes that are asked of host values
* `ScalarFault`: what makes a host value no scalar of a type
* `MarshalError`: why no value can be built
* `MarshalError.diagnostic`: how that is reported
-/

namespace Michelson

/-- The shapes that are asked of host values. -/
inductive HostShape where
  | fields | branch | items | entry | entries | string | boolean | integer | timestamp
  deriving DecidableEq, Repr

/-- The wording of a shape. -/
def HostShape.text : HostShape → String
  | fields => "an object or an array"
  | branch => "an object keyed by the chosen branch"
  | items => "an array"
  | entry => "an array of \x7bkey, value\x7d objects"
  | entries => "an object or an array of \x7bkey, value\x7d objects"
  | string => "a string"
  | boolean => "a boolean"
  | integer => "an integer"
  | timestamp => "a number or an RFC3339 string"

/-- The few words that describe a host value in a diagnostic. -/
def Json.describe : Json → String
  | .null => "null"
  | .bool _ => "a boolean"
  | .number n => s!"the number {n.text}"
  | .string _ => "a string"
  | .array xs => s!"an array of {xs.length}"
  | .object _ => "an object"

/-- What makes a host value no scalar of a type. -/
inductive ScalarFault where
  /-- It is no integer. -/
  | notInteger (value : Json)
  /-- It is negative and must not be. -/
  | negative (value : Int)
  /-- It is no expression. -/
  | expression (cause : DecodeError)
  /-- It is no identifier of the right sort. -/
  | identifier (cause : IdentifierError)
  /-- It is an address of another kind than that of the layer-2 format. -/
  | notLayer2
  /-- It is not hexadecimal. -/
  | hex (cause : Text.Hex.Fault)
  /-- The entrypoint after an address is empty or too long. -/
  | invalidEntrypoint (name : String)
  /-- It is no timestamp. -/
  | notTimestamp
  /-- It is a timestamp that has no text. -/
  | outOfRange

/-- The reason that is given for a fault, if one is. -/
def ScalarFault.reason? : ScalarFault → Option String
  | notInteger value => some s!"`{value.compact}` is not an integer"
  | negative value => some s!"{value} is negative"
  | expression cause => some cause.diagnostic.message
  | identifier cause => some cause.diagnostic.message
  | notLayer2 => some "expected a tz4 address"
  | hex cause => some cause.message
  | invalidEntrypoint name => some s!"invalid entrypoint `{name}`"
  | notTimestamp => none
  | outOfRange => some "out of range"

/-- Why no value can be built. -/
inductive MarshalError where
  /-- A field or a member has no host value. -/
  | missing (field : String)
  /-- A host value has the wrong shape. -/
  | shape (field : String) (expected : HostShape) (found : Json)
  /-- A host value is no scalar of the type. -/
  | scalar (field : String) (kind : Typedef.Kind) (fault : ScalarFault)
  /-- Values of the type are not built from host values. -/
  | unsupported (field : String) (kind : Typedef.Kind)
  /-- No branch of a union has the name that is given. -/
  | noBranch (field : String)
  /-- Sorting finds the keys of a collection in no order. That is no fault that the host value is
  charged with: the run is given up. -/
  | disordered

/-- How the failure is reported. There is no code for a run that is given up. -/
def MarshalError.diagnostic : MarshalError → Diagnostic
  | missing field => ⟨"micheline::marshal::missing", s!"missing value for `{field}`", none⟩
  | shape field expected found =>
    ⟨"micheline::marshal::shape",
      s!"`{field}` expects {expected.text}, found {found.describe}", none⟩
  | scalar field kind fault =>
    let reason := ((fault.reason?).map (": " ++ ·)).getD ""
    ⟨"micheline::marshal::scalar", s!"`{field}` holds an invalid {kind.text}{reason}", none⟩
  | unsupported field kind =>
    ⟨"micheline::marshal::unsupported",
      s!"`{field}` has type {kind.text}, which cannot be built from a host value", none⟩
  | noBranch field =>
    ⟨"micheline::marshal::branch",
      s!"no branch of union `{field}` matches the given keys",
      some "pass an object whose single key names the chosen branch"⟩
  | disordered =>
    ⟨"", "user-provided comparison function does not correctly implement a total order", none⟩

end Michelson

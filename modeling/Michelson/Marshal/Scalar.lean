import Michelson.Expr.Json
import Michelson.Identifier.Address
import Michelson.Identifier.Hash
import Michelson.Identifier.Key
import Michelson.Identifier.Signature
import Michelson.Marshal.Error
import Michelson.Text.Timestamp

/-!
# Scalars from host values

A host value is a JSON value. Where a type has a readable and a compact form, the scalar is
written in the one that is asked for: identifiers as text or bytes, moments as text or seconds.

## Main definitions

* `ScalarForm`: the two forms
* `Typedef.scalar`: the scalar of a type that a host value stands for
-/

namespace Michelson

/-- The forms in which identifiers and moments are written. -/
inductive ScalarForm where
  | readable | optimized
  deriving DecidableEq, Repr

/-- An identifier in the form that is asked for. -/
def ScalarForm.pick (form : ScalarForm) (bytes : List UInt8) (text : String) : Expr :=
  match form with
  | readable => .string text
  | optimized => .bytes bytes

/-- The value of a truth value. -/
def boolExpr (flag : Bool) : Expr := .app (.data (if flag then .true else .false)) []

namespace Typedef

/-- Refuses a host value that has not the expected shape. -/
def misshapen {α : Type} (t : Typedef) (expected : HostShape) (found : Json) :
    Except MarshalError α :=
  .error (.shape t.name expected found)

/-- Refuses a host value that is no scalar of the type. -/
def invalid {α : Type} (t : Typedef) (fault : ScalarFault) : Except MarshalError α :=
  .error (.scalar t.name t.kind fault)

/-- Refuses to build values of the type. -/
def unsupported {α : Type} (t : Typedef) : Except MarshalError α :=
  .error (.unsupported t.name t.kind)

/-- The text of a host value. -/
def hostText (t : Typedef) (value : Json) : Except MarshalError String :=
  match value with
  | .string s => .ok s
  | other => t.misshapen .string other

/-- The identifier that the text of a host value stands for. -/
def hostIdentifier {α : Type} (t : Typedef) (read : String → Except IdentifierError α)
    (value : Json) : Except MarshalError α := do
  match read (← t.hostText value) with
  | .ok x => return x
  | .error cause => t.invalid (.identifier cause)

/-- The integer that a number stands for, or a text that can be read as one. -/
def hostNumber (t : Typedef) (expected : HostShape) (fault : ScalarFault)
    (read? : String → Option Int) (value : Json) : Except MarshalError Int :=
  match value with
  | .number (.integer n) => .ok n
  | .number (.float _) => t.invalid fault
  | .string s => match read? s with
    | some n => .ok n
    | none => t.invalid fault
  | other => t.misshapen expected other

/-- The integer that a number or a text stands for; a natural one must not be negative. -/
def hostInteger (t : Typedef) (natural : Bool) (value : Json) : Except MarshalError Expr := do
  let n ← t.hostNumber .integer (.notInteger value) Text.readInteger? value
  if natural && n < 0 then t.invalid (.negative n) else return .int n

/-- The moment that a number or a text stands for. -/
def hostTimestamp (t : Typedef) (form : ScalarForm) (value : Json) : Except MarshalError Expr := do
  let seconds ← t.hostNumber .timestamp .notTimestamp
    (fun s => Timestamp.read? s <|> Text.readInteger? s) value
  match form with
  | .optimized => return .int seconds
  | .readable => match Timestamp.render? seconds with
    | some text => return .string text
    | none => t.invalid .outOfRange

/-- The address that a text stands for, with the entrypoint after it. An entrypoint has from one
to 31 bytes. -/
def hostAddress (t : Typedef) (form : ScalarForm) (value : Json) : Except MarshalError Expr := do
  let (text, entrypoint) := splitEntrypoint (← t.hostText value)
  match Address.ofText text with
  | .error cause => t.invalid (.identifier cause)
  | .ok address => match entrypoint with
    | none => return form.pick address.toBytes address.text
    | some name =>
      let bytes := Text.utf8 name
      if bytes.isEmpty || 31 < bytes.length then t.invalid (.invalidEntrypoint name)
      else return form.pick (address.toBytes ++ bytes) (address.text ++ "%" ++ name)

/-- The bytes that hexadecimal text stands for, after `0x` or not. -/
def hostBytes (t : Typedef) (value : Json) : Except MarshalError Expr := do
  let text ← t.hostText value
  let digits := match text.toList with
    | '0' :: 'x' :: rest => String.ofList rest
    | _ => text
  match Text.Hex.decode digits with
  | .ok bytes => return .bytes bytes
  | .error cause => t.invalid (.hex cause)

/-- **The scalar of a type** that a host value stands for. -/
def scalar (t : Typedef) (c : TypeConstructor) (form : ScalarForm) (value : Json) :
    Except MarshalError Expr :=
  match c with
  | .lambda => match Expr.ofJson value with
    | .ok e => .ok e
    | .error cause => t.invalid (.expression cause)
  | .option => match value with
    | .null => .ok (.app (.data .none) [])
    | _ => t.unsupported
  | .int => t.hostInteger false value
  | .nat | .mutez => t.hostInteger true value
  | .saplingState => match value with
    | .array [] => .ok (.seq [])
    | _ => t.hostInteger false value
  | .string => do return .string (← t.hostText value)
  | .bool => match value with
    | .bool flag => .ok (boolExpr flag)
    | .string "true" => .ok (boolExpr true)
    | .string "false" => .ok (boolExpr false)
    | other => t.misshapen .boolean other
  | .unit => .ok (.app (.data .unit) [])
  | .timestamp => t.hostTimestamp form value
  | .address | .contract => t.hostAddress form value
  | .txRollupL2Address => do
    let address ← t.hostIdentifier Address.ofText value
    if address.kind = .bls12381 then return form.pick address.hash.1 address.text
    else t.invalid .notLayer2
  | .keyHash => do
    let address ← t.hostIdentifier Address.ofText value
    match address.keyHashBytes with
    | .ok bytes => return form.pick bytes address.text
    | .error cause => t.invalid (.identifier cause)
  | .key => do
    let key ← t.hostIdentifier Key.ofText value
    return form.pick key.toBytes key.text
  | .signature => do
    let signature ← t.hostIdentifier Signature.ofText value
    return form.pick signature.toBytes signature.text
  | .chainId => do
    let id ← t.hostIdentifier ChainId.ofText value
    return form.pick id.bytes.1 id.text
  | .bytes | .bls12381G1 | .bls12381G2 | .bls12381Fr | .chest | .chestKey | .saplingTransaction
  | .saplingTransactionDeprecated => t.hostBytes value
  | .list | .set | .map | .bigMap | .or | .pair | .operation | .never | .ticket => t.unsupported

end Typedef

end Michelson

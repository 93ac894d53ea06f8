import Michelson.Expr.Shape
import Michelson.Identifier.Address
import Michelson.Identifier.Signature
import Michelson.Text.Timestamp
import Michelson.Typedef.Derive

/-!
# Types inferred from values

A type is guessed from the shape of an untyped value. The guess is plausible, not principal: a
text may be an address or a plain text, and the side of an alternative that is not seen is taken
to be like the one that is. Shapes that no value has get the type `never`.

## Main definitions

* `Expr.inferType`: the type that a value seems to have
* `Typedef.infer`: its typedef
-/

namespace Michelson

namespace Expr

/-- The type of an address: those of the layer-2 format have one of their own. -/
def typeOfAddress (address : Address) : Expr :=
  if address.kind = .bls12381 then plainType .txRollupL2Address else plainType .address

/-- The type that a text seems to have: a timestamp, an address, a signature or a plain text. -/
def typeOfText (text : String) : Expr :=
  if (Timestamp.read? text).isSome then plainType .timestamp
  else match Address.ofText (splitEntrypoint text).1 with
    | .ok address => typeOfAddress address
    | .error _ => match Signature.ofText text with
      | .ok _ => plainType .signature
      | .error _ => plainType .string

/-- The type that bytes seem to have: an address or plain bytes. -/
def typeOfBytes (bytes : List UInt8) : Expr :=
  match Address.ofBytes bytes with
  | .ok address => typeOfAddress address
  | .error _ => plainType .bytes

mutual
/-- **The type that a value seems to have.** -/
def inferType : Expr → Expr
  | .int .. => plainType .int
  | .string s _ => typeOfText s
  | .bytes b _ => typeOfBytes b
  | .seq xs as =>
    if isCode (.seq xs as) then plainType .lambda
    else if isMap (.seq xs as) then inferEntryType xs
    else if isSet (.seq xs as) then .app (.type .set) (inferFirst xs)
    else match xs with
      | [] => plainType .list
      | [x] => .app (.type .list) [inferType x]
      | xs => .app (.type .pair) (inferTypes xs)
  | .app p xs _ _ => match p, xs with
    | .instruction _, _ | .data .lambdaRec, _ => plainType .lambda
    | .data .true, [] | .data .false, [] => plainType .bool
    | .data .unit, [] => plainType .unit
    | .data .none, [] => plainType .option
    | .type c, [] => plainType c
    | .data .some, [x] => .app (.type .option) [inferType x]
    | .data .left, [x] | .data .right, [x] =>
      let arm := inferType x
      .app (.type .or) [arm, arm]
    | .type .ticket, [x] => .app (.type .ticket) [inferType x]
    | .data .elt, [key, value] => .app (.type .map) [inferType key, inferType value]
    | .data .pair, x :: y :: rest => .app (.type .pair) (inferTypes (x :: y :: rest))
    | _, [x, y] => .app (.type .pair) [inferType x, inferType y]
    | _, _ => plainType .never
/-- The types that values seem to have. -/
def inferTypes : List Expr → List Expr
  | [] => []
  | x :: xs => inferType x :: inferTypes xs
/-- The type that the first of some values seems to have, as a list. -/
def inferFirst : List Expr → List Expr
  | [] => []
  | x :: _ => [inferType x]
/-- The type of a map whose entries are like the first of these. -/
def inferEntryType : List Expr → Expr
  | .app _ [key, value] _ _ :: _ => .app (.type .map) [inferType key, inferType value]
  | _ => plainType .map
end

end Expr

/-- The typedef of the type that a value seems to have. -/
def Typedef.infer (value : Expr) (name : String) : Except TypeError Typedef :=
  Typedef.derive value.inferType name

end Michelson

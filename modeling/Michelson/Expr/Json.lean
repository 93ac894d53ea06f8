import Michelson.Expr.DecodeError
import Michelson.Expr.Basic
import Michelson.Json.Reader
import Michelson.Text.Numeral

/-!
# The JSON form of expressions

A literal is an object with the one member `int`, `string` or `bytes`, a sequence is an array,
and an application is an object with the members `prim`, `args` and `annots`, of which empty
lists are left out. Annotations of literals and sequences have no JSON form.

## Main definitions

* `Expr.toJson`: the JSON value of an expression
* `Expr.ofJson`: the expression with a given JSON value
* `Expr.ofJsonText`: the expression in a JSON document
-/

namespace Michelson.Expr

/-- A member with a list, left out if the list is empty. -/
def listMember (name : String) (items : List Json) : List (String × Json) :=
  if items.isEmpty then [] else [(name, .array items)]

mutual
/-- **The JSON value of an expression.** -/
def toJson : Expr → Json
  | int n _ => .object [("int", .string (toString n))]
  | string s _ => .object [("string", .string s)]
  | bytes b _ => .object [("bytes", .string (Text.Hex.encode b))]
  | seq xs _ => .array (toJsonAll xs)
  | app p xs as _ =>
    .object (("prim", .string p.name) :: listMember "args" (toJsonAll xs)
      ++ listMember "annots" (as.map .string))
/-- The JSON values of expressions. -/
def toJsonAll : List Expr → List Json
  | [] => []
  | x :: xs => toJson x :: toJsonAll xs
end

/-- The compact JSON text of an expression. -/
def jsonText (e : Expr) : String := e.toJson.compact

/-- The integer that a member `int` holds: a numeral in a string or a JSON integer. -/
def intOfJson? : Json → Option Int
  | .string s => Text.readInteger? s
  | .number (.integer n) => some n
  | _ => none

/-- The annotations that a member `annots` holds. A missing or null member holds none. -/
def annotsOfJson : Option Json → Except JsonFlaw (List String)
  | none | some .null => .ok []
  | some (.array xs) => match xs.mapM Json.string? with
    | some as => .ok as
    | none => .error .nonTextAnnot
  | some _ => .error .nonArrayAnnots

/-- The literal that an object stands for, if it has a member of a literal. -/
def literalOfMembers? (members : List (String × Json)) : Option (Except JsonFlaw Expr) :=
  match Json.lookup? "int" members with
  | some v => some <| match intOfJson? v with
    | some n => .ok (int n)
    | none => .error .nonNumericInt
  | none => match Json.lookup? "string" members with
    | some v => some <| match v with
      | .string s => .ok (string s)
      | _ => .error .nonTextString
    | none => match Json.lookup? "bytes" members with
      | some v => some <| match v with
        | .string s => match Text.Hex.decode s with
          | .ok b => .ok (bytes b)
          | .error _ => .error .nonHexBytes
        | _ => .error .nonTextBytes
      | none => none

mutual
/-- **The expression with a given JSON value.** Members of literals come before `prim`, and
members that have no meaning are passed over. -/
def ofJson : Json → Except DecodeError Expr
  | .array xs => do return seq (← ofJsonAll xs)
  | value@(.object members) =>
    let flawed {α : Type} (r : Except JsonFlaw α) : Except DecodeError α :=
      r.mapError (.invalidJson · value)
    match literalOfMembers? members with
    | some literal => flawed literal
    | none => do
      match Json.lookup? "prim" members with
      | some (.string name) => match Primitive.ofName? name with
        | some p =>
          let args ← argsOfMembers value members
          let annots ← flawed (annotsOfJson (Json.lookup? "annots" members))
          return app p args annots
        | none => .error (.unknownPrimitive name)
      | _ => .error (.invalidJson .missingPrim value)
  | value => .error (.invalidJson .unexpectedValue value)
/-- The expressions with given JSON values. -/
def ofJsonAll : List Json → Except DecodeError (List Expr)
  | [] => .ok []
  | x :: xs => do
    let e ← ofJson x
    return e :: (← ofJsonAll xs)
/-- The arguments in the first member `args` of an object. A missing or null member holds
none. -/
def argsOfMembers (value : Json) : List (String × Json) → Except DecodeError (List Expr)
  | [] => .ok []
  | (name, v) :: members =>
    if name = "args" then
      match v with
      | .null => .ok []
      | .array xs => ofJsonAll xs
      | _ => .error (.invalidJson .nonArrayArgs value)
    else argsOfMembers value members
end

/-- The expression in a JSON document. -/
def ofJsonText (text : String) : Except DecodeError Expr :=
  match Json.parse? Json.maxLevels text with
  | some value => ofJson value
  | none => .error .notJson

end Michelson.Expr

import Michelson.Entrypoint.Discovery
import Michelson.Typedef.Equivalence
import Michelson.Typedef.Unfold

/-!
# Interfaces

An interface is a set of entrypoints with given names and types. A contract satisfies it if it
has an entrypoint of each name with the same typedef, however the pairs in it are grouped; a
strict match asks for the same field names as well.

## Main definitions

* `Interface`: the well-known interfaces
* `Interface.specs`: the entrypoints of an interface
* `Interface.matchedBy`, `Interface.contains`: whether entrypoints satisfy an interface, and
  whether an entrypoint is one of it
* `Entrypoints.interfaces`: the interfaces that a contract satisfies
-/

namespace Michelson

/-- **The well-known interfaces.** -/
inductive Interface where
  /-- A contract that manages an account. -/
  | manager
  /-- A contract that sets its delegate. -/
  | setDelegate
  /-- The first interface of tokens. -/
  | fa1
  /-- Tokens with allowances. -/
  | fa12
  /-- Many tokens in one contract. -/
  | fa2
  deriving DecidableEq, Repr

/-- An entrypoint of an interface. -/
structure EntrypointSpec where
  name : String
  type : Expr

namespace EntrypointSpec

/-- The unfolded typedef of the entrypoint, named after it. -/
def typedef (spec : EntrypointSpec) : Except TypeError Typedef := do
  let t ← Typedef.build spec.type spec.name []
  return { t with name := spec.name }.unfold

/-- Whether an entrypoint has the typedef of the specification, and with `strict` its field
names. -/
def accepts (spec : EntrypointSpec) (entry : Entrypoint) (strict : Bool) : Bool :=
  match spec.typedef with
  | .ok expected =>
    let actual := entry.signature.unfold
    if strict then actual.strictEqual expected else actual.equal expected
  | .error _ => false

end EntrypointSpec

namespace Interface

/-- Every interface, in the order in which they are listed. -/
def all : List Interface := [manager, setDelegate, fa1, fa12, fa2]

/-- The name under which an interface is known. -/
def name : Interface → String
  | manager => "MANAGER"
  | setDelegate => "SET_DELEGATE"
  | fa1 => "TZIP-005"
  | fa12 => "TZIP-007"
  | fa2 => "TZIP-012"

/-- The interface with a given name in any case of its letters. -/
def ofName? (name : String) : Option Interface :=
  let lower (s : String) : List Char := s.toList.map Char.toLower
  all.find? fun interface => lower interface.name == lower name

/-- A pair type. -/
def pairType (left right : Expr) (annots : List String := []) : Expr :=
  .app (.type .pair) [left, right] annots

/-- A type without arguments and with one annotation. -/
def named (c : TypeConstructor) (annot : String) : Expr := .app (.type c) [] [annot]

/-- A type with one argument. -/
def typeOf (c : TypeConstructor) (arg : Expr) (annots : List String := []) : Expr :=
  .app (.type c) [arg] annots

/-- The type of a contract that takes a natural number. -/
def callback : Expr := typeOf .contract (.plainType .nat)

/-- The entrypoints of the first interface of tokens. -/
def tokenSpecs : List EntrypointSpec := [
  ⟨"transfer",
    pairType (named .address ":from") (pairType (named .address ":to") (named .nat ":value"))⟩,
  ⟨"getBalance", pairType (named .address ":owner") callback⟩,
  ⟨"getTotalSupply", pairType (.plainType .unit) callback⟩]

/-- The type of an operator of a token's owner. -/
def operator (annot : String) : Expr :=
  pairType (named .address "%owner")
    (pairType (named .address "%operator") (named .nat "%token_id")) [annot]

/-- The type of a question for a balance. -/
def balanceRequest (annots : List String) : Expr :=
  pairType (named .address "%owner") (named .nat "%token_id") annots

/-- The entrypoints of an interface. -/
def specs : Interface → List EntrypointSpec
  | manager => [
    ⟨"do", .app (.type .lambda) [.plainType .unit, typeOf .list (.plainType .operation)]⟩,
    ⟨"default", .plainType .unit⟩]
  | setDelegate => [
    ⟨"set_delegate", typeOf .option (.plainType .keyHash)⟩,
    ⟨"remove_delegate", .plainType .unit⟩]
  | fa1 => tokenSpecs
  | fa12 => tokenSpecs ++ [
    ⟨"approve", pairType (named .address ":spender") (named .nat ":value")⟩,
    ⟨"getAllowance",
      pairType (pairType (named .address ":owner") (named .address ":spender")) callback⟩]
  | fa2 => [
    ⟨"transfer",
      typeOf .list (pairType (named .address "%from_")
        (typeOf .list
          (pairType (named .address "%to_")
            (pairType (named .nat "%token_id") (named .nat "%amount")))
          ["%txs"]))⟩,
    ⟨"balance_of",
      pairType (typeOf .list (balanceRequest []) ["%requests"])
        (typeOf .contract
          (typeOf .list (pairType (balanceRequest ["%request"]) (named .nat "%balance")))
          ["%callback"])⟩,
    ⟨"update_operators",
      typeOf .list
        (.app (.type .or) [operator "%add_operator", operator "%remove_operator"])⟩]

/-- **Whether entrypoints satisfy an interface**: each of its names has an entrypoint that the
specification accepts. -/
def matchedBy (interface : Interface) (es : Entrypoints) (strict : Bool) : Bool :=
  interface.specs.all fun spec => match es.get? spec.name with
    | some entry => spec.accepts entry strict
    | none => false

/-- Whether an entrypoint is one of an interface. -/
def contains (interface : Interface) (entry : Entrypoint) : Bool :=
  interface.specs.any fun spec => spec.name == entry.name && spec.accepts entry false

end Interface

/-- The interfaces that a contract satisfies. -/
def Entrypoints.interfaces (es : Entrypoints) (strict : Bool) : List Interface :=
  Interface.all.filter (·.matchedBy es strict)

end Michelson

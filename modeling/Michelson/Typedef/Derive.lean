import Michelson.Diagnostic
import Michelson.Expr.Annot
import Michelson.Expr.Comb
import Michelson.Typedef.Basic

/-!
# Typedefs of types

A type is described by walking over it once. Pairs nested to the right are flattened into one
struct as long as the inner pairs carry no annotation and were not packed; alternatives are
flattened into one union however they are nested. A component is named by its label or else by
the place that it has.

## Main definitions

* `TypeError`: why an expression is no type
* `Typedef.build`: the typedef of a type at a path
* `Typedef.derive`: the typedef of a type or of the section that declares it
-/

namespace Michelson

/-- Why an expression is no type. -/
inductive TypeError where
  /-- A type constructor has the wrong number of arguments. -/
  | arity (constructor : TypeConstructor) (expected found : Nat)
  /-- What was found is no type at all. -/
  | notAType (found : String)
  deriving DecidableEq, Repr

/-- How the failure is reported. -/
def TypeError.diagnostic : TypeError → Diagnostic
  | arity c expected found =>
    ⟨"micheline::typedef::arity",
      s!"`{(Primitive.type c).name}` expects {expected} arguments, found {found}", none⟩
  | notAType found =>
    ⟨"micheline::typedef::not_a_type", s!"{found} is not a type",
      some "type trees are built from type primitives such as `pair`, `or` or `nat`"⟩

namespace Typedef

/-- Gives its position as a name to each field that has an empty one. -/
def numberFields (fields : List Typedef) : List Typedef :=
  fields.mapIdx fun i t => if t.name = "" then { t with name := toString i } else t

/-- The kind of a sapling type with the given arguments: with a memo size if the only argument
is an integer that fits. -/
def saplingKind (c : TypeConstructor) (args : List Expr) : Kind :=
  match args with
  | [.int n _] =>
    if 0 ≤ n && n < UInt64.size then .sapling (.type c) (UInt64.ofNat n.toNat) else .type c
  | _ => .type c

mutual
/-- **The typedef of a type** that lies at a path. Its name is its label or else the fallback.
An option has the typedef of what it wraps, marked as optional. -/
def build (e : Expr) (fallback : String) (path : List Nat) : Except TypeError Typedef :=
  match e with
  | .app (.type c) args annots flag =>
    let label := (Expr.app (.type c) args annots flag).label?
    let name := label.getD fallback
    match c, args with
    | .pair, args => do
      return ⟨name, .struct, false, numberFields (← combFields args path), path⟩
    | .or, args => do
      return ⟨name, .union, false, ← branches "@or_0" args path, path⟩
    | .option, [] => .ok ⟨name, .type .option, false, [], path⟩
    | .option, [inner] => do
      let t ← build inner name path
      return { t with name := label.getD t.name, optional := true, path := path }
    | .option, args => .error (.arity .option 1 args.length)
    | .list, [] => .ok ⟨name, .type .list, false, [], path⟩
    | .list, [item] => do
      return ⟨name, .type .list, false, [← build item "@item" (path ++ [0])], path⟩
    | .list, args => .error (.arity .list 1 args.length)
    | .set, [] => .ok ⟨name, .type .set, false, [], path⟩
    | .set, [item] => do
      return ⟨name, .type .set, false, [← build item "@item" (path ++ [0])], path⟩
    | .set, args => .error (.arity .set 1 args.length)
    | .map, [key, value] => do
      let k ← build key "@key" (path ++ [0])
      let v ← build value "@value" (path ++ [1])
      return ⟨name, .type .map, false, [k, v], path⟩
    | .map, args => .error (.arity .map 2 args.length)
    | .bigMap, [key, value] => do
      let k ← build key "@key" (path ++ [0])
      let v ← build value "@value" (path ++ [1])
      return ⟨name, .type .bigMap, false, [k, v], path⟩
    | .bigMap, args => .error (.arity .bigMap 2 args.length)
    | .lambda, [] => .ok ⟨name, .type .lambda, false, [], path⟩
    | .lambda, [param, result] => do
      let p ← build param "@param" (path ++ [0])
      let r ← build result "@return" (path ++ [1])
      return ⟨name, .type .lambda, false, [p, r], path⟩
    | .lambda, args => .error (.arity .lambda 2 args.length)
    | .contract, [param] => do
      return ⟨name, .type .contract, false, [← build param "0" (path ++ [0])], path⟩
    | .contract, args => .error (.arity .contract 1 args.length)
    | .ticket, [value] => do
      return ⟨name, .type .ticket, false, [← build value "@value" (path ++ [0])], path⟩
    | .ticket, args => .error (.arity .ticket 1 args.length)
    | .saplingState, args => .ok ⟨name, saplingKind .saplingState args, false, [], path⟩
    | .saplingTransaction, args =>
      .ok ⟨name, saplingKind .saplingTransaction args, false, [], path⟩
    | .saplingTransactionDeprecated, args =>
      .ok ⟨name, saplingKind .saplingTransactionDeprecated args, false, [], path⟩
    | c, [] => .ok ⟨name, .type c, false, [], path⟩
    | c, args => .error (.arity c 0 args.length)
  | e => .error (.notAType e.describe)
/-- The fields of the comb of pairs whose arguments these are. -/
def combFields : List Expr → List Nat → Except TypeError (List Typedef)
  | [first, .app (.type .pair) args [] false], path => do
    let t ← build first "" (path ++ [0])
    return t :: (← combFields args (path ++ [1]))
  | [first, second], path => do
    let t ← build first "" (path ++ [0])
    return [t, ← build second "" (path ++ [1])]
  | first :: second :: third :: rest, path => do
    let t ← build first "" (path ++ [0])
    return t :: (← combFields (second :: third :: rest) (path ++ [1]))
  | args, _ => .error (.arity .pair 2 args.length)
/-- The branches of the nest of alternatives whose arguments these are. A first branch without a
label takes the given name, all others the same generated one. -/
def branches (first : String) : List Expr → List Nat → Except TypeError (List Typedef)
  | [left, right], path => do
    let ls ← match left with
      | .app (.type .or) args _ _ => branches "@or_1" args (path ++ [0])
      | e => (build e first (path ++ [0])).map ([·])
    let rs ← match right with
      | .app (.type .or) args _ _ => branches "@or_1" args (path ++ [1])
      | e => (build e "@or_1" (path ++ [1])).map ([·])
    return ls ++ rs
  | args, _ => .error (.arity .or 2 args.length)
end

/-- The type in a `parameter` or `storage` section with one argument; any other expression as it
is. -/
def sectionType : Expr → Expr
  | .app (.keyword .parameter) [type] _ _ | .app (.keyword .storage) [type] _ _ => type
  | e => e

/-- **The typedef of a type** or of the section that declares it. -/
def derive (e : Expr) (name : String) : Except TypeError Typedef := build (sectionType e) name []

end Typedef

end Michelson

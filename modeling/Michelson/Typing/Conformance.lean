import Michelson.Diagnostic
import Michelson.Expr.Comb
import Michelson.Typedef.Basic

/-!
# Conformance of values to typedefs

An untyped value conforms to a typedef if it can be read as a value of the type that is
described. The fields of a struct are found in a right comb by their paths, and the branch of a
union by the wrappers around the value. What an option wraps is not looked at.

## Main definitions

* `Expr.combField?`: a field of a comb
* `Expr.unwrap?`: the payload of an alternative and the steps to its branch
* `Mismatch`: where and why a value does not conform
* `Typedef.check`: whether a value conforms, with the first mismatch
* `Typedef.accepts`: whether a value conforms
-/

namespace Michelson

namespace Expr

/-- Whether a value is a comb: a pair or a sequence of two or more components. -/
def isComb : Expr → Bool
  | .app (.data .pair) (_ :: _ :: _) _ _ => true
  | .seq (_ :: _ :: _) _ => true
  | _ => false

/-- The field of a comb at a path. -/
def combField? (value : Expr) : List Nat → Option Expr
  | [] => some value
  | i :: path => if value.isComb then (value.combArg? i).bind (combField? · path) else none

/-- The payload within the wrappers `Left` and `Right` of a value, as soon as the steps that
they stand for are the address of a branch. The steps taken so far come first. -/
def unwrapFrom? (isBranch : List Nat → Bool) (steps : List Nat) :
    Expr → Option (List Nat × Expr)
  | .app (.data .left) [inner] _ _ =>
    let steps := steps ++ [0]
    if isBranch steps then some (steps, inner) else unwrapFrom? isBranch steps inner
  | .app (.data .right) [inner] _ _ =>
    let steps := steps ++ [1]
    if isBranch steps then some (steps, inner) else unwrapFrom? isBranch steps inner
  | _ => none

/-- The payload of an alternative and the address of its branch. -/
def unwrap? (isBranch : List Nat → Bool) (value : Expr) : Option (List Nat × Expr) :=
  unwrapFrom? isBranch [] value

end Expr

/-- What may help to mend a mismatch. -/
inductive Advice where
  | writeOption | writeUnion | writeEntry
  deriving DecidableEq, Repr

/-- The wording of an advice. -/
def Advice.text : Advice → String
  | writeOption => "optional values are written `Some x` or `None`"
  | writeUnion => "union values are nested `Left` and `Right` wrappers"
  | writeEntry => "map entries are written `Elt key value`"

/-- **A mismatch**: a value that does not conform to the typedef expected of it. -/
structure Mismatch where
  expected : Typedef
  value : Expr
  advice : Option Advice := none

/-- How the mismatch is reported. -/
def Mismatch.diagnostic (m : Mismatch) : Diagnostic :=
  let path := "/" ++ String.intercalate "/" (m.expected.path.map toString)
  { code := "micheline::conform::mismatch"
    message := s!"expected {m.expected.text} at path {path}, found {m.value.describe}"
    help := m.advice.map Advice.text }

namespace TypeConstructor

/-- Whether values of a type may be integer literals. -/
def takesInt : TypeConstructor → Bool
  | int | nat | mutez | timestamp | bigMap | saplingState | bls12381Fr => true
  | _ => false

/-- Whether values of a type may be text literals. -/
def takesText : TypeConstructor → Bool
  | string | address | key | keyHash | timestamp | signature | chainId | contract
  | txRollupL2Address => true
  | _ => false

/-- Whether values of a type may be byte literals. -/
def takesBytes : TypeConstructor → Bool
  | bytes | address | key | keyHash | signature | chainId | contract | txRollupL2Address
  | bls12381G1 | bls12381G2 | bls12381Fr | saplingTransaction | chest | chestKey => true
  | _ => false

/-- Whether a value that has no components to look at is one of a type. -/
def takesWhole (c : TypeConstructor) : Expr → Bool
  | .int .. => c.takesInt
  | .string .. => c.takesText
  | .bytes .. => c.takesBytes
  | .seq .. => c = lambda || c = saplingState
  | .app (.data .lambdaRec) .. => c = lambda
  | .app (.data .true) [] .. | .app (.data .false) [] .. => c = bool
  | .app (.data .unit) [] .. => c = unit
  | .app (.data .some) [_] .. | .app (.data .none) [] .. => c = option
  | .app (.data .pair) (_ :: _ :: _) .. => c = ticket
  | .app .. => false

end TypeConstructor

namespace Typedef

/-- Whether a value is one of an optional type, to the point that is looked at. -/
def isOptionValue : Expr → Bool
  | .app (.data .some) [_] .. | .app (.data .none) [] .. => true
  | _ => false

/-- What there is to look at in a value that is to be of some type. -/
inductive Components where
  /-- The items of a list or set. -/
  | items (items : List Expr)
  /-- The entries of a map. -/
  | entries (items : List Expr)
  /-- Nothing more: the value is of the type or not. -/
  | whole (taken : Bool)

/-- What there is to look at in a value that is to be of a type. -/
def componentsOf (c : TypeConstructor) (value : Expr) : Components :=
  match c, value with
  | .list, .seq items _ | .set, .seq items _ => .items items
  | .map, .seq items _ | .bigMap, .seq items _ => .entries items
  | c, value => .whole (c.takesWhole value)

/-- The key and the value of an entry of a map of the given type. -/
def entryParts (mapType : Typedef) (item : Expr) : Except Mismatch (Expr × Expr) :=
  match item.children with
  | [key, value] =>
    if item.applies (.data .elt) then .ok (key, value)
    else .error ⟨mapType, item, some .writeEntry⟩
  | _ => .error ⟨mapType, item, none⟩

mutual
/-- **Whether a value conforms to a typedef**; if not, the first mismatch. -/
def check (t : Typedef) (value : Expr) : Except Mismatch Unit :=
  match t with
  | ⟨name, kind, optional, args, path⟩ =>
    let t : Typedef := ⟨name, kind, optional, args, path⟩
    if optional then
      if isOptionValue value then .ok () else .error ⟨t, value, some .writeOption⟩
    else match kind with
      | .struct => checkFields path.length args value
      | .union =>
        match value.unwrap? fun steps => args.any (·.path.drop path.length == steps) with
        | some (steps, payload) => checkBranch path.length steps args payload
        | none => .error ⟨t, value, some .writeUnion⟩
      | .type c | .sapling (.type c) _ =>
        match componentsOf c value with
        | .items items => checkItems args items
        | .entries items => checkEntries t args items
        | .whole taken => if taken then .ok () else .error ⟨t, value, none⟩
      | .sapling _ _ => .error ⟨t, value, none⟩
/-- Checks each field of a struct whose own path has the given length. -/
def checkFields (depth : Nat) : List Typedef → Expr → Except Mismatch Unit
  | [], _ => .ok ()
  | t :: ts, value => do
    match value.combField? (t.path.drop depth) with
    | some field => check t field
    | none => .error ⟨t, value, none⟩
    checkFields depth ts value
/-- Checks a payload by the first branch at the given steps, in a union whose own path has the
given length. -/
def checkBranch (depth : Nat) (steps : List Nat) : List Typedef → Expr → Except Mismatch Unit
  | [], _ => .ok ()
  | t :: ts, payload =>
    if t.path.drop depth == steps then check t payload
    else checkBranch depth steps ts payload
/-- Checks the items of a list or set by the component of its type, if that is known. -/
def checkItems : List Typedef → List Expr → Except Mismatch Unit
  | [], _ => .ok ()
  | item :: _, items => items.forM (check item)
/-- Checks the entries of a map by the two components of its type. -/
def checkEntries (mapType : Typedef) : List Typedef → List Expr → Except Mismatch Unit
  | [keyType, valueType], items => items.forM fun item => do
    let (k, v) ← entryParts mapType item
    check keyType k
    check valueType v
  | _, items => items.forM fun item => (entryParts mapType item).map fun _ => ()
end

/-- Whether a value conforms to a typedef. -/
def accepts (t : Typedef) (value : Expr) : Bool := (t.check value).toBool

end Typedef

end Michelson

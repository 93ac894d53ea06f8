import Michelson.BigMap.Record
import Michelson.Typing.Conformance

/-!
# Big maps in a storage

A storage value holds big maps by their ids. They are found along the typedef of the storage, and
each is known by the name that its typedef has there; a name that is taken is followed by a
number.

## Main definitions

* `BigMap.freshName`: a name that is not taken
* `Typedef.bigMaps`: the big maps in a value
* `BigMap.detect`: the big maps in a storage, sorted by name
-/

namespace Michelson

namespace BigMap

/-- Big maps by name, in the order in which they were found. -/
abbrev Found := List (String × Int)

/-- Whether a name is taken. -/
def isTaken (found : Found) (name : String) : Bool := found.any (·.1 == name)

/-- The name itself if it is free, else the name with the least number after it that makes it
free. One of as many numbers as names are taken, and one more, does. -/
def freshName (found : Found) (name : String) : String :=
  if isTaken found name then
    let candidates := (List.range (found.length + 1)).map fun i => s!"{name}_{i + 1}"
    (candidates.find? fun candidate => !isTaken found candidate).getD name
  else name

end BigMap

namespace Typedef

open BigMap

/-- What an option value wraps, if the typedef is optional, or the value itself. -/
def payload? (optional : Bool) (value : Expr) : Option Expr :=
  if optional then
    match value with
    | .app (.data .some) [inner] _ _ => some inner
    | _ => none
  else some value

mutual
/-- **The big maps in a value** after those found before, from left to right. -/
def bigMaps : Typedef → Expr → Found → Except BigMap.Error Found
  | ⟨name, kind, optional, args, path⟩, value, found =>
    match payload? optional value with
    | none => .ok found
    | some value => match kind with
      | .struct => fieldBigMaps path.length args value found
      | .union =>
        match value.unwrap? fun steps => args.any (·.path.drop path.length == steps) with
        | some (steps, payload) => branchBigMaps path.length steps args payload found
        | none => .ok found
      | .type .bigMap => match value with
        | .int id _ => do
          let id ← checkId id
          return found ++ [(freshName found name, id)]
        | _ => .ok found
      | _ => .ok found
/-- The big maps in the fields of a struct whose own path has the given length. -/
def fieldBigMaps (depth : Nat) : List Typedef → Expr → Found → Except BigMap.Error Found
  | [], _, found => .ok found
  | t :: ts, value, found => do
    let found ← match value.combField? (t.path.drop depth) with
      | some field => bigMaps t field found
      | none => .ok found
    fieldBigMaps depth ts value found
/-- The big maps in a payload of the first branch at the given steps, in a union whose own path
has the given length. -/
def branchBigMaps (depth : Nat) (steps : List Nat) :
    List Typedef → Expr → Found → Except BigMap.Error Found
  | [], _, found => .ok found
  | t :: ts, payload, found =>
    if t.path.drop depth == steps then bigMaps t payload found
    else branchBigMaps depth steps ts payload found
end

end Typedef

namespace BigMap

/-- **The big maps in a storage** of a given type, sorted by name. -/
def detect (storageType storage : Expr) : Except Error Found := do
  let t ← (Typedef.derive storageType "storage").mapError .type
  let found ← t.bigMaps storage []
  return found.mergeSort fun a b => a.1 ≤ b.1

end BigMap

end Michelson

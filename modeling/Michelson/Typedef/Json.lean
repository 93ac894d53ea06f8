import Michelson.Json.Basic
import Michelson.Typedef.Basic

/-!
# The JSON form of typedefs

A typedef is an object with the members `name`, `type`, `optional`, `args` and `path`; no
option and no components are left out when written and taken for granted when read. An array of
the members' values in this order is read too.

## Main definitions

* `Typedef.toJson`: the JSON value of a typedef
* `Typedef.ofJson`: the typedef with a given JSON value
* `TypedefFault`: why a JSON value is no typedef
-/

namespace Michelson

/-- Why a JSON value is no typedef. -/
inductive TypedefFault where
  /-- The text of a kind has no meaning. -/
  | notAType (text : String)
  /-- A member is missing or holds a value of another sort. -/
  | malformed
  deriving DecidableEq, Repr

namespace Typedef

mutual
/-- **The JSON value of a typedef.** -/
def toJson : Typedef → Json
  | ⟨name, kind, optional, args, path⟩ =>
    .object ([("name", .string name), ("type", .string kind.text)]
      ++ (if optional then [("optional", .bool true)] else [])
      ++ (if args.isEmpty then [] else [("args", .array (toJsonAll args))])
      ++ [("path", .array (path.map fun (n : Nat) => .number (.integer n)))])
/-- The JSON values of typedefs. -/
def toJsonAll : List Typedef → List Json
  | [] => []
  | t :: ts => toJson t :: toJsonAll ts
end

/-- The members of a typedef that were read so far. -/
structure Draft where
  name : Option String := none
  kind : Option Kind := none
  optional : Bool := false
  args : List Typedef := []
  path : List Nat := []

/-- The typedef of a draft, which needs a name and a kind. -/
def Draft.finish (draft : Draft) : Except TypedefFault Typedef :=
  match draft.name, draft.kind with
  | some name, some kind => .ok ⟨name, kind, draft.optional, draft.args, draft.path⟩
  | _, _ => .error .malformed

/-- The name that a JSON value holds. -/
def nameOfJson (value : Json) : Except TypedefFault String :=
  match value with
  | .string name => .ok name
  | _ => .error .malformed

/-- The kind that a JSON value holds. -/
def kindOfJson (value : Json) : Except TypedefFault Kind :=
  match value with
  | .string text => match Kind.ofText? text with
    | some kind => .ok kind
    | none => .error (.notAType text)
  | _ => .error .malformed

/-- The truth value that a JSON value holds. -/
def optionalOfJson (value : Json) : Except TypedefFault Bool :=
  match value with
  | .bool flag => .ok flag
  | _ => .error .malformed

/-- The step of a path that a JSON value holds: an integer from 0 to 2⁶⁴ − 1. -/
def stepOfJson? : Json → Option Nat
  | .number (.integer n) => if 0 ≤ n then some n.toNat else none
  | _ => none

/-- The path that a JSON value holds. -/
def pathOfJson (value : Json) : Except TypedefFault (List Nat) :=
  match value with
  | .array steps => match steps.mapM stepOfJson? with
    | some path => .ok path
    | none => .error .malformed
  | _ => .error .malformed

mutual
/-- **The typedef with a given JSON value.** The members of an object are read in order, and
unknown ones are passed over. -/
def ofJson : Json → Except TypedefFault Typedef
  | .object members => do (← ofMembers members {}).finish
  | .array (name :: kind :: rest) => do
    let name ← nameOfJson name
    let kind ← kindOfJson kind
    match rest with
    | [] => return ⟨name, kind, false, [], []⟩
    | optional :: rest =>
      let optional ← optionalOfJson optional
      match rest with
      | [] => return ⟨name, kind, optional, [], []⟩
      | .array args :: rest =>
        let args ← ofJsonAll args
        match rest with
        | [] => return ⟨name, kind, optional, args, []⟩
        | [path] => return ⟨name, kind, optional, args, ← pathOfJson path⟩
        | _ => .error .malformed
      | _ => .error .malformed
  | _ => .error .malformed
/-- A draft with further members of an object. -/
def ofMembers : List (String × Json) → Draft → Except TypedefFault Draft
  | [], draft => .ok draft
  | (member, value) :: members, draft =>
    if member = "args" then
      match value with
      | .array args => do
        let args ← ofJsonAll args
        ofMembers members { draft with args := args }
      | _ => .error .malformed
    else if member = "name" then do
      let name ← nameOfJson value
      ofMembers members { draft with name := some name }
    else if member = "optional" then do
      let optional ← optionalOfJson value
      ofMembers members { draft with optional := optional }
    else if member = "path" then do
      let path ← pathOfJson value
      ofMembers members { draft with path := path }
    else if member = "type" then do
      let kind ← kindOfJson value
      ofMembers members { draft with kind := some kind }
    else ofMembers members draft
/-- The typedefs with given JSON values. -/
def ofJsonAll : List Json → Except TypedefFault (List Typedef)
  | [] => .ok []
  | x :: xs => do
    let t ← ofJson x
    return t :: (← ofJsonAll xs)
end

end Typedef

end Michelson

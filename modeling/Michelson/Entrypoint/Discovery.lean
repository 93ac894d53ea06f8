import Michelson.Typedef.Derive

/-!
# Entrypoints

The parameter of a contract is a nest of alternatives, and each of its leaves is an entrypoint:
it can be called by name, and its argument is wrapped on the way to the root. A nest that
carries a given annotation may be kept whole.

## Main definitions

* `Side`, `Entrypoint`: the way to a leaf, and an entrypoint
* `Entrypoint.signature`: the typedef of the argument
* `Entrypoints`: the entrypoints of a contract, ordered by their ids
* `Entrypoints.discover`: the entrypoints of a parameter type
-/

namespace Michelson

/-- A side of an alternative. -/
inductive Side where
  | left | right
  deriving DecidableEq, Repr

/-- The text of the way from the parameter to a leaf, such as `/L/R`. -/
def branchText (sides : List Side) : String :=
  String.join (sides.map fun
    | .left => "/L"
    | .right => "/R")

/-- **An entrypoint**: a leaf of the parameter. The id counts the leaves from the left. -/
structure Entrypoint where
  id : Nat
  name : String
  branch : List Side
  /-- The fields of a leaf that is a struct; of any other the leaf itself. -/
  arguments : List Typedef
  leaf : Expr

/-- The typedef of the argument as one, named after the entrypoint. -/
def Entrypoint.signature (entry : Entrypoint) : Typedef :=
  match entry.arguments with
  | [single] => single
  | args => ⟨entry.name, .struct, false, args, []⟩

/-- **The entrypoints of a contract**, ordered by their ids. -/
structure Entrypoints where
  entries : List Entrypoint

namespace Entrypoints

/-- The entrypoint of a given name. -/
def get? (es : Entrypoints) (name : String) : Option Entrypoint :=
  es.entries.find? (·.name == name)

/-- The entrypoint with a given id. -/
def findId? (es : Entrypoints) (id : Nat) : Option Entrypoint := es.entries.find? (·.id == id)

/-- The entrypoint at the end of a given way. -/
def findBranch? (es : Entrypoints) (branch : String) : Option Entrypoint :=
  es.entries.find? (branchText ·.branch == branch)

/-- Adds an entrypoint, which takes the place of one of the same name. -/
def insert (es : Entrypoints) (entry : Entrypoint) : Entrypoints :=
  ⟨es.entries.filter (·.name ≠ entry.name) ++ [entry]⟩

/-- The leaves of a nest of alternatives with the ways to them. Alternatives for which `keep`
holds are leaves, too. -/
def leaves (keep : Expr → Bool) (branch : List Side) :
    Expr → Except TypeError (List (List Side × Expr))
  | .app (.type .or) args annots flag =>
    if keep (.app (.type .or) args annots flag) then
      .ok [(branch, .app (.type .or) args annots flag)]
    else match args with
      | [left, right] => do
        let ls ← leaves keep (branch ++ [.left]) left
        let rs ← leaves keep (branch ++ [.right]) right
        return ls ++ rs
      | args => .error (.arity .or 2 args.length)
  | e => .ok [(branch, e)]

/-- The name of a leaf: its field name if that is free, else `default` for the first leaf if no
leaf has this name, else a generated one. -/
def nameLeaf (es : Entrypoints) (hasDefault : Bool) (id : Nat) (leaf : Expr) : String :=
  let generated := if id = 0 && !hasDefault then "default" else s!"@entrypoint_{id}"
  match leaf.annot? .field with
  | some name => if (es.get? name).isNone then name else generated
  | none => generated

/-- The entrypoint of a leaf under a given name. -/
def ofLeaf (id : Nat) (name : String) (branch : List Side) (leaf : Expr) :
    Except TypeError Entrypoint := do
  let t ← Typedef.build leaf name []
  let root := { t with name := name }
  return ⟨id, name, branch, if root.isStruct then root.args else [root], leaf⟩

/-- The entrypoints after those of further leaves, of which the first has the given id. -/
def addLeaves (hasDefault : Bool) (es : Entrypoints) (id : Nat) :
    List (List Side × Expr) → Except TypeError Entrypoints
  | [] => .ok es
  | (branch, leaf) :: rest => do
    let entry ← ofLeaf id (es.nameLeaf hasDefault id leaf) branch leaf
    addLeaves hasDefault (es.insert entry) (id + 1) rest

/-- The type in a `parameter` section with one argument; any other expression as it is. -/
def parameterType : Expr → Expr
  | .app (.keyword .parameter) [type] _ _ => type
  | e => e

/-- **The entrypoints of a parameter type**, or of the section that declares it. A nest with an
annotation that starts with one of the texts in `keep` is not split. -/
def discover (parameter : Expr) (keep : List String) : Except TypeError Entrypoints := do
  let found ← leaves (fun e => keep.any (e.hasAnnotStarting ·)) [] (parameterType parameter)
  let hasDefault := found.any fun (_, leaf) => leaf.annot? .field == some "default"
  addLeaves hasDefault ⟨[]⟩ 0 found

end Entrypoints

end Michelson

import Michelson.Marshal.Assembly
import Michelson.Marshal.Order
import Michelson.Marshal.Scalar

/-!
# Values from host values

A typedef tells how a host value, a JSON value, is turned into a value of the type: the fields of
a struct are taken from the members of an object or the items of an array and assembled along
their paths, the one member of an object names the branch of a union, and collections are
sorted where the type asks for it.

## Main definitions

* `Typedef.unwrapName`: a host value under the name of its own type
* `Typedef.hostField`: the host value of a field
* `Typedef.sortedSequence`: a collection, which there is none if its items cannot be sorted
* `Typedef.marshal`: the value of a type that a host value stands for
-/

namespace Michelson.Typedef

/-- What an object holds if its only member has the name of the typedef; any other host value
as it is. Structs, and unions with a branch of their own name, read such objects themselves. -/
def unwrapName (t : Typedef) (value : Json) : Json :=
  match value with
  | .object [(name, inner)] =>
    if t.isStruct || (t.isUnion && (t.child? t.name).isSome) then value
    else if name = t.name then inner
    else value
  | value => value

/-- The host value of a field at a position of a struct: the member of its name or the item at
its position. An optional field may be left out of an object, and a struct without a name of its
own reads the same object. -/
def hostField (struct : Typedef) (value : Json) (position : Nat) (field : Typedef) :
    Except MarshalError Json :=
  match value with
  | .object members => match Json.lookup? field.name members with
    | some v => .ok v
    | none =>
      if field.optional then .ok .null
      else if field.isStruct && field.isAnonymous then .ok value
      else .error (.missing field.name)
  | .array items => match items[position]? with
    | some v => .ok v
    | none => .error (.missing field.name)
  | other => struct.misshapen .fields other

/-- The branch that the only member of an object names, and what it holds. -/
def hostBranch (union : Typedef) (value : Json) : Except MarshalError (Typedef × Json) :=
  match value with
  | .object [(name, inner)] => match union.args.find? (·.name == name) with
    | some branch => .ok (branch, inner)
    | none => .error (.noBranch union.name)
  | .object _ => .error (.noBranch union.name)
  | other => union.misshapen .branch other

/-- A value wrapped along the steps to its branch. -/
def wrapBranch (steps : List Nat) (payload : Expr) : Expr :=
  steps.foldr (fun step e => .app (.data (if step = 0 then .left else .right)) [e]) payload

/-- The host values of items. -/
def hostItems (t : Typedef) (value : Json) : Except MarshalError (List Json) :=
  match value with
  | .array items => .ok items
  | other => t.misshapen .items other

/-- The host values of the key and the value of an entry that is an item of an array; a missing
value is null. -/
def hostEntry (t : Typedef) (entry : Json) : Except MarshalError (Json × Json) :=
  match entry with
  | .object members => match Json.lookup? "key" members with
    | some key => .ok (key, (Json.lookup? "value" members).getD .null)
    | none => .error (.missing (t.name ++ ".key"))
  | other => t.misshapen .entry other

/-- The items of a collection as a sequence, if they could be sorted. -/
def sortedSequence : Option (List Expr) → Except MarshalError Expr
  | some items => .ok (.seq items)
  | none => .error .disordered

mutual
/-- **The value of a type** that a host value stands for. -/
def marshal (form : ScalarForm) (t : Typedef) (value : Json) : Except MarshalError Expr :=
  match t with
  | ⟨name, kind, optional, args, path⟩ => do
    let t : Typedef := ⟨name, kind, optional, args, path⟩
    let value := t.unwrapName value
    match optional, value with
    | true, .null => return .app (.data .none) []
    | optional, value =>
      let e ← (match kind with
        | .struct => do
          match Expr.assemble? (← marshalFields form t value 0 args) with
          | some comb => return comb
          | none => t.unsupported
        | .union => do
          let (branch, inner) ← t.hostBranch value
          marshalBranch form t branch.name inner args
        | .type .list | .sapling (.type .list) _ => do
          return .seq (← marshalItems form t value args)
        | .type .set | .sapling (.type .set) _ => do
          sortedSequence (Expr.sortItems? (← marshalItems form t value args))
        | .type .map | .sapling (.type .map) _ => do
          sortedSequence (Expr.sortEntries? (← marshalEntries form t value args))
        | .type .bigMap | .sapling (.type .bigMap) _ => match value with
          | .number _ => t.hostInteger false value
          | value => do
            sortedSequence (Expr.sortEntries? (← marshalEntries form t value args))
        | .type c | .sapling (.type c) _ => t.scalar c form value
        | .sapling _ _ => t.unsupported : Except MarshalError Expr)
      return if optional then .app (.data .some) [e] else e
termination_by structural t
/-- The values of the fields of a struct from a position on, each with its path. -/
def marshalFields (form : ScalarForm) (struct : Typedef) (value : Json) (position : Nat) :
    List Typedef → Except MarshalError (List (List Nat × Expr))
  | [] => .ok []
  | t :: ts => do
    let v ← struct.hostField value position t
    let e ← marshal form t v
    return (t.pathFrom struct, e) :: (← marshalFields form struct value (position + 1) ts)
termination_by structural ts => ts
/-- The value of the first branch of a union with a given name, wrapped along the steps to it. -/
def marshalBranch (form : ScalarForm) (union : Typedef) (name : String) (inner : Json) :
    List Typedef → Except MarshalError Expr
  | [] => .error (.noBranch union.name)
  | t :: ts =>
    if t.name = name then do return wrapBranch (t.pathFrom union) (← marshal form t inner)
    else marshalBranch form union name inner ts
termination_by structural ts => ts
/-- The values of the items of a list or set. -/
def marshalItems (form : ScalarForm) (collection : Typedef) (value : Json) :
    List Typedef → Except MarshalError (List Expr)
  | [] => collection.unsupported
  | item :: _ => do (← collection.hostItems value).mapM (marshal form item)
termination_by structural ts => ts
/-- The values of the entries of a map: they are the members of an object, whose names are texts, or
the items of an array. -/
def marshalEntries (form : ScalarForm) (collection : Typedef) (value : Json) :
    List Typedef → Except MarshalError (List Expr)
  | keyType :: valueType :: _ => match value with
    | .object members => members.mapM fun (name, v) => do
      let key ← marshal form keyType (.string name)
      return .app (.data .elt) [key, ← marshal form valueType v]
    | .array items => items.mapM fun item => do
      let (k, v) ← collection.hostEntry item
      let key ← marshal form keyType k
      return .app (.data .elt) [key, ← marshal form valueType v]
    | other => collection.misshapen .entries other
  | _ => collection.unsupported
termination_by structural ts => ts
end

end Michelson.Typedef

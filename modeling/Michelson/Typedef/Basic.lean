import Michelson.Typedef.Kind

/-!
# Typedefs

A typedef is the description of a type by names: its components are listed flat, each with its
name and with the path that leads to it in the type. A path counts arguments from the root,
with longer pairs read as right combs and without steps into options.

## Main definitions

* `Typedef`: a typedef
* `isAnonymousName`: names that stand for no name
* `Typedef.child?`, `Typedef.pathFrom`: components and their paths within another typedef
* `Typedef.text`: a typedef on one line
* `Typedef.same`: equality of typedefs
-/

namespace Michelson

/-- **The description of a type.** An optional one stands for an option of what it
describes. -/
structure Typedef where
  name : String
  kind : Typedef.Kind
  optional : Bool := false
  args : List Typedef := []
  path : List Nat := []
  deriving Repr

/-- Whether a name stands for no name: it is empty, a number, or generated, which the sign `@`
in front tells. -/
def isAnonymousName (name : String) : Bool :=
  name.toList.head? == some '@' || name.toList.all Char.isDigit

/-- Whether a name is a number. -/
def isPositionalName (name : String) : Bool := name ≠ "" && name.toList.all Char.isDigit

namespace Typedef

/-- Whether a typedef describes a struct, optional or not. -/
def isStruct (t : Typedef) : Bool := t.kind == .struct

/-- Whether a typedef describes a union, optional or not. -/
def isUnion (t : Typedef) : Bool := t.kind == .union

/-- Whether a typedef has no name of its own. -/
def isAnonymous (t : Typedef) : Bool := isAnonymousName t.name

/-- The first component with a given name. -/
def child? (t : Typedef) (name : String) : Option Typedef := t.args.find? (·.name == name)

/-- The path of a component within the typedef that it lies under. -/
def pathFrom (t parent : Typedef) : List Nat := t.path.drop parent.path.length

mutual
/-- A typedef on one line, such as `struct { from: address, to: option<nat> }`. -/
def text : Typedef → String
  | ⟨_, kind, optional, args, _⟩ =>
    let bare := match kind with
      | .struct | .union =>
        kind.text ++ " \x7b " ++ String.intercalate ", " (fieldTexts args) ++ " \x7d"
      | _ =>
        if args.isEmpty then kind.text
        else kind.text ++ "<" ++ String.intercalate ", " (argTexts args) ++ ">"
    if optional then "option<" ++ bare ++ ">" else bare
/-- The texts of typedefs, each after its name. -/
def fieldTexts : List Typedef → List String
  | [] => []
  | t :: ts => (t.name ++ ": " ++ text t) :: fieldTexts ts
/-- The texts of typedefs. -/
def argTexts : List Typedef → List String
  | [] => []
  | t :: ts => text t :: argTexts ts
end

mutual
/-- Whether two typedefs are the same in every part. -/
def same : Typedef → Typedef → Bool
  | ⟨name, kind, optional, args, path⟩, ⟨name', kind', optional', args', path'⟩ =>
    name == name' && kind == kind' && optional == optional' && path == path'
      && sameAll args args'
/-- Whether two lists of typedefs are the same item by item. -/
def sameAll : List Typedef → List Typedef → Bool
  | [], [] => true
  | t :: ts, u :: us => same t u && sameAll ts us
  | _, _ => false
end

instance : BEq Typedef := ⟨same⟩

end Typedef

end Michelson

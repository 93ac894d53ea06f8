import Michelson.Expr.Basic

/-!
# Annotations

An annotation starts with a sign that tells its class: `%` names a field, `:` a type and `@` a
variable. The label of a node is its field name or else its type name.

## Main definitions

* `AnnotClass`, `AnnotClass.sign`: the three classes and their signs
* `Expr.annot?`: the name that a node carries in a class
* `Expr.label?`: the name of the node as a component of a larger type
* `Expr.hasAnnotStarting`: whether some annotation starts with a text
* `Expr.strip`: an expression without any annotation
-/

namespace Michelson

/-- The classes of annotations. -/
inductive AnnotClass where
  | field | type | var
  deriving DecidableEq, Repr

/-- The sign that annotations of a class start with. -/
def AnnotClass.sign : AnnotClass → Char
  | field => '%'
  | type => ':'
  | var => '@'

/-- Whether a character is the sign of some class. -/
def isAnnotSign (c : Char) : Bool := c == '%' || c == ':' || c == '@'

namespace Expr

/-- The text after a sign, if the annotation starts with it. -/
def afterSign? (sign : Char) (annot : String) : Option String :=
  match annot.toList with
  | c :: name => if c = sign then some (String.ofList name) else none
  | [] => none

/-- The name that a node carries in a class. Only the first annotation of the class counts, and
a bare sign is no name. -/
def annot? (cls : AnnotClass) (e : Expr) : Option String :=
  (e.annots.findSome? (afterSign? cls.sign)).filter (· ≠ "")

/-- The name of a node as a component of a larger type: its field name or else its type
name. -/
def label? (e : Expr) : Option String := e.annot? .field <|> e.annot? .type

/-- Whether some annotation starts with a text, its signs left aside. -/
def hasAnnotStarting (start : String) (e : Expr) : Bool :=
  e.annots.any fun annot => start.toList.isPrefixOf (annot.toList.dropWhile isAnnotSign)

mutual
/-- The expression without any annotation. -/
def strip : Expr → Expr
  | int n _ => int n
  | string s _ => string s
  | bytes b _ => bytes b
  | seq xs _ => seq (stripAll xs)
  | app p xs _ flag => app p (stripAll xs) [] flag
/-- The expressions without any annotation. -/
def stripAll : List Expr → List Expr
  | [] => []
  | x :: xs => strip x :: stripAll xs
end

@[simp] theorem stripAll_eq_map (xs : List Expr) : stripAll xs = xs.map strip := by
  induction xs with
  | nil => rfl
  | cons x xs ih => simp [stripAll, ih]

@[simp] theorem annots_strip (e : Expr) : e.strip.annots = [] := by
  cases e <;> simp [strip, annots]

@[simp] theorem packed_strip (e : Expr) : e.strip.packed = e.packed := by
  cases e <;> simp [strip, packed]

end Expr

end Michelson

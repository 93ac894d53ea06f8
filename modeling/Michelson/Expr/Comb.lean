import Michelson.Expr.Basic

/-!
# Right combs

A tuple of three or more components may be written as a pair of more than two arguments, as a
sequence, or as pairs nested to the right. All three are read as the nested form: component `1`
of a longer pair or sequence is what remains without the first component.

## Main definitions

* `Primitive.isPair`: the primitives `Pair` and `pair`
* `Expr.binaryPair`: a longer pair as one of two components
* `Expr.combArg?`: a component of the nested form
* `Expr.combAt?`: the node at a path of such components
-/

namespace Michelson

/-- Whether a primitive builds pairs, of values or of types. -/
def Primitive.isPair (p : Primitive) : Bool := p == .data .pair || p == .type .pair

namespace Expr

/-- A pair of more than two arguments as a pair of its first argument and a pair of the others;
any other expression as it is. The new inner pair is plain. -/
def binaryPair : Expr → Expr
  | e@(app p (x :: y :: z :: rest) as flag) =>
    if p.isPair then app p [x, app p (y :: z :: rest)] as flag else e
  | e => e

/-- A component of the comb of some items, where `rebuild` makes a comb of those after the
first. -/
def combItem? (rebuild : List Expr → Expr) : List Expr → Nat → Option Expr
  | x :: _, 0 => some x
  | [_, y], 1 => some y
  | _ :: y :: z :: rest, 1 => some (rebuild (y :: z :: rest))
  | _, _ => none

/-- A component of an expression that is read as a binary comb. A sequence of fewer than two
items is no comb; the arguments of other applications are counted as they stand. -/
def combArg? : Expr → Nat → Option Expr
  | app p xs _ _, i => if p.isPair then combItem? (app p ·) xs i else xs[i]?
  | seq (x :: y :: rest) _, i => combItem? (seq ·) (x :: y :: rest) i
  | _, _ => none

/-- The node at a path of comb components. -/
def combAt? (e : Expr) : List Nat → Option Expr
  | [] => some e
  | i :: path => (e.combArg? i).bind (combAt? · path)

@[simp] theorem combAt?_nil (e : Expr) : e.combAt? [] = some e := rfl

theorem combAt?_cons (e : Expr) (i : Nat) (path : List Nat) :
    e.combAt? (i :: path) = (e.combArg? i).bind (combAt? · path) := rfl

end Expr

end Michelson

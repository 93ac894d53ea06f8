import Michelson.Expr.Basic

/-!
# The order of values

Values of one comparable type are ordered: integers by value, texts and bytes
lexicographically, `False` before `True`, `None` before `Some`, `Left` before `Right`, and pairs
component by component. Values of different shapes have no order.

## Main definitions

* `Expr.compareLiterals?`: the order of two literals of one kind
* `Primitive.rank?`: the place of a constructor among those of its type
* `Expr.compareValues?`: the order of two values
* `Expr.isAscending`: whether literals stand in strictly ascending order
-/

namespace Michelson

/-- The family of a primitive that is a comparable data constructor, and its place within the
family. -/
def Primitive.rank? : Primitive → Option (Nat × Nat)
  | .data .false => some (0, 0)
  | .data .true => some (0, 1)
  | .data .none => some (1, 0)
  | .data .some => some (1, 1)
  | .data .left => some (2, 0)
  | .data .right => some (2, 1)
  | .data .unit => some (3, 0)
  | .data .pair => some (4, 0)
  | _ => none

/-- No two primitives have the same place. -/
theorem Primitive.rank?_injective {p q : Primitive} {place : Nat × Nat}
    (hp : p.rank? = some place) (hq : q.rank? = some place) : p = q := by
  unfold rank? at hp hq
  split at hp <;> cases hp <;> split at hq <;> first | rfl | cases hq

namespace Expr

/-- The order of two literals of one kind. -/
def compareLiterals? : Expr → Expr → Option Ordering
  | int m _, int n _ => some (compare m n)
  | string s _, string t _ => some (compare s t)
  | bytes b _, bytes c _ => some (compare b c)
  | _, _ => none

mutual
/-- **The order of two values.** Constructors of different families, and shapes of different
kinds, have none. -/
def compareValues? : Expr → Expr → Option Ordering
  | app p xs _ _, app q ys _ _ =>
    match p.rank?, q.rank? with
    | some (family, i), some (family', j) =>
      if family ≠ family' then none
      else if i ≠ j then some (compare i j)
      else compareFields? xs ys
    | _, _ => none
  | x, y => compareLiterals? x y
/-- The order of two lists of components: the first difference decides, and if there is none
the shorter list comes first. -/
def compareFields? : List Expr → List Expr → Option Ordering
  | x :: xs, y :: ys => match compareValues? x y with
    | some .eq => compareFields? xs ys
    | order => order
  | xs, ys => some (compare xs.length ys.length)
end

/-- Whether each item is a literal that comes strictly before the next. -/
def isAscending : List Expr → Bool
  | x :: y :: rest => compareLiterals? x y == some .lt && isAscending (y :: rest)
  | _ => true

end Expr

end Michelson

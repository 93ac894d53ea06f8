import Michelson.Expr.Basic

/-!
# Combs assembled from their fields

The fields of a struct come with their paths in its comb. If the paths are the addresses of the
leaves of a binary tree, the comb is that tree with a pair at each inner node.

## Main definitions

* `Expr.assembleFrom?`: the comb of the fields beneath a node
* `Expr.assemble?`: the comb of some fields
-/

namespace Michelson.Expr

/-- Whether the path of a field goes to the left at a node of the given depth. A path that has
ended before does not. -/
def goesLeft (depth : Nat) (field : List Nat × Expr) : Bool := field.1[depth]? == some 0

/-- The fields to the left of a node. -/
def leftFields (depth : Nat) (fields : List (List Nat × Expr)) : List (List Nat × Expr) :=
  fields.filter (goesLeft depth)

/-- The fields to the right of a node. -/
def rightFields (depth : Nat) (fields : List (List Nat × Expr)) : List (List Nat × Expr) :=
  fields.filter fun f => !goesLeft depth f

/-- Each field lies to the left or to the right. -/
theorem length_leftFields_add (depth : Nat) (fields : List (List Nat × Expr)) :
    (leftFields depth fields).length + (rightFields depth fields).length = fields.length := by
  induction fields with
  | nil => rfl
  | cons f fs ih =>
    simp only [leftFields, rightFields] at ih ⊢
    cases h : goesLeft depth f <;> simp [h] <;> omega

/-- What is a whole node: a single field whose path ends there. -/
def wholeNode? (depth : Nat) : List (List Nat × Expr) → Option Expr
  | [(path, e)] => if path.length = depth then some e else none
  | _ => none

/-- **The comb of the fields beneath a node** of the given depth. A single field whose path ends
there is the whole node. Otherwise the next step of every path tells on which side of a pair the
field lies, and both sides need one; so there are fewer fields on either. -/
def assembleFrom? (depth : Nat) (fields : List (List Nat × Expr)) : Option Expr :=
  match wholeNode? depth fields with
  | some e => some e
  | none =>
    if _ : (leftFields depth fields).length = 0 ∨ (rightFields depth fields).length = 0 then none
    else do
      let left ← assembleFrom? (depth + 1) (leftFields depth fields)
      let right ← assembleFrom? (depth + 1) (rightFields depth fields)
      return .app (.data .pair) [left, right]
termination_by fields.length
decreasing_by
  all_goals
    have := length_leftFields_add depth fields
    omega

/-- **The comb of some fields**, from its root on. -/
def assemble? (fields : List (List Nat × Expr)) : Option Expr := assembleFrom? 0 fields

end Michelson.Expr

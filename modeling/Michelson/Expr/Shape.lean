import Michelson.Expr.Order

/-!
# Shapes of untyped values

Without a type, the shape of a sequence tells what it may be: code, a map or a set. Each test
asks for at least one item, and the test for a set for at least three.

## Main definitions

* `Expr.isCode`: a block of instructions
* `Expr.isMap`: a sequence of entries
* `Expr.isSet`: a sequence of ascending literals
-/

namespace Michelson.Expr

mutual
/-- Whether an expression is a non-empty sequence of instructions and of blocks, empty ones
included. -/
def isCode : Expr → Bool
  | seq (x :: xs) _ => isCodeItem x && areCodeItems xs
  | _ => false
/-- Whether an item of a block is an instruction, an empty block or itself code. -/
def isCodeItem : Expr → Bool
  | app p .. => p.isInstruction
  | seq [] _ => true
  | seq (x :: xs) _ => isCodeItem x && areCodeItems xs
  | _ => false
/-- Whether all items are fit for a block. -/
def areCodeItems : List Expr → Bool
  | [] => true
  | x :: xs => isCodeItem x && areCodeItems xs
end

/-- Whether an expression is an entry: a key and a value under `Elt`. -/
def isEntry : Expr → Bool
  | app (.data .elt) [_, _] _ _ => true
  | _ => false

/-- Whether an expression is a non-empty sequence of entries. -/
def isMap : Expr → Bool
  | seq (x :: xs) _ => (x :: xs).all isEntry
  | _ => false

/-- Whether an expression is a sequence of at least three literals of one kind in strictly
ascending order, as the items of a set are written. -/
def isSet : Expr → Bool
  | seq xs _ => 3 ≤ xs.length && isAscending xs
  | _ => false

end Michelson.Expr

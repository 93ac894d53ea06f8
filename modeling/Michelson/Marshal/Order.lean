import Michelson.Expr.Order
import Michelson.Sorting.Stable

/-!
# Sorted collections

The items of a set and the entries of a map are put in the order of their values. Items that are
equal, or have no order, are level. They keep the order that they were given in, unless sorting
finds that the values are in no order at all, and then there is no result.

## Main definitions

* `Expr.precedes`: whether a value comes strictly before another
* `Expr.sortItems?`, `Expr.sortEntries?`: the items of a set and the entries of a map in order
-/

namespace Michelson.Expr

/-- Whether a value comes strictly before another. -/
def precedes (a b : Expr) : Bool := a.compareValues? b == some .lt

/-- The items of a set in the order of their values. -/
def sortItems? (items : List Expr) : Option (List Expr) := sort? precedes items

/-- The key of an entry. -/
def entryKey : Expr → Expr
  | .app _ (key :: _) _ _ => key
  | e => e

/-- The entries of a map in the order of their keys. -/
def sortEntries? (entries : List Expr) : Option (List Expr) :=
  sort? (fun a b => a.entryKey.precedes b.entryKey) entries

end Michelson.Expr

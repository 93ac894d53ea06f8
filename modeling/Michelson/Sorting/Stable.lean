import Michelson.Sorting.Runs

/-!
# Stable sorting

Many items are sorted by partition: those that precede one of them, the pivot, are sorted by
themselves, and so are the others. Pivots that part the items badly are given up after a while.
All that is needed of the order is told by which items come strictly before others, and items that
are level keep the order in which they were given. A relation that is no order of the items may be
found out, and then they are not sorted.

## Main definitions

* `Sorting.quickSort?`: items sorted by partition
* `sort?`: items sorted stably
-/

namespace Michelson

variable {α : Type} (precedes : α → α → Bool)

namespace Sorting

/-- The item of three that is neither first nor last. -/
def median (a b c : α) : α :=
  if precedes a b = precedes a c then if precedes b c = precedes a b then b else c else a

/-- The item by which others are parted: the median of three of them, each of which stands for an
eighth of the items in front, and is in turn such a median if these are many. -/
def pivot (default : α) (total : Nat) (xs : List α) : α :=
  let step := total / 8
  let pick (i : Nat) : α :=
    if 8 ≤ step then pivot default step (xs.drop i) else xs[i]?.getD default
  median precedes (pick 0) (pick (4 * step)) (pick (7 * step))
termination_by total

/-- Items sorted by runs of which none waits, so that it does not matter what sorts those. -/
def sortEagerly? (xs : List α) : Option (List α) :=
  sortRuns? precedes 0 (fun run => some (sortStably precedes run)) false xs

/-- **Items sorted by partition**, for some number of pivots in turn. No item precedes the lower
bound, if there is one. A pivot that is level with it, or that no item precedes, has those that are
level with it to its left, and they are in order. -/
def quickSort? : Nat → Option α → List α → Option (List α)
  | 0, _, xs =>
    if xs.length ≤ shortLength then sortShort? precedes xs
    else sortEagerly? precedes xs
  | _ + 1, _, [] => some []
  | limit + 1, bound, x :: xs =>
    let items := x :: xs
    if items.length ≤ shortLength then sortShort? precedes items
    else
      let p := pivot precedes x items.length items
      if bound.any (fun b => !precedes b p) || !items.any (fun y => precedes y p) then do
        let right ← quickSort? limit none (items.filter fun y => precedes p y)
        return items.filter (fun y => !precedes p y) ++ right
      else do
        let right ← quickSort? limit (some p) (items.filter fun y => !precedes y p)
        let left ← quickSort? limit bound (items.filter fun y => precedes y p)
        return left ++ right

/-- Items sorted by partition, for a number of pivots that depends on how many there are. -/
def sortAll? (xs : List α) : Option (List α) :=
  quickSort? precedes (2 * (xs.length ||| 1).log2) none xs

/-- The number of items that may wait together: all of them if eight million bytes hold them, at 72
bytes each, and at least half of them. -/
def room (total : Nat) : Nat := max (total - total / 2) (min total (8000000 / 72))

end Sorting

open Sorting in
/-- **Items sorted stably**, if the relation is not found to be no order of them. -/
def sort? (xs : List α) : Option (List α) :=
  if xs.length ≤ 20 then some (sortStably precedes xs)
  else if xs.length ≤ 2 * shortLength then sortEagerly? precedes xs
  else sortRuns? precedes (room xs.length) (sortAll? precedes) true xs

end Michelson

/-!
# Sorting few items

Few items are sorted by insertion: each moves to the front past those that it comes before. Of more
items, either half is sorted by insertion, and the two halves are put together from both ends at
once. Items that are level keep the order in which they were given.

The order is told by which items come strictly before others. Where that is no order of the items,
the two ends may take the same item, and then the items are not sorted at all.

## Main definitions

* `insertFromBack`, `sortStably`: insertion into sorted items, and sorting by it
* `Sorting.meet?`: two sorted lists put together from both ends
* `Sorting.sortShort?`: items sorted in two halves
-/

namespace Michelson

variable {α : Type} (precedes : α → α → Bool)

/-! ## Insertion -/

/-- Sorted items, last one first, with one more: it stands before all those at the back that it
precedes. -/
def insertFromBack (x : α) : List α → List α
  | [] => [x]
  | y :: ys => if precedes x y then y :: insertFromBack x ys else x :: y :: ys

/-- Sorted items with others inserted one after the other. -/
def insertAll (sorted xs : List α) : List α :=
  (xs.foldl (fun sorted x => insertFromBack precedes x sorted) sorted.reverse).reverse

/-- Items sorted by insertion. -/
def sortStably (xs : List α) : List α := insertAll precedes [] xs

namespace Sorting

/-! ## Halves -/

/-- Two items in order. -/
def orderTwo (a b : α) : α × α := if precedes b a then (b, a) else (a, b)

/-- Two pairs of items, each in order, put together. The first and the last of all are told by one
comparison each, which leaves two for the middle. -/
def orderPairs (a b c d : α) : List α :=
  let low := precedes c a
  let high := precedes d b
  let middle := orderTwo precedes (if low then a else if high then c else b)
    (if high then d else if low then b else c)
  [if low then c else a, middle.1, middle.2, if high then b else d]

/-- Four items in order. -/
def sortFour (a b c d : α) : List α :=
  let left := orderTwo precedes a b
  let right := orderTwo precedes c d
  orderPairs precedes left.1 left.2 right.1 right.2

/-- Half of some items sorted by insertion, from the fifth one on if there are enough of all. -/
def sortHalf (total : Nat) : List α → List α
  | a :: b :: c :: d :: rest =>
    if 8 ≤ total then insertAll precedes (sortFour precedes a b c d) rest
    else sortStably precedes (a :: b :: c :: d :: rest)
  | xs => sortStably precedes xs

/-- The first items of two sorted lists put together, each with whether it is one of the first list.
Of items that are level, those of the first list come first. -/
def front : Nat → List α → List α → List (α × Bool)
  | 0, _, _ => []
  | n + 1, x :: xs, y :: ys =>
    if precedes y x then (y, false) :: front n (x :: xs) ys else (x, true) :: front n xs (y :: ys)
  | n + 1, xs, [] => (xs.take (n + 1)).map (·, true)
  | n + 1, [], ys => (ys.take (n + 1)).map (·, false)

/-- What is taken from two lists in front and at the back, the last items first, with what is left
between them. Both ends together must not take more items of a list than it has. -/
def close? (low high : List (α × Bool)) (xs ys : List α) : Option (List α) :=
  let a := low.countP (·.2)
  let b := high.countP (!·.2)
  let c := low.countP (!·.2)
  let d := high.countP (·.2)
  if a + b ≤ xs.length ∧ c + d ≤ ys.length then
    some (low.map (·.1) ++ ((xs.take (xs.length - b)).drop a ++ (ys.take (ys.length - d)).drop c) ++
      (high.map (·.1)).reverse)
  else none

/-- **Two sorted lists put together from both ends**: half of the items are taken in front and as
many at the back, where the second list is the first to take from. -/
def meet? (xs ys : List α) : Option (List α) :=
  let half := (xs.length + ys.length) / 2
  close? (front precedes half xs ys) (front (fun x y => precedes y x) half ys.reverse xs.reverse)
    xs ys

/-- The number of items up to which they are sorted in two halves. -/
def shortLength : Nat := 32

/-- **Items sorted in two halves.** -/
def sortShort? (xs : List α) : Option (List α) :=
  if xs.length < 2 then some xs
  else
    let half := xs.length / 2
    meet? precedes (sortHalf precedes xs.length (xs.take half))
      (sortHalf precedes xs.length (xs.drop half))

end Sorting

end Michelson

import Michelson.Sorting.Short

/-!
# Sorting by runs

Items are cut into runs: a stretch that is in order, or in strictly reverse order, is a run if it is
long enough, and other items make runs of a fixed length, which are sorted at once or wait to be
sorted together. Runs are joined by a tree that is as balanced as their lengths allow: the place
between two runs tells how deep in the tree they are joined.

## Main definitions

* `Sorting.Run`: items that stand together
* `Sorting.runs?`: the runs of some items
* `Sorting.joinRuns?`: all runs joined to one
* `Sorting.sortRuns?`: items sorted by runs
-/

namespace Michelson.Sorting

variable {α : Type}

/-- **A run**: some items, and whether they are sorted. -/
structure Run (α : Type) where
  items : List α
  sorted : Bool

section Cutting

variable (precedes : α → α → Bool)

/-- Whether the second item precedes the first. -/
def descends : List α → Bool
  | x :: y :: _ => precedes y x
  | _ => false

/-- The number of items in front of which each precedes the one before it, or of which none does. -/
def stretch (descending : Bool) : List α → Nat
  | x :: y :: rest =>
    if precedes y x = descending then stretch descending (y :: rest) + 1 else 1
  | xs => xs.length

/-- The number of items in front that are in order or in strictly reverse order. -/
def ordered (xs : List α) : Nat := stretch precedes (descends precedes xs) xs

variable (waits : Bool) (good : Nat)

/-- The number of items of the first run. -/
def firstLength (xs : List α) : Nat :=
  if good ≤ ordered precedes xs then ordered precedes xs else if waits then good else shortLength

/-- The first run. -/
def firstRun? (xs : List α) : Option (Run α) :=
  let items := xs.take (firstLength precedes waits good xs)
  if good ≤ ordered precedes xs then
    some ⟨if descends precedes xs then items.reverse else items, true⟩
  else if waits then some ⟨items, false⟩
  else (sortShort? precedes items).map (⟨·, true⟩)

theorem firstLength_pos (x : α) (xs : List α) : 0 < firstLength precedes waits good (x :: xs) := by
  have hordered : 0 < ordered precedes (x :: xs) := by
    unfold ordered stretch
    split
    · split <;> simp
    · simp
  rw [firstLength]
  split
  · exact hordered
  · split
    · omega
    · exact Nat.succ_pos 31

/-- **The runs** of some items. -/
def runs? (xs : List α) : Option (List (Run α)) :=
  match xs with
  | [] => some []
  | x :: xs => do
    let run ← firstRun? precedes waits good (x :: xs)
    return run :: (← runs? ((x :: xs).drop (firstLength precedes waits good (x :: xs))))
termination_by xs.length
decreasing_by
  have hpos := firstLength_pos precedes waits good x xs
  simp only [List.length_drop, List.length_cons]
  omega

end Cutting

/-- The length from which on a stretch that is in order is a run, for so many items in all. -/
def goodLength (total : Nat) : Nat :=
  if total ≤ 4096 then min (total - total / 2) 64
  else
    let shift := (1 + total.log2) / 2
    ((1 <<< shift) + (total >>> shift)) / 2

/-- The depth in the tree at which two runs are joined that lie between the given places. -/
def joinDepth (total first middle last : Nat) : Nat :=
  let scale := ((1 <<< 62) + total - 1) / total
  63 - Nat.log2 ((scale * (first + middle)) ^^^ (scale * (middle + last)))

section Joining

variable (precedes : α → α → Bool)

/-- Two sorted lists put together from the side at which the shorter one stands. -/
def joinLists (xs ys : List α) : List α :=
  if xs.length ≤ ys.length then xs.merge ys fun x y => !precedes y x
  else (ys.reverse.merge xs.reverse fun y x => !precedes y x).reverse

variable (room : Nat) (sortAll? : List α → Option (List α))

/-- The items of a run in order. -/
def Run.settle? (run : Run α) : Option (List α) :=
  if run.sorted then some run.items else sortAll? run.items

/-- Two runs joined. If both wait, they go on waiting as long as there is room for their items. -/
def Run.join? (left right : Run α) : Option (Run α) :=
  if !left.sorted && !right.sorted && left.items.length + right.items.length ≤ room then
    some ⟨left.items ++ right.items, false⟩
  else do
    let xs ← left.settle? sortAll?
    let ys ← right.settle? sortAll?
    return ⟨joinLists precedes xs ys, true⟩

/-- A run joined with those before it, nearest first, that are joined at the given depth or deeper
with what follows them. The others are left. -/
def collapse? (depth : Nat) : List (Run α × Nat) → Run α → Option (List (Run α × Nat) × Run α)
  | [], run => some ([], run)
  | (top, d) :: stack, run =>
    if depth ≤ d then do collapse? depth stack (← top.join? precedes room sortAll? run)
    else some ((top, d) :: stack, run)

/-- **All runs joined to one**: the runs before the given one, that run, and those that follow it
from a place on. -/
def joinRuns? (total : Nat) (stack : List (Run α × Nat)) (run : Run α) (place : Nat) :
    List (Run α) → Option (Run α)
  | [] => (collapse? precedes room sortAll? 0 stack run).map (·.2)
  | next :: rest => do
    let depth := joinDepth total (place - run.items.length) place (place + next.items.length)
    let (stack, run) ← collapse? precedes room sortAll? depth stack run
    joinRuns? total ((run, depth) :: stack) next (place + next.items.length) rest

/-- **Items sorted by runs**, of which those that are not in order may wait. -/
def sortRuns? (waits : Bool) (xs : List α) : Option (List α) := do
  match ← runs? precedes waits (goodLength xs.length) xs with
  | [] => return []
  | run :: rest =>
    (← joinRuns? precedes room sortAll? xs.length [] run run.items.length rest).settle? sortAll?

end Joining

end Michelson.Sorting

import Michelson.Proofs.Sorting.Runs
import Michelson.Sorting.Stable

/-!
# What stable sorting does

Whatever the relation is, items that are sorted stay the same, and nothing but the relation between
them matters. If it is a strict order, they are sorted as by insertion, since there is just one way
to do it. So it takes more than twenty items and a relation that is no order of them for sorting to
fail.

The parts before and behind a pivot are put together by one lemma, for which each item of the first
part precedes each one of the second. A pivot that is level with a bound below all items has only
such items in its first part as are level with it.

## Main results

* `sort?_perm`: the items stay the same
* `map_sort?`, `sort?_congr`: nothing but the order matters
* `sort?_eq_some_sortStably`: an order sorts as insertion does
* `not_ordersStrictly_of_sort?_eq_none`: no failure for an order, and none up to twenty items
-/

namespace Michelson

variable {α β : Type} {r : α → α → Bool} {xs ys zs : List α}

namespace Sorting

/-! ## Parts in order -/

/-- **Two parts in order**, where the items of the first precede those of the second. -/
theorem sorts_append_of_parts {q : α → Bool}
    (hparts : Orders r → ∀ x ∈ xs, ∀ y ∈ xs, q x = true → q y = false → r x y = true)
    (hleft : Sorts r (xs.filter q) ys) (hright : Sorts r (xs.filter (!q ·)) zs) :
    Sorts r xs (ys ++ zs) where
  perm := (hleft.perm.append hright.perm).trans (List.filter_append_perm q xs)
  filter_level hr k := by
    have hside {x y : α} (hx : x ∈ xs) (hy : y ∈ xs) (hkx : level r k x = true)
        (hky : level r k y = true) (hqx : q x = true) : q y = true := by
      rw [← Bool.not_eq_false]
      intro hqy
      have hxy := hr.trans (level_eq_true_iff.mp hkx).2 (level_eq_true_iff.mp hky).1
      rw [hparts hr x hx y hy hqx hqy] at hxy
      cases hxy
    rw [List.filter_append, hleft.filter_level hr, hright.filter_level hr, List.filter_filter,
      List.filter_filter]
    -- all items that are level with one are in the same part
    by_cases hfirst : ∃ x ∈ xs, level r k x = true ∧ q x = true
    · obtain ⟨x, hx, hkx, hqx⟩ := hfirst
      have hnone : xs.filter (fun y => level r k y && !q y) = [] := by
        refine List.filter_eq_nil_iff.mpr fun y hy => ?_
        rw [Bool.and_eq_true, Bool.not_eq_true', not_and, Bool.not_eq_false]
        exact fun hky => hside hx hy hkx hky hqx
      rw [hnone, List.append_nil]
      refine List.filter_congr fun y hy => ?_
      cases hky : level r k y with
      | false => rfl
      | true => exact hside hx hy hkx hky hqx
    · have hq (y : α) (hy : y ∈ xs) (hky : level r k y = true) : q y = false := by
        rw [← Bool.not_eq_true]
        exact fun hqy => hfirst ⟨y, hy, hky, hqy⟩
      have hnone : xs.filter (fun y => level r k y && q y) = [] := by
        refine List.filter_eq_nil_iff.mpr fun y hy => ?_
        rw [Bool.and_eq_true, not_and, Bool.not_eq_true]
        exact hq y hy
      rw [hnone, List.nil_append]
      refine List.filter_congr fun y hy => ?_
      cases hky : level r k y with
      | false => rfl
      | true => rw [hq y hy hky]; rfl
  inOrder hr := by
    refine List.pairwise_append.mpr ⟨hleft.inOrder hr, hright.inOrder hr, fun y hy z hz => ?_⟩
    obtain ⟨hy, hqy⟩ := List.mem_filter.mp (hleft.perm.mem_iff.mp hy)
    obtain ⟨hz, hqz⟩ := List.mem_filter.mp (hright.perm.mem_iff.mp hz)
    exact hr.asymm (hparts hr y hy z hz hqy (by simpa using hqz))

theorem sortsAll_eagerly : SortsAll r (sortEagerly? r) := fun _ _ h =>
  sorts_of_sortRuns? (fun xs _ h => Option.some.inj h ▸ sorts_sortStably xs) h

/-- **Items sorted by partition** are sorted, if the bound is one. -/
theorem sorts_of_quickSort? {limit : Nat} {bound : Option α}
    (hbound : ∀ b ∈ bound, ∀ x ∈ xs, r x b = false) (h : quickSort? r limit bound xs = some ys) :
    Sorts r xs ys := by
  induction limit generalizing bound xs ys with
  | zero =>
    rw [quickSort?] at h
    split at h
    · exact sorts_of_sortShort? h
    · exact sortsAll_eagerly xs ys h
  | succ limit ih =>
    match xs with
    | [] =>
      cases h
      exact (show InOrder r [] from fun _ => List.Pairwise.nil).sorts
    | x :: xs =>
      rw [quickSort?] at h
      generalize x :: xs = items at h hbound ⊢
      dsimp only at h
      split at h
      next => exact sorts_of_sortShort? h
      next =>
        generalize pivot r x items.length items = p at h
        split at h
        next hlevel =>
          obtain ⟨right, hright, h⟩ := Option.bind_eq_some_iff.mp h
          cases h
          -- the pivot is level with the bound below all items, or found to be one itself
          have hp (hr : Orders r) (y : α) (hy : y ∈ items) : r y p = false := by
            rw [Bool.or_eq_true, Option.any_eq_true] at hlevel
            rcases hlevel with ⟨b, hb, hbp⟩ | hnone
            · exact hr.trans (hbound b hb y hy) (by simpa using hbp)
            · simpa using List.any_eq_false.mp (by simpa using hnone) y hy
          refine sorts_append_of_parts (q := fun y => !r p y) ?_ (InOrder.sorts ?_) ?_
          · intro hr y _ z _ hy hz
            rw [← Bool.not_eq_false]
            intro hyz
            have hpz := hr.trans (by simpa using hy) hyz
            simp [hpz] at hz
          · intro hr
            refine List.pairwise_of_forall_mem_list fun y hy z hz => ?_
            rw [List.mem_filter, Bool.not_eq_true'] at hy hz
            exact hr.trans (hp hr z hz.1) hy.2
          · simp only [Bool.not_not]
            exact ih (by simp) hright
        next =>
          obtain ⟨right, hright, h⟩ := Option.bind_eq_some_iff.mp h
          obtain ⟨left, hleft, h⟩ := Option.bind_eq_some_iff.mp h
          cases h
          refine sorts_append_of_parts (q := fun y => r y p) ?_ (ih ?_ hleft) (ih ?_ hright)
          · intro hr y _ z _ hy hz
            rw [← Bool.not_eq_false]
            intro hyz
            rw [hr.trans hyz hz] at hy
            cases hy
          · exact fun b hb y hy => hbound b hb y (List.mem_of_mem_filter hy)
          · intro b hb y hy
            cases hb
            simpa using (List.mem_filter.mp hy).2

theorem sortsAll_sortAll? : SortsAll r (sortAll? r) := fun _ _ h =>
  sorts_of_quickSort? (by simp) h

theorem sorts_of_sort? (h : sort? r xs = some ys) : Sorts r xs ys := by
  rw [sort?] at h
  split at h
  next =>
    cases h
    exact sorts_sortStably xs
  next =>
    split at h
    · exact sortsAll_eagerly xs ys h
    · exact sorts_of_sortRuns? sortsAll_sortAll? h

/-! ## No failure -/

section Total

variable (hr : Orders r)

include hr

theorem exists_sortEagerly?_eq_some (xs : List α) : ∃ ys, sortEagerly? r xs = some ys :=
  exists_sortRuns?_eq_some r 0 (fun _ => ⟨_, rfl⟩) hr false xs

theorem exists_quickSort?_eq_some (limit : Nat) (bound : Option α) (xs : List α) :
    ∃ ys, quickSort? r limit bound xs = some ys := by
  induction limit generalizing bound xs with
  | zero =>
    rw [quickSort?]
    split
    · exact exists_sortShort?_eq_some hr xs
    · exact exists_sortEagerly?_eq_some hr xs
  | succ limit ih =>
    match xs with
    | [] => exact ⟨[], rfl⟩
    | x :: xs =>
      rw [quickSort?]
      dsimp only
      split
      · exact exists_sortShort?_eq_some hr _
      · split
        · obtain ⟨right, hright⟩ := ih none _
          rw [hright]
          exact ⟨_, rfl⟩
        · obtain ⟨right, hright⟩ := ih _ _
          obtain ⟨left, hleft⟩ := ih _ _
          rw [hright]
          exact ⟨_, congrArg (Option.bind · _) hleft⟩

theorem exists_sort?_eq_some (xs : List α) : ∃ ys, sort? r xs = some ys := by
  rw [sort?]
  split
  · exact ⟨_, rfl⟩
  · split
    · exact exists_sortEagerly?_eq_some hr xs
    · exact exists_sortRuns?_eq_some r _ (fun run => exists_quickSort?_eq_some hr _ none run) hr
        true xs

end Total

/-! ## Nothing but the order matters -/

section Map

variable (s : β → β → Bool) (f : α → β)

theorem median_map (a b c : α) :
    median s (f a) (f b) (f c) = f (median (fun x y => s (f x) (f y)) a b c) := by
  rw [median, median, apply_ite f, apply_ite f]

theorem pivot_map (default : α) (total : Nat) (xs : List α) :
    pivot s (f default) total (xs.map f) =
      f (pivot (fun x y => s (f x) (f y)) default total xs) := by
  induction total using Nat.strongRecOn generalizing xs with
  | ind total ih =>
    rw [pivot, pivot, ← median_map s f]
    have hpick (i : Nat) :
        (if 8 ≤ total / 8 then pivot s (f default) (total / 8) ((xs.map f).drop i)
          else (xs.map f)[i]?.getD (f default)) =
        f (if 8 ≤ total / 8 then pivot (fun x y => s (f x) (f y)) default (total / 8) (xs.drop i)
          else xs[i]?.getD default) := by
      split
      · rw [← List.map_drop, ih _ (by omega)]
      · rw [List.getElem?_map, Option.getD_map]
    simp only [hpick]

theorem map_sortEagerly? (xs : List α) :
    (sortEagerly? (fun x y => s (f x) (f y)) xs).map (List.map f) = sortEagerly? s (xs.map f) := by
  refine map_sortRuns? s f 0 (fun run => ?_) false xs
  exact congrArg some (map_insertAll s f [] run)

theorem map_quickSort? (limit : Nat) (bound : Option α) (xs : List α) :
    (quickSort? (fun x y => s (f x) (f y)) limit bound xs).map (List.map f) =
      quickSort? s limit (bound.map f) (xs.map f) := by
  induction limit generalizing bound xs with
  | zero =>
    rw [quickSort?, quickSort?, List.length_map, apply_ite (Option.map (List.map f)),
      map_sortShort?, map_sortEagerly?]
  | succ limit ih =>
    match xs with
    | [] => rfl
    | x :: xs =>
      rw [List.map_cons, quickSort?, quickSort?, ← List.map_cons]
      dsimp only
      rw [List.length_map, pivot_map]
      generalize pivot (fun x y => s (f x) (f y)) x (x :: xs).length (x :: xs) = p
      rw [apply_ite (Option.map (List.map f)), map_sortShort?]
      refine congrArg (ite _ _) ?_
      simp only [Option.any_map, List.any_map, List.filter_map, Function.comp_def]
      split
      · have hright := ih none ((x :: xs).filter fun y => s (f p) (f y))
        rw [Option.map_none] at hright
        rw [← hright]
        simp only [Option.map_bind, Option.bind_map, Function.comp_def, Option.bind_eq_bind,
          Option.pure_def, Option.map_some, List.map_append]
      · have hright := ih (some p) ((x :: xs).filter fun y => !s (f y) (f p))
        have hleft := ih bound ((x :: xs).filter fun y => s (f y) (f p))
        rw [Option.map_some] at hright
        rw [← hright, ← hleft]
        simp only [Option.map_bind, Option.bind_map, Function.comp_def, Option.bind_eq_bind,
          Option.pure_def, Option.map_some, List.map_append]

end Map

end Sorting

open Sorting

/-! ## Sorted items -/

/-- **Sorting changes the order only**, whatever the relation is. -/
theorem sort?_perm (h : sort? r xs = some ys) : ys.Perm xs := (sorts_of_sort? h).perm

/-- **Sorting depends on nothing but the order** of the items. -/
theorem map_sort? (s : β → β → Bool) (f : α → β) (xs : List α) :
    (sort? (fun x y => s (f x) (f y)) xs).map (List.map f) = sort? s (xs.map f) := by
  rw [sort?, sort?, List.length_map]
  split
  · exact congrArg some (map_insertAll s f [] xs)
  · split
    · exact map_sortEagerly? s f xs
    · exact map_sortRuns? s f _ (fun run => by
        rw [sortAll?, sortAll?, List.length_map]
        exact map_quickSort? s f _ none run) true xs

theorem sort?_attach (r : α → α → Bool) (xs : List α) :
    (sort? (fun x y : {x // x ∈ xs} => r x y) xs.attach).map (List.map Subtype.val) =
      sort? r xs := by
  rw [map_sort?, List.attach_map_subtype_val]

theorem sort?_congr {s : α → α → Bool} (h : ∀ x ∈ xs, ∀ y ∈ xs, r x y = s x y) :
    sort? r xs = sort? s xs := by
  have hattach : (fun x y : {x // x ∈ xs} => r x y) = fun x y : {x // x ∈ xs} => s x y :=
    funext fun x => funext fun y => h x x.2 y y.2
  rw [← sort?_attach, hattach, sort?_attach]

/-- **An order sorts as insertion does**: there is just one way to sort. -/
theorem sort?_eq_some_sortStably (h : OrdersStrictly r xs) :
    sort? r xs = some (sortStably r xs) := by
  have hr : Orders fun x y : {x // x ∈ xs} => r x y :=
    ⟨fun {x y} => h.asymm x x.2 y y.2, fun {x y z} => h.trans x x.2 y y.2 z z.2⟩
  obtain ⟨ys, hys⟩ := exists_sort?_eq_some hr xs.attach
  have hsame := (sorts_of_sort? hys).eq_of_orders hr (sorts_sortStably xs.attach)
  have hmap := map_insertAll r Subtype.val [] xs.attach
  rw [List.attach_map_subtype_val] at hmap
  rw [← sort?_attach, hys, hsame]
  exact congrArg some hmap

/-- **Sorting fails for no order**, and for no relation at all if there are few items. -/
theorem not_ordersStrictly_of_sort?_eq_none (h : sort? r xs = none) :
    20 < xs.length ∧ ¬OrdersStrictly r xs := by
  constructor
  · rw [← not_le]
    intro hlength
    rw [sort?, if_pos hlength] at h
    cases h
  · intro horders
    rw [sort?_eq_some_sortStably horders] at h
    cases h

end Michelson

import Mathlib.Data.List.Induction
import Michelson.Sorting.Short

/-!
# What sorting by insertion does

Items are inserted one after the other: the last one is inserted into the others, which are sorted
already. So the items stay the same, and nothing but the order between them matters. They stand in
that order, if it is one on them, and those that it does not tell apart stand as they were given.

## Main definitions

* `OrdersStrictly`: whether a relation is a strict order of some items, some of which may be level

## Main results

* `insertAll_perm`: the items stay the same
* `map_insertAll`: insertion depends on the order only
* `pairwise_insertAll`, `filter_insertAll`: items are in order, and those that are level keep theirs
* `sortStably_eq_of_perm`: items of which no two are level are sorted alike however they are given
-/

namespace Michelson

variable {α β : Type} {r : α → α → Bool}

/-! ## Items one after the other -/

section Items

variable {x : α} {xs : List α}

/-- Inserting an item adds it and keeps the others. -/
theorem insertFromBack_perm (r : α → α → Bool) (x : α) (ys : List α) :
    (insertFromBack r x ys).Perm (x :: ys) := by
  induction ys with
  | nil => exact List.Perm.refl _
  | cons y ys ih =>
    rw [insertFromBack]
    split
    · exact (ih.cons y).trans (List.Perm.swap x y ys)
    · exact List.Perm.refl _

/-- The last item is inserted into the others, which are sorted already. -/
theorem insertAll_append_singleton (sorted xs : List α) (x : α) :
    insertAll r sorted (xs ++ [x]) =
      (insertFromBack r x (insertAll r sorted xs).reverse).reverse := by
  rw [insertAll, insertAll, List.reverse_reverse, List.foldl_append]
  rfl

/-- **Insertion changes the order only.** -/
theorem insertAll_perm (r : α → α → Bool) (sorted xs : List α) :
    (insertAll r sorted xs).Perm (sorted ++ xs) := by
  induction xs using List.reverseRecOn with
  | nil => rw [insertAll, List.foldl_nil, List.reverse_reverse, List.append_nil]
  | append_singleton xs x ih =>
    rw [insertAll_append_singleton, ← List.append_assoc]
    refine (List.reverse_perm _).trans ((insertFromBack_perm r x _).trans ?_)
    exact (((List.reverse_perm _).trans ih).cons x).trans (List.perm_append_singleton x _).symm

theorem sortStably_perm (r : α → α → Bool) (xs : List α) : (sortStably r xs).Perm xs :=
  insertAll_perm r [] xs

theorem mem_sortStably : x ∈ sortStably r xs ↔ x ∈ xs :=
  (sortStably_perm r xs).mem_iff

theorem map_insertFromBack (s : β → β → Bool) (f : α → β) (x : α) (ys : List α) :
    (insertFromBack (fun x y => s (f x) (f y)) x ys).map f =
      insertFromBack s (f x) (ys.map f) := by
  induction ys with
  | nil => rfl
  | cons y ys ih =>
    rw [insertFromBack, List.map_cons, insertFromBack]
    split
    · rw [List.map_cons, ih]
    · rfl

/-- **Insertion depends on nothing but the order** of the items. -/
theorem map_insertAll (s : β → β → Bool) (f : α → β) (sorted xs : List α) :
    (insertAll (fun x y => s (f x) (f y)) sorted xs).map f =
      insertAll s (sorted.map f) (xs.map f) := by
  induction xs using List.reverseRecOn with
  | nil => simp [insertAll]
  | append_singleton xs x ih =>
    rw [List.map_append, List.map_singleton, insertAll_append_singleton,
      insertAll_append_singleton, List.map_reverse, map_insertFromBack, List.map_reverse, ih]

end Items

/-! ## Strict orders -/

/-- **Whether a relation orders some items strictly**: of two items one at most precedes the other,
and an item that is not before another is not before those that this one is not before either. -/
structure OrdersStrictly (r : α → α → Bool) (xs : List α) : Prop where
  asymm : ∀ x ∈ xs, ∀ y ∈ xs, r x y = true → r y x = false
  trans : ∀ x ∈ xs, ∀ y ∈ xs, ∀ z ∈ xs, r x y = false → r y z = false → r x z = false

theorem OrdersStrictly.subset {xs ys : List α} (h : OrdersStrictly r xs) (hsub : ys ⊆ xs) :
    OrdersStrictly r ys where
  asymm x hx y hy := h.asymm x (hsub hx) y (hsub hy)
  trans x hx y hy z hz := h.trans x (hsub hx) y (hsub hy) z (hsub hz)

section Insertion

variable {x : α} {ys : List α}

/-- In a list that is sorted from its back, no item precedes those that follow it. -/
theorem pairwise_insertFromBack (h : OrdersStrictly r (x :: ys))
    (hys : ys.Pairwise fun a b => r a b = false) :
    (insertFromBack r x ys).Pairwise fun a b => r a b = false := by
  induction ys with
  | nil => exact List.pairwise_singleton _ _
  | cons y ys ih =>
    have hrest : OrdersStrictly r (x :: ys) :=
      h.subset (List.cons_subset_cons x (List.subset_cons_self y ys))
    rw [List.pairwise_cons] at hys
    rw [insertFromBack]
    split
    next hxy =>
      refine List.pairwise_cons.mpr ⟨fun z hz => ?_, ih hrest hys.2⟩
      rcases List.mem_cons.mp ((insertFromBack_perm r x ys).mem_iff.mp hz) with rfl | hz
      · exact h.asymm z List.mem_cons_self y (by simp) hxy
      · exact hys.1 z hz
    next hxy =>
      rw [Bool.not_eq_true] at hxy
      refine List.pairwise_cons.mpr ⟨List.forall_mem_cons.mpr ⟨hxy, fun z hz => ?_⟩,
        List.pairwise_cons.mpr hys⟩
      exact h.trans x List.mem_cons_self y (by simp) z (by simp [hz]) hxy (hys.1 z hz)

/-- Of items that do not precede one another, the one that is inserted becomes the first. -/
theorem filter_insertFromBack {P : α → Bool}
    (h : ∀ y ∈ ys, P x = true → P y = true → r x y = false) :
    (insertFromBack r x ys).filter P = (x :: ys).filter P := by
  induction ys with
  | nil => rfl
  | cons y ys ih =>
    rw [List.forall_mem_cons] at h
    rw [insertFromBack]
    split
    next hxy =>
      rw [List.filter_cons, ih h.2]
      cases hx : P x with
      | false => simp [hx, List.filter_cons]
      | true =>
        have hy : P y = false := by
          rw [← Bool.not_eq_true]
          intro hy
          rw [h.1 hx hy] at hxy
          cases hxy
        simp [hx, hy]
    next => rfl

end Insertion

/-! ## Sorted items -/

section Sorting

variable {sorted xs ys : List α}

/-- **Inserted items are in order**: none precedes another that stands before it. -/
theorem pairwise_insertAll (h : OrdersStrictly r (sorted ++ xs))
    (hsorted : sorted.Pairwise fun x y => r y x = false) :
    (insertAll r sorted xs).Pairwise fun x y => r y x = false := by
  induction xs using List.reverseRecOn with
  | nil => rwa [insertAll, List.foldl_nil, List.reverse_reverse]
  | append_singleton xs x ih =>
    rw [← List.append_assoc] at h
    rw [insertAll_append_singleton, List.pairwise_reverse]
    refine pairwise_insertFromBack (h.subset fun y hy => ?_)
      (List.pairwise_reverse.mpr (ih (h.subset (List.subset_append_left _ [x]))))
    rw [List.mem_cons, List.mem_reverse, (insertAll_perm r sorted xs).mem_iff] at hy
    exact List.mem_append.mpr (hy.symm.imp_right List.mem_singleton.mpr)

/-- **Insertion is stable**: items of which none precedes another stand in the order in which they
were given. -/
theorem filter_insertAll {P : α → Bool}
    (h : ∀ x ∈ xs, ∀ y ∈ sorted ++ xs, P x = true → P y = true → r x y = false) :
    (insertAll r sorted xs).filter P = (sorted ++ xs).filter P := by
  induction xs using List.reverseRecOn with
  | nil => rw [insertAll, List.foldl_nil, List.reverse_reverse, List.append_nil]
  | append_singleton xs x ih =>
    rw [← List.append_assoc] at h ⊢
    have hxs : ∀ y ∈ xs, ∀ z ∈ sorted ++ xs, P y = true → P z = true → r y z = false :=
      fun y hy z hz => h y (List.mem_append_left [x] hy) z (List.mem_append_left [x] hz)
    have hx : ∀ y ∈ (insertAll r sorted xs).reverse, P x = true → P y = true → r x y = false := by
      intro y hy
      rw [List.mem_reverse, (insertAll_perm r sorted xs).mem_iff] at hy
      exact h x (by simp) y (List.mem_append_left [x] hy)
    rw [insertAll_append_singleton, List.filter_reverse, filter_insertFromBack hx,
      ← List.filter_reverse, List.reverse_cons, List.reverse_reverse, List.filter_append, ih hxs,
      List.filter_append _ [x]]

theorem pairwise_sortStably (h : OrdersStrictly r xs) :
    (sortStably r xs).Pairwise fun x y => r y x = false :=
  pairwise_insertAll h List.Pairwise.nil

theorem filter_sortStably {P : α → Bool}
    (h : ∀ x ∈ xs, ∀ y ∈ xs, P x = true → P y = true → r x y = false) :
    (sortStably r xs).filter P = xs.filter P :=
  filter_insertAll h

/-- **Items are sorted alike** however they are given, if of any two that differ one precedes the
other. -/
theorem sortStably_eq_of_perm (h : OrdersStrictly r xs) (hperm : ys.Perm xs)
    (hne : ∀ x ∈ xs, ∀ y ∈ xs, r x y = false → r y x = false → x = y) :
    sortStably r ys = sortStably r xs := by
  have hys := pairwise_sortStably (h.subset hperm.subset)
  refine List.Perm.eq_of_pairwise (fun x y hx hy hxy hyx => ?_) hys (pairwise_sortStably h)
    ((sortStably_perm r ys).trans (hperm.trans (sortStably_perm r xs).symm))
  exact hne x (hperm.mem_iff.mp (mem_sortStably.mp hx)) y (mem_sortStably.mp hy) hyx hxy

end Sorting

end Michelson

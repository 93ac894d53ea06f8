import Michelson.Proofs.Sorting.Insertion
import Michelson.Sorting.Runs

/-!
# Sorted lists put together

Two sorted lists are put together from the front or from the back. Whatever the relation is, the
items stay the same. If it is a strict order, the items are in order, and those that are level stand
as they did in the two lists, one after the other. There is just one list of that kind, so both ways
come to the same.

## Main definitions

* `Sorting.Orders`: whether a relation is a strict order
* `Sorting.Sorts`: whether a list has the items of another one in order

## Main results

* `Sorting.Sorts.eq_of_orders`: items are sorted in just one way
* `Sorting.sorts_merge`, `Sorting.sorts_joinLists`: two sorted lists put together
-/

namespace Michelson.Sorting

variable {α β : Type} {r : α → α → Bool} {xs ys zs ws : List α}

/-! ## What sorting does -/

/-- **Whether a relation is a strict order**, in which items may be level. -/
structure Orders (r : α → α → Bool) : Prop where
  asymm {x y : α} : r x y = true → r y x = false
  trans {x y z : α} : r x y = false → r y z = false → r x z = false

theorem Orders.ordersStrictly (h : Orders r) (xs : List α) : OrdersStrictly r xs :=
  ⟨fun _ _ _ _ => h.asymm, fun _ _ _ _ _ _ => h.trans⟩

theorem Orders.irrefl (h : Orders r) (x : α) : r x x = false := by
  cases hx : r x x with
  | false => rfl
  | true => exact hx.symm.trans (h.asymm hx)

theorem Orders.flip (h : Orders r) : Orders fun x y => r y x :=
  ⟨fun hxy => h.asymm hxy, fun hxy hyz => h.trans hyz hxy⟩

theorem Orders.comap (h : Orders r) (f : β → α) : Orders fun x y => r (f x) (f y) :=
  ⟨fun hxy => h.asymm hxy, fun hxy hyz => h.trans hxy hyz⟩

/-- Whether of two items none precedes the other. -/
def level (r : α → α → Bool) (x y : α) : Bool := !r x y && !r y x

theorem level_eq_true_iff {x y : α} : level r x y = true ↔ r x y = false ∧ r y x = false := by
  simp [level]

/-- Whether a list has the items of another one, of which those that are level stand as there, if
the relation is an order. -/
structure Rearranges (r : α → α → Bool) (xs ys : List α) : Prop where
  perm : ys.Perm xs
  filter_level : Orders r → ∀ k, ys.filter (level r k) = xs.filter (level r k)

/-- Whether items are in order, if the relation is one. -/
def InOrder (r : α → α → Bool) (xs : List α) : Prop :=
  Orders r → xs.Pairwise fun x y => r y x = false

/-- **Whether a list has the items of another one in order.** -/
structure Sorts (r : α → α → Bool) (xs ys : List α) : Prop extends Rearranges r xs ys where
  inOrder : InOrder r ys

theorem Rearranges.refl (xs : List α) : Rearranges r xs xs := ⟨.refl xs, fun _ _ => rfl⟩

theorem Rearranges.trans (hxy : Rearranges r xs ys) (hyz : Rearranges r ys zs) :
    Rearranges r xs zs :=
  ⟨hyz.perm.trans hxy.perm, fun h k => (hyz.filter_level h k).trans (hxy.filter_level h k)⟩

theorem Rearranges.append (hx : Rearranges r xs ys) (hz : Rearranges r zs ws) :
    Rearranges r (xs ++ zs) (ys ++ ws) :=
  ⟨hx.perm.append hz.perm, fun h k => by
    rw [List.filter_append, List.filter_append, hx.filter_level h, hz.filter_level h]⟩

theorem Rearranges.sorts (hxy : Rearranges r xs ys) (hyz : Sorts r ys zs) : Sorts r xs zs :=
  ⟨hxy.trans hyz.toRearranges, hyz.inOrder⟩

theorem InOrder.sorts (h : InOrder r xs) : Sorts r xs xs := ⟨.refl xs, h⟩

theorem sorts_of_perm (hperm : ys.Perm xs) (h : Orders r → Sorts r xs ys) : Sorts r xs ys :=
  ⟨⟨hperm, fun hr => (h hr).filter_level hr⟩, fun hr => (h hr).inOrder hr⟩

theorem inOrder_singleton (x : α) : InOrder r [x] := fun _ => List.pairwise_singleton _ _

/-- **Items are sorted in just one way** by an order. -/
theorem Sorts.eq_of_orders (hr : Orders r) (hy : Sorts r xs ys) (hz : Sorts r xs zs) : ys = zs := by
  have hlevel (k : α) : ys.filter (level r k) = zs.filter (level r k) :=
    (hy.filter_level hr k).trans (hz.filter_level hr k).symm
  have hperm : ys.Perm zs := hy.perm.trans hz.perm.symm
  replace hy := hy.inOrder hr
  replace hz := hz.inOrder hr
  induction ys generalizing zs with
  | nil => exact hperm.nil_eq
  | cons y ys ih =>
    cases zs with
    | nil => exact absurd hperm.symm.nil_eq (by simp)
    | cons z zs =>
      have hself (x : α) : level r x x = true :=
        level_eq_true_iff.mpr ⟨hr.irrefl x, hr.irrefl x⟩
      rw [List.pairwise_cons] at hy hz
      have hzy : r z y = false := by
        rcases List.mem_cons.mp (hperm.mem_iff.mpr List.mem_cons_self) with rfl | hmem
        · exact hr.irrefl z
        · exact hy.1 z hmem
      have hyz : r y z = false := by
        rcases List.mem_cons.mp (hperm.mem_iff.mp List.mem_cons_self) with rfl | hmem
        · exact hr.irrefl y
        · exact hz.1 y hmem
      have hfirst := hlevel y
      rw [List.filter_cons_of_pos (hself y),
        List.filter_cons_of_pos (level_eq_true_iff.mpr ⟨hyz, hzy⟩)] at hfirst
      obtain rfl : y = z := (List.cons.inj hfirst).1
      refine congrArg (y :: ·) (ih (fun k => ?_) hperm.cons_inv hy.2 hz.2)
      have hk := hlevel k
      rw [List.filter_cons, List.filter_cons] at hk
      split at hk
      · exact (List.cons.inj hk).2
      · exact hk

theorem Sorts.reverse (h : Sorts (fun x y => r y x) xs ys) : Sorts r xs.reverse ys.reverse where
  perm := (List.reverse_perm ys).trans (h.perm.trans (List.reverse_perm xs).symm)
  filter_level hr k := by
    have hlevel := h.filter_level hr.flip k
    have hflip : level (fun x y => r y x) k = level r k := funext fun x => Bool.and_comm _ _
    rw [hflip] at hlevel
    rw [List.filter_reverse, List.filter_reverse, hlevel]
  inOrder hr := List.pairwise_reverse.mpr (h.inOrder hr.flip)

theorem InOrder.reverse (h : InOrder r xs) : InOrder (fun x y => r y x) xs.reverse :=
  fun hr => List.pairwise_reverse.mpr (h hr.flip)

/-! ## Insertion -/

theorem sorts_insertAll (hxs : InOrder r xs) (ys : List α) :
    Sorts r (xs ++ ys) (insertAll r xs ys) where
  perm := insertAll_perm r xs ys
  filter_level hr k := by
    refine filter_insertAll fun x _ y _ hx hy => ?_
    exact hr.trans (level_eq_true_iff.mp hx).2 (level_eq_true_iff.mp hy).1
  inOrder hr := pairwise_insertAll (hr.ordersStrictly _) (hxs hr)

theorem sorts_sortStably (xs : List α) : Sorts r xs (sortStably r xs) :=
  sorts_insertAll (fun _ => List.Pairwise.nil) xs

/-! ## Lists put together -/

/-- Of the items with a property, those of the first list come first, if an item of the second list
with the property is only put before such items of the first as are not followed by others with
it. -/
theorem filter_merge {le : α → α → Bool} {p : α → Bool}
    (h : ∀ y ∈ ys, p y = true → ∀ x rest, x :: rest <:+ xs → le x y = false →
      ∀ z ∈ x :: rest, p z = false) :
    (xs.merge ys le).filter p = xs.filter p ++ ys.filter p := by
  induction xs generalizing ys with
  | nil => rw [List.nil_merge, List.filter_nil, List.nil_append]
  | cons x xs ihx =>
    induction ys with
    | nil => rw [List.merge_right, List.filter_nil, List.append_nil]
    | cons y ys ihy =>
      rw [List.cons_merge_cons]
      split
      next =>
        have hrest := ihx fun z hz hp w rest hrest =>
          h z hz hp w rest (hrest.trans (List.suffix_cons x xs))
        rw [List.filter_cons, hrest, List.filter_cons (x := x)]
        split <;> rfl
      next hxy =>
        rw [List.filter_cons, ihy fun z hz => h z (List.mem_cons_of_mem y hz)]
        split
        next hp =>
          have hnone : (x :: xs).filter p = [] := by
            rw [List.filter_eq_nil_iff]
            intro z hz
            rw [h y List.mem_cons_self hp x xs (List.suffix_refl _) (by simpa using hxy) z hz]
            exact Bool.false_ne_true
          rw [hnone, List.filter_cons_of_pos hp, List.nil_append, List.nil_append]
        next hp => rw [List.filter_cons_of_neg hp]

theorem filter_level_merge (hr : Orders r) (hxs : xs.Pairwise fun x y => r y x = false) (k : α) :
    (xs.merge ys fun x y => !r y x).filter (level r k) =
      xs.filter (level r k) ++ ys.filter (level r k) := by
  refine filter_merge fun y _ hy x rest hsuffix hyx z hz => ?_
  rw [Bool.not_eq_false'] at hyx
  rw [← Bool.not_eq_true]
  intro hkz
  have hyz : r y z = false := hr.trans (level_eq_true_iff.mp hy).2 (level_eq_true_iff.mp hkz).1
  have hzx : r z x = false := by
    rcases List.mem_cons.mp hz with rfl | hz
    · exact hr.irrefl z
    · exact (List.pairwise_cons.mp (hxs.sublist hsuffix.sublist)).1 z hz
  rw [hr.trans hyz hzx] at hyx
  cases hyx

/-- **Two sorted lists put together** from the front. -/
theorem sorts_merge (hxs : InOrder r xs) (hys : InOrder r ys) :
    Sorts r (xs ++ ys) (xs.merge ys fun x y => !r y x) where
  perm := List.merge_perm_append _
  filter_level hr k := by rw [filter_level_merge hr (hxs hr), List.filter_append]
  inOrder hr := by
    have hle (x y : α) : (!r y x) = true ↔ r y x = false := by rw [Bool.not_eq_true']
    have htrans (x y z : α) (hxy : (!r y x) = true) (hyz : (!r z y) = true) :
        (!r z x) = true :=
      (hle x z).mpr (hr.trans ((hle y z).mp hyz) ((hle x y).mp hxy))
    have htotal (x y : α) : (!r y x || !r x y) = true := by
      cases hyx : r y x with
      | false => rfl
      | true => simp [hr.asymm hyx]
    have hmerge := List.pairwise_merge htrans htotal xs ys ((hxs hr).imp (hle _ _).mpr)
      ((hys hr).imp (hle _ _).mpr)
    exact hmerge.imp (hle _ _).mp

/-- Two sorted lists put together from the back. -/
theorem sorts_reverse_merge (hxs : InOrder r xs) (hys : InOrder r ys) :
    Sorts r (xs ++ ys) (ys.reverse.merge xs.reverse fun y x => !r y x).reverse := by
  have hmerge := (sorts_merge hys.reverse hxs.reverse).reverse
  rwa [List.reverse_append, List.reverse_reverse, List.reverse_reverse] at hmerge

/-- Both ways come to the same if the relation is an order. -/
theorem reverse_merge_eq (hr : Orders r) (hxs : InOrder r xs) (hys : InOrder r ys) :
    (ys.reverse.merge xs.reverse fun y x => !r y x).reverse = xs.merge ys fun x y => !r y x :=
  (sorts_reverse_merge hxs hys).eq_of_orders hr (sorts_merge hxs hys)

/-- **Two sorted lists put together** from the side of the shorter one. -/
theorem sorts_joinLists (hxs : InOrder r xs) (hys : InOrder r ys) :
    Sorts r (xs ++ ys) (joinLists r xs ys) := by
  rw [joinLists]
  split
  · exact sorts_merge hxs hys
  · exact sorts_reverse_merge hxs hys

theorem map_joinLists (s : β → β → Bool) (f : α → β) (xs ys : List α) :
    (joinLists (fun x y => s (f x) (f y)) xs ys).map f = joinLists s (xs.map f) (ys.map f) := by
  rw [joinLists, joinLists, List.length_map, List.length_map]
  split
  · exact List.map_merge fun _ _ _ _ => rfl
  · have hmerge : (ys.reverse.merge xs.reverse fun y x => !s (f y) (f x)).map f =
        (ys.reverse.map f).merge (xs.reverse.map f) fun y x => !s y x :=
      List.map_merge fun _ _ _ _ => rfl
    rw [List.map_reverse, hmerge, List.map_reverse, List.map_reverse]

end Michelson.Sorting

import Michelson.Proofs.Sorting.Merging

/-!
# Two halves put together from both ends

The items that are taken at either end are the first and the last ones of both halves put together.
If the relation is an order, the two ends take the items of one list, and never one of them twice.
If it is none, the two ends may come to different lists, but where both together take no more items
than there are, all items are there.

## Main results

* `Sorting.front_eq`: the items that are taken at an end
* `Sorting.meet?_perm`: the items stay the same
* `Sorting.meet?_eq_some`: two halves in order are put together
* `Sorting.sorts_of_sortShort?`, `Sorting.exists_sortShort?_eq_some`: items sorted in two halves
-/

namespace Michelson.Sorting

variable {α β : Type} {r : α → α → Bool} {xs ys zs : List α}

/-! ## Four items -/

section Four

variable {a b c d : α}

theorem orderTwo_perm (a b : α) : [(orderTwo r a b).1, (orderTwo r a b).2].Perm [a, b] := by
  rw [orderTwo]
  split
  · exact List.Perm.swap a b []
  · exact List.Perm.refl _

theorem sorts_orderTwo (a b : α) : Sorts r [a, b] [(orderTwo r a b).1, (orderTwo r a b).2] := by
  have hmerge := sorts_merge (r := r) (inOrder_singleton a) (inOrder_singleton b)
  rw [List.cons_merge_cons, List.nil_merge, List.merge_right] at hmerge
  rw [orderTwo]
  cases hba : r b a with
  | false => simpa [hba] using hmerge
  | true => simpa [hba] using hmerge

theorem orderPairs_perm (r : α → α → Bool) (a b c d : α) :
    (orderPairs r a b c d).Perm [a, b, c, d] := by
  classical
  refine List.perm_iff_count.mpr fun x => ?_
  have hmiddle (u v : α) := (orderTwo_perm (r := r) u v).count_eq x
  simp only [List.count_cons, List.count_nil] at hmiddle
  simp only [orderPairs, List.count_cons, List.count_nil]
  cases r c a <;> cases r d b
  all_goals simp only [Bool.false_eq_true, if_false, if_true]
  · have := hmiddle b c
    omega
  · have := hmiddle c d
    omega
  · have := hmiddle a b
    omega
  · have := hmiddle a d
    omega

/-- Two pairs in order are put together as from the front. -/
theorem orderPairs_eq_merge (hr : Orders r) (hba : r b a = false) (hdc : r d c = false) :
    orderPairs r a b c d = [a, b].merge [c, d] fun x y => !r y x := by
  have htrans := @hr.trans
  simp only [orderPairs, orderTwo, List.cons_merge_cons, List.nil_merge, List.merge_right]
  grind

theorem sorts_orderPairs (hab : InOrder r [a, b]) (hcd : InOrder r [c, d]) :
    Sorts r [a, b, c, d] (orderPairs r a b c d) := by
  refine sorts_of_perm (orderPairs_perm r a b c d) fun hr => ?_
  rw [orderPairs_eq_merge hr (by simpa using hab hr) (by simpa using hcd hr)]
  exact sorts_merge hab hcd

theorem sorts_sortFour (a b c d : α) : Sorts r [a, b, c, d] (sortFour r a b c d) := by
  have hleft := sorts_orderTwo (r := r) a b
  have hright := sorts_orderTwo (r := r) c d
  exact (hleft.toRearranges.append hright.toRearranges).sorts
    (sorts_orderPairs hleft.inOrder hright.inOrder)

end Four

/-- A half is sorted, however many items there are. -/
theorem sorts_sortHalf (total : Nat) (xs : List α) : Sorts r xs (sortHalf r total xs) := by
  unfold sortHalf
  split
  next a b c d rest =>
    split
    · have hfour := sorts_sortFour (r := r) a b c d
      exact (hfour.toRearranges.append (.refl rest)).sorts (sorts_insertAll hfour.inOrder rest)
    · exact sorts_sortStably _
  next => exact sorts_sortStably xs

/-! ## Both ends -/

/-- Items, each with whether it is of the first list. -/
def tag (first : Bool) (xs : List α) : List (α × Bool) := xs.map (·, first)

theorem map_fst_tag (first : Bool) (xs : List α) : (tag first xs).map (·.1) = xs := by
  rw [tag, List.map_map]
  exact List.map_id xs

theorem snd_of_mem_tag {first : Bool} {x : α × Bool} (h : x ∈ tag first xs) : x.2 = first := by
  obtain ⟨_, _, rfl⟩ := List.mem_map.mp h
  rfl

/-- **The front of two lists** are the first items of the two put together. -/
theorem front_eq (n : Nat) (xs ys : List α) :
    front r n xs ys = ((tag true xs).merge (tag false ys) fun a b => !r b.1 a.1).take n := by
  fun_induction front r n xs ys with
  | case1 => rfl
  | case2 n x xs y ys hyx ih =>
    rw [tag, tag, List.map_cons, List.map_cons, List.cons_merge_cons, if_neg (by simpa using hyx),
      List.take_succ_cons, ih]
    rfl
  | case3 n x xs y ys hyx ih =>
    rw [tag, tag, List.map_cons, List.map_cons, List.cons_merge_cons, if_pos (by simpa using hyx),
      List.take_succ_cons, ih]
    rfl
  | case4 n xs =>
    rw [tag, tag, List.map_nil, List.merge_right, List.map_take]
  | case5 n ys _ =>
    rw [tag, tag, List.map_nil, List.nil_merge, List.map_take]

/-- Those of the first items that have a property are the first of all that have it. -/
theorem filter_take (p : α → Bool) (n : Nat) (xs : List α) :
    (xs.take n).filter p = (xs.filter p).take ((xs.take n).countP p) := by
  have hsplit := congrArg (List.filter p) (List.take_append_drop n xs)
  rw [List.filter_append] at hsplit
  rw [← hsplit, List.countP_eq_length_filter, List.take_left]

section Sides

variable (le : α × Bool → α × Bool → Bool) (xs ys : List α)

theorem filter_merge_tag :
    ((tag true xs).merge (tag false ys) le).filter (·.2) = tag true xs := by
  rw [filter_merge, List.filter_eq_self.mpr fun x hx => snd_of_mem_tag hx,
    List.filter_eq_nil_iff.mpr fun y hy => by simp [snd_of_mem_tag hy], List.append_nil]
  intro y hy hp
  rw [snd_of_mem_tag hy] at hp
  cases hp

theorem filter_not_merge_tag :
    ((tag true xs).merge (tag false ys) le).filter (!·.2) = tag false ys := by
  rw [filter_merge, List.filter_eq_nil_iff.mpr fun x hx => by simp [snd_of_mem_tag hx],
    List.filter_eq_self.mpr fun y hy => by simp [snd_of_mem_tag hy], List.nil_append]
  intro y _ _ x rest hsuffix _ z hz
  simp [snd_of_mem_tag (hsuffix.subset hz)]

end Sides

/-- **What is taken in front** are the first items of either list. -/
theorem map_front_perm (n : Nat) (xs ys : List α) :
    ((front r n xs ys).map (·.1)).Perm
      (xs.take ((front r n xs ys).countP (·.2)) ++ ys.take ((front r n xs ys).countP (!·.2))) := by
  have hsides := (List.filter_append_perm (·.2) (front r n xs ys)).map (·.1)
  rw [List.map_append, front_eq, filter_take, filter_take, filter_merge_tag, filter_not_merge_tag,
    ← front_eq, List.map_take, List.map_take, map_fst_tag, map_fst_tag] at hsides
  exact hsides.symm

theorem take_append_middle {a b : Nat} (h : a + b ≤ xs.length) :
    xs.take a ++ (xs.take (xs.length - b)).drop a ++ xs.drop (xs.length - b) = xs := by
  have hfront : xs.take a = (xs.take (xs.length - b)).take a := by
    rw [List.take_take, Nat.min_eq_left (by omega)]
  rw [hfront, List.take_append_drop, List.take_append_drop]

/-- **No item is lost or doubled** where both ends meet. -/
theorem meet?_perm (h : meet? r xs ys = some zs) : zs.Perm (xs ++ ys) := by
  classical
  rw [meet?, close?] at h
  split at h
  next hle =>
    cases h
    have hlow := map_front_perm (r := r) ((xs.length + ys.length) / 2) xs ys
    have hhigh := map_front_perm (r := fun x y => r y x) ((xs.length + ys.length) / 2) ys.reverse
      xs.reverse
    rw [List.take_reverse, List.take_reverse] at hhigh
    refine List.perm_iff_count.mpr fun z => ?_
    have hxs := congrArg (List.count z) (take_append_middle hle.1)
    have hys := congrArg (List.count z) (take_append_middle hle.2)
    have hlow := hlow.count_eq z
    have hhigh := hhigh.count_eq z
    simp only [List.count_append, List.count_reverse] at hxs hys hlow hhigh ⊢
    omega
  next => cases h

/-! ## Halves in order -/

/-- Those of the items between two ends that have a property stand between those at the ends. -/
theorem filter_middle (p : α → Bool) {n : Nat} (h : n + n ≤ xs.length) :
    ((xs.take (xs.length - n)).drop n).filter p =
      ((xs.filter p).take ((xs.filter p).length - (xs.drop (xs.length - n)).countP p)).drop
        ((xs.take n).countP p) := by
  have hparts := congrArg (List.filter p) (take_append_middle h)
  rw [List.filter_append, List.filter_append] at hparts
  rw [← hparts, List.countP_eq_length_filter, List.countP_eq_length_filter, List.length_append,
    Nat.add_sub_cancel, List.take_left, List.drop_left]

theorem filter_append_filter_not (p : α → Bool) (h : xs.length ≤ 1) :
    xs.filter p ++ xs.filter (!p ·) = xs := by
  match xs with
  | [] => rfl
  | [x] => cases hx : p x <;> simp [hx]

/-- **What is taken at both ends of one list** gives that list. -/
theorem close?_eq_some {zs high : List (α × Bool)} {n : Nat}
    (hleft : zs.filter (·.2) = tag true xs) (hright : zs.filter (!·.2) = tag false ys)
    (hlow : n + n ≤ zs.length) (hmiddle : zs.length ≤ n + n + 1)
    (hhigh : high.map (Prod.map id not) = zs.reverse.take n) :
    close? (zs.take n) high xs ys = some (zs.map (·.1)) := by
  have hdrop : zs.drop (zs.length - n) = (high.map (Prod.map id not)).reverse := by
    rw [hhigh, List.take_reverse, List.reverse_reverse]
  have hback : (high.map (·.1)).reverse = (zs.drop (zs.length - n)).map (·.1) := by
    rw [hdrop, List.map_reverse, List.map_map]
    rfl
  have htaken : high.countP (!·.2) = (zs.drop (zs.length - n)).countP (·.2) := by
    rw [hdrop, List.countP_reverse, List.countP_map]
    rfl
  have htaken' : high.countP (·.2) = (zs.drop (zs.length - n)).countP (!·.2) := by
    rw [hdrop, List.countP_reverse, List.countP_map]
    simp [Function.comp_def]
  -- the two ends are of one list, so they take no item of either side twice
  have hcount (p : α × Bool → Bool) : (zs.take n).countP p +
      (zs.drop (zs.length - n)).countP p ≤ (zs.filter p).length := by
    have hparts := congrArg (List.countP p) (take_append_middle hlow)
    rw [List.countP_append, List.countP_append] at hparts
    rw [← List.countP_eq_length_filter]
    omega
  have hfirst := hcount (·.2)
  have hsecond := hcount (!·.2)
  rw [hleft, tag, List.length_map] at hfirst
  rw [hright, tag, List.length_map] at hsecond
  have hbetween : (xs.take (xs.length - (zs.drop (zs.length - n)).countP (·.2))).drop
        ((zs.take n).countP (·.2)) ++
      (ys.take (ys.length - (zs.drop (zs.length - n)).countP (!·.2))).drop
        ((zs.take n).countP (!·.2)) = ((zs.take (zs.length - n)).drop n).map (·.1) := by
    have hone : ((zs.take (zs.length - n)).drop n).length ≤ 1 := by
      rw [List.length_drop, List.length_take]
      omega
    rw [← filter_append_filter_not (·.2) hone, filter_middle _ hlow, filter_middle _ hlow, hleft,
      hright]
    simp [tag, Function.comp_def, List.map_drop, List.map_take]
  rw [close?, htaken, htaken', hback, if_pos ⟨hfirst, hsecond⟩, hbetween, ← List.map_append,
    ← List.map_append, take_append_middle hlow]

section Ordered

variable (hr : Orders r) (hxs : InOrder r xs) (hys : InOrder r ys)

include hr hxs hys

/-- What is taken at the back are the last items of the two lists put together. -/
theorem map_front_reverse (n : Nat) :
    (front (fun x y => r y x) n ys.reverse xs.reverse).map (Prod.map id not) =
      ((tag true xs).merge (tag false ys) fun a b => !r b.1 a.1).reverse.take n := by
  have htagged {zs : List α} (first : Bool) (hzs : InOrder r zs) :
      InOrder (fun a b : α × Bool => r a.1 b.1) (tag first zs) :=
    fun _ => List.pairwise_map.mpr (hzs hr)
  have hback := reverse_merge_eq (hr.comap Prod.fst) (htagged true hxs) (htagged false hys)
  have htags (first : Bool) (zs : List α) :
      (tag first zs.reverse).map (Prod.map id not) = (tag (!first) zs).reverse := by
    simp [tag, Function.comp_def]
  rw [← hback, List.reverse_reverse, front_eq, List.map_take]
  refine congrArg (List.take n) ?_
  refine (List.map_merge (s := fun (a b : α × Bool) => !r a.1 b.1) fun _ _ _ _ => rfl).trans ?_
  rw [htags, htags]
  rfl

/-- **Two halves in order** are put together. -/
theorem meet?_eq_some : meet? r xs ys = some (xs.merge ys fun x y => !r y x) := by
  have hfst : ((tag true xs).merge (tag false ys) fun a b => !r b.1 a.1).map (·.1) =
      xs.merge ys fun x y => !r y x := by
    rw [List.map_merge (s := fun x y => !r y x) fun _ _ _ _ => rfl, map_fst_tag, map_fst_tag]
  rw [meet?, front_eq, ← hfst]
  refine close?_eq_some (filter_merge_tag _ xs ys) (filter_not_merge_tag _ xs ys) ?_ ?_
    (map_front_reverse hr hxs hys _)
  all_goals
    rw [List.length_merge, tag, tag, List.length_map, List.length_map]
    omega

end Ordered

theorem sorts_of_meet? (hxs : InOrder r xs) (hys : InOrder r ys) (h : meet? r xs ys = some zs) :
    Sorts r (xs ++ ys) zs := by
  refine sorts_of_perm (meet?_perm h) fun hr => ?_
  cases h.symm.trans (meet?_eq_some hr hxs hys)
  exact sorts_merge hxs hys

/-- **Items sorted in two halves** are sorted. -/
theorem sorts_of_sortShort? (h : sortShort? r xs = some ys) : Sorts r xs ys := by
  rw [sortShort?] at h
  split at h
  next hlength =>
    cases h
    refine InOrder.sorts fun _ => ?_
    match xs with
    | [] => exact List.Pairwise.nil
    | [x] => exact List.pairwise_singleton _ x
    | _ :: _ :: _ => exact absurd hlength (by simp only [List.length_cons]; omega)
  next =>
    have hleft := sorts_sortHalf (r := r) xs.length (xs.take (xs.length / 2))
    have hright := sorts_sortHalf (r := r) xs.length (xs.drop (xs.length / 2))
    have hparts := hleft.toRearranges.append hright.toRearranges
    rw [List.take_append_drop] at hparts
    exact hparts.sorts (sorts_of_meet? hleft.inOrder hright.inOrder h)

theorem exists_sortShort?_eq_some (hr : Orders r) (xs : List α) :
    ∃ ys, sortShort? r xs = some ys := by
  rw [sortShort?]
  split
  · exact ⟨xs, rfl⟩
  · exact ⟨_, meet?_eq_some hr (sorts_sortHalf _ _).inOrder (sorts_sortHalf _ _).inOrder⟩

/-! ## Nothing but the order matters -/

section Map

variable (s : β → β → Bool) (f : α → β)

theorem map_sortFour (a b c d : α) :
    (sortFour (fun x y => s (f x) (f y)) a b c d).map f =
      sortFour s (f a) (f b) (f c) (f d) := by
  have htwo (x y : α) : Prod.map f f (orderTwo (fun x y => s (f x) (f y)) x y) =
      orderTwo s (f x) (f y) := apply_ite (Prod.map f f) _ _ _
  simp only [sortFour, ← htwo, Prod.map_fst, Prod.map_snd, orderPairs, ← apply_ite f, List.map_cons,
    List.map_nil]

theorem map_sortHalf (total : Nat) (xs : List α) :
    (sortHalf (fun x y => s (f x) (f y)) total xs).map f = sortHalf s total (xs.map f) := by
  match xs with
  | [] | [_] | [_, _] | [_, _, _] => exact map_insertAll s f [] _
  | a :: b :: c :: d :: rest =>
    rw [sortHalf, apply_ite (List.map f), map_insertAll, map_sortFour]
    exact congrArg (ite _ _) (map_insertAll s f [] _)

theorem map_front (n : Nat) (xs ys : List α) :
    (front (fun x y => s (f x) (f y)) n xs ys).map (Prod.map f id) =
      front s n (xs.map f) (ys.map f) := by
  have htag (first : Bool) (zs : List α) :
      (tag first zs).map (Prod.map f id) = tag first (zs.map f) := by
    simp [tag, Function.comp_def]
  rw [front_eq, front_eq, List.map_take]
  refine congrArg (List.take n) ?_
  refine (List.map_merge (s := fun (a b : β × Bool) => !s b.1 a.1) fun _ _ _ _ => rfl).trans ?_
  rw [htag, htag]

theorem map_close? (low high : List (α × Bool)) (xs ys : List α) :
    (close? low high xs ys).map (List.map f) =
      close? (low.map (Prod.map f id)) (high.map (Prod.map f id)) (xs.map f) (ys.map f) := by
  simp only [close?, List.countP_map, Function.comp_def, Prod.map_snd, id_eq, List.length_map]
  split
  · simp [List.map_take, List.map_drop, List.map_reverse, Function.comp_def]
  · rfl

theorem map_meet? (xs ys : List α) :
    (meet? (fun x y => s (f x) (f y)) xs ys).map (List.map f) = meet? s (xs.map f) (ys.map f) := by
  rw [meet?, meet?, map_close?, map_front, map_front (fun x y => s y x), List.length_map,
    List.length_map, List.map_reverse, List.map_reverse]

theorem map_sortShort? (xs : List α) :
    (sortShort? (fun x y => s (f x) (f y)) xs).map (List.map f) = sortShort? s (xs.map f) := by
  rw [sortShort?, sortShort?, apply_ite (Option.map (List.map f)), map_meet?, map_sortHalf,
    map_sortHalf, List.length_map, List.map_take, List.map_drop]
  rfl

end Map

end Michelson.Sorting

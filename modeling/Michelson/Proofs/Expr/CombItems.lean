import Michelson.Proofs.Typing.Nesting

/-!
# The items of combs

A tuple may be written as a pair of all its items, as their sequence, or as pairs of two nested to
the right. In each of them, the step `0` leads to the first item and the step `1` to the second of
two items or to a tuple of the items after the first, which is written in the same way again; no
other step leads anywhere. So the same path leads to the same item in all of them.

## Main definitions

* `Expr.HasItems`: an expression in which the paths of a comb lead to given items

## Main results

* `Expr.hasItems_of_combArg?`: paths from steps
* `Expr.combs_have_items`: the three ways to write a tuple
-/

namespace Michelson.Expr

variable {e : Expr} {build : List Expr → Expr} {x y : Expr} {xs rest : List Expr}

/-- **The paths of a comb lead to the given items**: steps `1` past the items before one and, unless
it is the last, a step `0` to it. What lies within an item is found from there on, and no other step
leads anywhere. -/
structure HasItems (e : Expr) (xs : List Expr) : Prop where
  item : ∀ (i : Nat) (h : i + 1 < xs.length) (path : List Nat),
    e.combAt? (List.replicate i 1 ++ 0 :: path) = xs[i].combAt? path
  last : ∀ (h : xs ≠ []) (path : List Nat),
    e.combAt? (List.replicate (xs.length - 1) 1 ++ path) = (xs.getLast h).combAt? path
  nothing : ∀ (i step : Nat) (path : List Nat), i + 1 < xs.length → 2 ≤ step →
    e.combAt? (List.replicate i 1 ++ step :: path) = none

/-! ## Steps -/

/-- No step but `0` and `1` leads into a comb. -/
theorem combItem?_of_two_le {step : Nat} (h : 2 ≤ step) (xs : List Expr) :
    combItem? build xs step = none := by
  obtain ⟨i, rfl⟩ := Nat.exists_eq_add_of_le' h
  rcases xs with _ | ⟨x, _ | ⟨y, _ | ⟨z, rest⟩⟩⟩ <;> rfl

theorem combArg?_pair {p : Primitive} (hp : p.isPair = true) (xs : List Expr)
    (annots : List String) (flag : Bool) :
    (app p xs annots flag).combArg? = combItem? (app p ·) xs := by
  funext i
  rw [combArg?, if_pos hp]

theorem combArg?_seq (x y : Expr) (rest : List Expr) (annots : List String) :
    (seq (x :: y :: rest) annots).combArg? = combItem? (seq ·) (x :: y :: rest) := rfl

/-- What is left of a right comb without its first item is a right comb. -/
theorem combArg?_rightComb (xs : List Expr) (annots : List String) (flag : Bool) :
    (rightComb xs annots flag).combArg? = combItem? (rightComb · [] false) xs := by
  funext i
  rcases xs with _ | ⟨x, _ | ⟨y, _ | ⟨z, rest⟩⟩⟩ <;> rcases i with _ | _ | i <;> rfl

/-- A step into a longer pair is one into the pair of two that it stands for. -/
theorem combArg?_eq_getElem?_binaryPair {p : Primitive} (hp : p.isPair = true) (xs : List Expr)
    (annots : List String) (flag : Bool) {i : Nat} (hi : i < 2) :
    (app p xs annots flag).combArg? i = (app p xs annots flag).binaryPair.children[i]? := by
  rw [combArg?_pair hp]
  have hside : i = 0 ∨ i = 1 := by omega
  rcases xs with _ | ⟨x, _ | ⟨y, _ | ⟨z, rest⟩⟩⟩
  · rfl
  · rcases hside with rfl | rfl <;> rfl
  · rcases hside with rfl | rfl <;> rfl
  · rw [binaryPair, if_pos hp]
    rcases hside with rfl | rfl <;> rfl

/-! ## Paths -/

/-- Two items have no comb between them. -/
theorem hasItems_two (h : e.combArg? = combItem? build [x, y]) : e.HasItems [x, y] where
  item i hi path := by
    obtain rfl : i = 0 := by
      rw [List.length_cons, List.length_singleton] at hi
      omega
    rw [List.replicate_zero, List.nil_append, combAt?_cons, h]
    rfl
  last _ path := by
    rw [List.length_cons, List.length_singleton, Nat.add_sub_cancel, List.replicate_one,
      List.singleton_append, combAt?_cons, h]
    rfl
  nothing i step path hi hstep := by
    obtain rfl : i = 0 := by
      rw [List.length_cons, List.length_singleton] at hi
      omega
    rw [List.replicate_zero, List.nil_append, combAt?_cons, h, combItem?_of_two_le hstep]
    rfl

/-- One item more in front takes one step more to the right. -/
theorem HasItems.cons {z : Expr} (h : e.combArg? = combItem? build (x :: y :: z :: rest))
    (hrest : (build (y :: z :: rest)).HasItems (y :: z :: rest)) :
    e.HasItems (x :: y :: z :: rest) := by
  have hright (path : List Nat) :
      e.combAt? (1 :: path) = (build (y :: z :: rest)).combAt? path := by
    rw [combAt?_cons, h]
    rfl
  constructor
  · intro i hi path
    cases i with
    | zero =>
      rw [List.replicate_zero, List.nil_append, combAt?_cons, h]
      rfl
    | succ i =>
      rw [List.replicate_succ, List.cons_append, hright]
      exact hrest.item i (Nat.lt_of_succ_lt_succ hi) path
  · intro hne path
    have hlast := hrest.last (List.cons_ne_nil _ _) path
    rw [List.length_cons, Nat.add_sub_cancel] at hlast ⊢
    rw [List.length_cons, List.replicate_succ, List.cons_append, hright,
      List.getLast_cons (List.cons_ne_nil _ _)]
    exact hlast
  · intro i step path hi hstep
    cases i with
    | zero =>
      rw [List.replicate_zero, List.nil_append, combAt?_cons, h, combItem?_of_two_le hstep]
      rfl
    | succ i =>
      rw [List.replicate_succ, List.cons_append, hright]
      exact hrest.nothing i step path (Nat.lt_of_succ_lt_succ hi) hstep

/-- **Paths from steps.** If what is left of a comb without its first item is always written in the
same way, then all paths lead to the items. -/
theorem hasItems_of_combArg?
    (hbuild : ∀ x y rest, (build (x :: y :: rest)).combArg? = combItem? build (x :: y :: rest))
    (h : e.combArg? = combItem? build xs) (hxs : 2 ≤ xs.length) : e.HasItems xs := by
  induction xs generalizing e with
  | nil => cases hxs
  | cons x xs ih =>
    rcases xs with _ | ⟨y, _ | ⟨z, rest⟩⟩
    · exact absurd hxs (by simp)
    · exact hasItems_two h
    · exact .cons h (ih (hbuild y z rest) (by simp))

theorem hasItems_pair {p : Primitive} (hp : p.isPair = true) (hxs : 2 ≤ xs.length)
    (annots : List String) (flag : Bool) : (app p xs annots flag).HasItems xs :=
  hasItems_of_combArg? (fun x y rest => combArg?_pair hp (x :: y :: rest) [] false)
    (combArg?_pair hp xs annots flag) hxs

theorem hasItems_seq (hxs : 2 ≤ xs.length) (annots : List String) :
    (seq xs annots).HasItems xs := by
  rcases xs with _ | ⟨x, _ | ⟨y, rest⟩⟩
  · cases hxs
  · exact absurd hxs (by simp)
  · exact hasItems_of_combArg? (fun x y rest => combArg?_seq x y rest [])
      (combArg?_seq x y rest annots) hxs

theorem hasItems_rightComb (hxs : 2 ≤ xs.length) (annots : List String) (flag : Bool) :
    (rightComb xs annots flag).HasItems xs :=
  hasItems_of_combArg? (fun x y rest => combArg?_rightComb (x :: y :: rest) [] false)
    (combArg?_rightComb xs annots flag) hxs

/-- **The ways to write a tuple agree** item by item: a path leads to the same place in the pair of
all items, in their sequence and in the pairs of two nested to the right. A step into a pair of any
number of arguments is one into the pair of two that it stands for. -/
theorem combs_have_items (xs : List Expr) (annots : List String) (flag : Bool)
    (hxs : 2 ≤ xs.length) :
    ((app (.data .pair) xs annots flag).HasItems xs ∧ (seq xs annots).HasItems xs ∧
      (rightComb xs annots flag).HasItems xs) ∧
    ∀ (p : Primitive) (args : List Expr) (as : List String) (packed : Bool) (i : Nat),
      p.isPair = true → i < 2 →
        (app p args as packed).combArg? i = (app p args as packed).binaryPair.children[i]? := by
  constructor
  · exact ⟨hasItems_pair rfl hxs annots flag, hasItems_seq hxs annots,
      hasItems_rightComb hxs annots flag⟩
  · intro p args as packed i hp hi
    exact combArg?_eq_getElem?_binaryPair hp args as packed hi

/-- Three items, of which the second and the last are pairs themselves. -/
def entryItems : List Expr :=
  [.int 1, .app (.data .pair) [.int 2, .int 3] ["%key"], .app (.data .pair) [.int 4, .int 5]]

theorem combs_have_items_entry :
    let tuple := Expr.app (.data .pair) entryItems ["%entry"] true
    let nested := rightComb entryItems ["%entry"] true
    tuple.HasItems entryItems ∧ (seq entryItems).HasItems entryItems ∧
      nested.HasItems entryItems ∧ nested.same tuple = false ∧
      tuple.combAt? [1, 0, 1] = some (.int 3) ∧ nested.combAt? [1, 0, 1] = some (.int 3) ∧
      (seq entryItems).combAt? [1, 1, 1] = some (.int 5) ∧
      tuple.combAt? [1, 2] = none ∧
      tuple.combArg? 1 = tuple.binaryPair.children[1]? := by
  obtain ⟨⟨htuple, -, hnested⟩, hbinary⟩ := combs_have_items entryItems ["%entry"] true (by decide)
  obtain ⟨⟨-, hseq, -⟩, -⟩ := combs_have_items entryItems [] false (by decide)
  exact ⟨htuple, hseq, hnested, by decide, htuple.item 1 (by decide) [1],
    hnested.item 1 (by decide) [1], hseq.last (by decide) [1],
    htuple.nothing 1 2 [] (by decide) (by decide), hbinary _ _ _ _ 1 rfl (by decide)⟩

end Michelson.Expr

import Michelson.Proofs.Binary.Delimiting

/-!
# Packed flags

Two expressions are equal if they differ in their packed flags only, so that equality is that of the
expressions without any flag. Unpacking sets the flag at every pair and at no other node: reading
sets none, and marking keeps the nodes of an expression in their places.

## Main definitions

* `Expr.unmarked`: the expression with no flag set

## Main results

* `Expr.same_iff`: equality up to flags, from which the laws of an equality follow
* `Expr.nodes_of_children`: the nodes of an expression that is rewritten child by child
* `Expr.packed_iff_of_mem_nodes_markPacked`: the flags of a canonical expression that is marked
* `Expr.unpack_pack`: what is read back from packed data
-/

namespace Michelson.Expr

open Binary

/-! ## Equality up to flags -/

mutual
/-- **The expression with no flag set.** -/
def unmarked : Expr → Expr
  | int n as => int n as
  | string s as => string s as
  | bytes b as => bytes b as
  | seq xs as => seq (unmarkedAll xs) as
  | app p xs as _ => app p (unmarkedAll xs) as
/-- The expressions with no flag set. -/
def unmarkedAll : List Expr → List Expr
  | [] => []
  | x :: xs => unmarked x :: unmarkedAll xs
end

@[simp] theorem unmarkedAll_eq_map (xs : List Expr) : unmarkedAll xs = xs.map unmarked := by
  induction xs with
  | nil => rfl
  | cons x xs ih => simp [unmarkedAll, ih]

@[simp] theorem markPackedAll_eq_map (xs : List Expr) : markPackedAll xs = xs.map markPacked := by
  induction xs with
  | nil => rfl
  | cons x xs ih => simp [markPackedAll, ih]

variable {x y z : Expr}

theorem sameAll_iff {xs ys : List Expr}
    (hxs : ∀ x ∈ xs, ∀ y, same x y = true ↔ x.unmarked = y.unmarked) :
    sameAll xs ys = true ↔ xs.map unmarked = ys.map unmarked := by
  induction xs generalizing ys with
  | nil => cases ys <;> simp [sameAll]
  | cons x xs ih =>
    rw [List.forall_mem_cons] at hxs
    cases ys with
    | nil => simp [sameAll]
    | cons y ys =>
      rw [sameAll, Bool.and_eq_true, hxs.1, ih hxs.2, List.map_cons, List.map_cons,
        List.cons_eq_cons]

/-- **Equality up to flags** is that of the expressions without any flag. -/
theorem same_iff : same x y = true ↔ x.unmarked = y.unmarked := by
  -- Induction on the one expression; the other is of the same form or neither side holds.
  induction x generalizing y with
  | int | string | bytes => cases y <;> simp [same, unmarked]
  | seq xs as ih =>
    have hall {ys : List Expr} : sameAll xs ys = true ↔ xs.map unmarked = ys.map unmarked :=
      sameAll_iff fun x hx y => ih x hx
    cases y <;> simp [same, unmarked, hall]
  | app p xs as flag ih =>
    have hall {ys : List Expr} : sameAll xs ys = true ↔ xs.map unmarked = ys.map unmarked :=
      sameAll_iff fun x hx y => ih x hx
    cases y <;> simp [same, unmarked, hall, and_assoc]

theorem same_trans (h : same x y = true) (h' : same y z = true) : same x z = true := by
  rw [same_iff] at h h' ⊢
  exact h.trans h'

theorem same_symm (h : same x y = true) : same y x = true := by
  rw [same_iff] at h ⊢
  exact h.symm

/-- Marking changes nothing but flags. -/
theorem markPacked_same (e : Expr) : same e.markPacked e = true := by
  induction e with
  | int | string | bytes => simp [markPacked, same]
  | seq xs as ih => simp [markPacked, same, sameAll_map_of_forall ih]
  | app p xs as flag ih => simp [markPacked, same, sameAll_map_of_forall ih]

/-! ## Nodes -/

/-- What is done to the children of each node is done to all nodes. -/
theorem nodes_of_children {f : Expr → Expr} (hf : ∀ e : Expr, (f e).children = e.children.map f)
    (e : Expr) : (f e).nodes = e.nodes.map f := by
  induction e with
  | int | string | bytes =>
    rw [nodes_eq_cons (f _), hf]
    simp [children]
  | seq xs as ih | app p xs as flag ih =>
    rw [nodes_eq_cons (f _), hf, nodes_eq_cons]
    simp only [children, List.map_cons, List.flatMap_map, List.map_flatMap]
    rw [List.flatMap_congr ih]

theorem children_canonical (e : Expr) : e.canonical.children = e.children.map canonical := by
  cases e <;> simp [canonical, children]

theorem children_markPacked (e : Expr) : e.markPacked.children = e.children.map markPacked := by
  cases e <;> simp [markPacked, children]

theorem packed_canonical (e : Expr) : e.canonical.packed = false := by
  cases e <;> rfl

/-- The flag of a node after marking is set if it was set before or if the node is a pair. -/
theorem packed_markPacked_iff (e : Expr) :
    e.markPacked.packed = true ↔ e.packed = true ∨
      e.markPacked.applies (.data .pair) = true ∨ e.markPacked.applies (.type .pair) = true := by
  cases e <;> simp [markPacked, packed, applies, head?, Primitive.isPair]

/-- **The flags of a canonical expression that is marked** are those of its pairs. -/
theorem packed_iff_of_mem_nodes_markPacked {e node : Expr}
    (h : node ∈ e.canonical.markPacked.nodes) :
    node.packed = true ↔
      node.applies (.data .pair) = true ∨ node.applies (.type .pair) = true := by
  rw [nodes_of_children children_markPacked, nodes_of_children children_canonical,
    List.map_map] at h
  obtain ⟨origin, -, rfl⟩ := List.mem_map.mp h
  rw [Function.comp_apply, packed_markPacked_iff, packed_canonical]
  simp

/-! ## Packed data -/

/-- **What is read back from packed data** is the canonical form, with its pairs marked. -/
theorem unpack_pack {e : Expr} (hfits : e.FitsLengths) (hheight : e.height ≤ maxDepth) :
    unpack e.pack = .ok e.canonical.markPacked := by
  have hfront := decodeFront_of_fitsLengths hfits hheight []
  rw [List.append_nil] at hfront
  rw [pack, unpack, if_pos rfl, decode_eq_ok_iff.mpr hfront]
  rfl

end Michelson.Expr

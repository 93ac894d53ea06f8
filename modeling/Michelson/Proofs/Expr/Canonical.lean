import Mathlib.Data.List.Basic
import Michelson.Binary.Codec
import Michelson.Expr.Walk

/-!
# Canonical expressions

The binary form does not write everything that an expression holds: annotations of literals and
sequences are left out, annotations of applications are one text that is cut at its spaces, and
no node is marked as packed. What is read back is the canonical form of an expression.

## Main definitions

* `Expr.height`: the number of nodes on the longest way down
* `Expr.bodies`, `Expr.FitsLengths`: what a node writes after its length, and that all of it fits
* `Expr.canonical`: the expression as its binary form tells it
* `Expr.PlainlyAnnotated`: expressions whose annotations survive the binary form

## Main results

* `pieces_eq_splitOn`: reading cuts annotations as lists are split
* `canonical_same`: a plainly annotated expression is equal to its canonical form
-/

namespace Michelson

namespace Binary

theorem pieces_ne_nil (cs : List Char) : pieces cs ≠ [] := by
  cases cs with
  | nil => simp [pieces]
  | cons c cs =>
    rw [pieces]
    split
    · simp
    · split <;> simp

/-- Reading cuts annotations at spaces. -/
theorem pieces_eq_splitOn (cs : List Char) : pieces cs = cs.splitOn ' ' := by
  induction cs with
  | nil => rfl
  | cons c cs ih =>
    rw [pieces, List.splitOn_cons_eq_if_modifyHead, ← ih]
    by_cases hc : c = ' '
    · simp [hc]
    · obtain ⟨piece, others, h⟩ := List.exists_cons_of_ne_nil (pieces_ne_nil cs)
      simp [hc, h]

end Binary

namespace Expr

open Binary

mutual
/-- The number of nodes on the longest way from the root to a leaf. -/
def height : Expr → Nat
  | int .. | string .. | bytes .. => 1
  | seq xs _ | app _ xs _ _ => heightAll xs + 1
/-- The greatest height among expressions. -/
def heightAll : List Expr → Nat
  | [] => 0
  | x :: xs => max (height x) (heightAll xs)
end

theorem heightAll_le_iff (xs : List Expr) (n : Nat) :
    heightAll xs ≤ n ↔ ∀ x ∈ xs, x.height ≤ n := by
  induction xs with
  | nil => simp [heightAll]
  | cons x xs ih => rw [List.forall_mem_cons, ← ih, heightAll, Nat.max_le]

theorem lt_heightAll_iff (xs : List Expr) (n : Nat) :
    n < heightAll xs ↔ ∃ x ∈ xs, n < x.height := by
  rw [← Nat.not_le, heightAll_le_iff]
  simp

/-- The bytes that a node writes with their length in front, those of its children aside. -/
def bodies : Expr → List (List UInt8)
  | int .. => []
  | string s _ => [Text.utf8 s]
  | bytes b _ => [b]
  | seq xs _ => [encodeAll xs]
  | app _ xs as _ =>
    (if 3 ≤ xs.length then [encodeAll xs] else [])
      ++ if 3 ≤ xs.length ∨ as ≠ [] then [Text.utf8 (String.intercalate " " as)] else []

/-- Whether every length that an expression writes fits into four bytes. -/
def FitsLengths (e : Expr) : Prop :=
  ∀ node ∈ e.nodes, ∀ body ∈ node.bodies, body.length < 0x100000000

instance (e : Expr) : Decidable e.FitsLengths :=
  inferInstanceAs (Decidable (∀ node ∈ e.nodes, ∀ body ∈ node.bodies, _))

theorem fitsLengths_seq_iff (xs : List Expr) (as : List String) :
    (seq xs as).FitsLengths ↔
      (encodeAll xs).length < 0x100000000 ∧ ∀ x ∈ xs, x.FitsLengths := by
  rw [FitsLengths, forall_mem_nodes_iff, bodies, List.forall_mem_singleton]
  rfl

theorem fitsLengths_app_iff (p : Primitive) (xs : List Expr) (as : List String) (flag : Bool) :
    (app p xs as flag).FitsLengths ↔
      (∀ body ∈ (app p xs as flag).bodies, body.length < 0x100000000) ∧
        ∀ x ∈ xs, x.FitsLengths :=
  forall_mem_nodes_iff

/-- The annotations that are read back: the non-empty pieces of all of them in one text, cut at
its spaces. -/
def canonicalAnnots (annots : List String) : List String :=
  (((String.intercalate " " annots).toList.splitOn ' ').filter (!·.isEmpty)).map String.ofList

mutual
/-- **The canonical form of an expression**: what its binary form tells. -/
def canonical : Expr → Expr
  | int n _ => int n
  | string s _ => string s
  | bytes b _ => bytes b
  | seq xs _ => seq (canonicalAll xs)
  | app p xs as _ => app p (canonicalAll xs) (canonicalAnnots as)
/-- The canonical forms of expressions. -/
def canonicalAll : List Expr → List Expr
  | [] => []
  | x :: xs => canonical x :: canonicalAll xs
end

@[simp] theorem canonicalAll_eq_map (xs : List Expr) : canonicalAll xs = xs.map canonical := by
  induction xs with
  | nil => rfl
  | cons x xs ih => simp [canonicalAll, ih]

/-- Whether the annotations of a node have a binary form and are read back from it. -/
def hasPlainAnnots : Expr → Prop
  | int _ as | string _ as | bytes _ as | seq _ as => as = []
  | app _ _ as _ => ∀ a ∈ as, a ≠ "" ∧ ' ' ∉ a.toList

/-- Whether literals and sequences carry no annotations, and all others are non-empty and have
no spaces. -/
def PlainlyAnnotated (e : Expr) : Prop := ∀ node ∈ e.nodes, node.hasPlainAnnots

theorem plainlyAnnotated_iff {e : Expr} :
    e.PlainlyAnnotated ↔ e.hasPlainAnnots ∧ ∀ x ∈ e.children, x.PlainlyAnnotated :=
  forall_mem_nodes_iff

instance (e : Expr) : Decidable e.hasPlainAnnots :=
  match e with
  | int _ as | string _ as | bytes _ as | seq _ as => inferInstanceAs (Decidable (as = []))
  | app _ _ as _ => inferInstanceAs (Decidable (∀ a ∈ as, a ≠ "" ∧ ' ' ∉ a.toList))

instance (e : Expr) : Decidable e.PlainlyAnnotated :=
  inferInstanceAs (Decidable (∀ node ∈ e.nodes, node.hasPlainAnnots))

theorem words_intercalate (annots : List String) :
    words (String.intercalate " " annots) = canonicalAnnots annots := by
  rw [words, pieces_eq_splitOn, canonicalAnnots]

theorem canonicalAnnots_of_plain {annots : List String}
    (h : ∀ a ∈ annots, a ≠ "" ∧ ' ' ∉ a.toList) : canonicalAnnots annots = annots := by
  cases annots with
  | nil => rfl
  | cons a as =>
    have hsplit : (String.intercalate " " (a :: as)).toList.splitOn ' ' =
        (a :: as).map String.toList := by
      rw [String.toList_intercalate]
      refine List.splitOn_intercalate ' ' ?_ (by simp)
      intro cs hcs
      obtain ⟨b, hb, rfl⟩ := List.mem_map.mp hcs
      exact (h b hb).2
    have hkeep : ((a :: as).map String.toList).filter (!·.isEmpty) =
        (a :: as).map String.toList := by
      refine List.filter_eq_self.mpr fun cs hcs => ?_
      obtain ⟨b, hb, rfl⟩ := List.mem_map.mp hcs
      simpa using (h b hb).1
    rw [canonicalAnnots, hsplit, hkeep, List.map_map]
    simp

theorem sameAll_map_of_forall {f : Expr → Expr} {xs : List Expr}
    (h : ∀ x ∈ xs, same (f x) x = true) : sameAll (xs.map f) xs = true := by
  induction xs with
  | nil => rfl
  | cons x xs ih =>
    rw [List.map_cons, sameAll, h x (List.mem_cons_self ..),
      ih fun y hy => h y (List.mem_cons_of_mem _ hy)]
    rfl

/-- A plainly annotated expression is equal to its canonical form. -/
theorem canonical_same {e : Expr} (h : e.PlainlyAnnotated) : same e.canonical e = true := by
  induction e with
  | int | string | bytes =>
    simp_all [PlainlyAnnotated, hasPlainAnnots, canonical, same]
  | seq xs as ih =>
    rw [plainlyAnnotated_iff] at h
    have hxs := sameAll_map_of_forall fun x hx => ih x hx (h.2 x hx)
    simp [canonical, same, hxs, show as = [] from h.1]
  | app p xs as flag ih =>
    rw [plainlyAnnotated_iff] at h
    have hxs := sameAll_map_of_forall fun x hx => ih x hx (h.2 x hx)
    simp [canonical, same, hxs, canonicalAnnots_of_plain h.1]

end Expr

end Michelson

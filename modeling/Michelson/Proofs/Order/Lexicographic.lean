import Mathlib.Algebra.Ring.Nat
import Mathlib.Tactic.Ring
import Michelson.Text.Base58

/-!
# Lexicographic order

Texts, byte strings and numerals are compared from the front, and the first difference decides.
What is known of the order of the parts in front, or of single places, gives the order of the
whole. Numerals of one length are ordered as their numbers are, in every base.

## Main results

* `compare_append`, `compare_append_of_not_prefix`: what stands in front decides
* `compare_map`: lists that are ordered alike at every place
* `Text.Base58.compare_number`: numerals of one length
-/

namespace Michelson

/-! ## Single items -/

/-- What comes behind a difference decides nothing. -/
theorem then_of_ne_eq {o : Ordering} (h : o ≠ .eq) (o' : Ordering) : o.then o' = o := by
  cases o with
  | lt | gt => rfl
  | eq => exact absurd rfl h

/-- Two orders agree if they agree on what comes first and on what is equal. -/
theorem compareOfLessAndEq_congr {α β : Type} [LT α] [DecidableLT α] [DecidableEq α] [LT β]
    [DecidableLT β] [DecidableEq β] {a a' : α} {b b' : β} (hlt : a < a' ↔ b < b')
    (heq : a = a' ↔ b = b') : compareOfLessAndEq a a' = compareOfLessAndEq b b' := by
  simp only [compareOfLessAndEq, hlt, heq]

theorem compare_toNat (a b : UInt8) : compare a.toNat b.toNat = compare a b :=
  compareOfLessAndEq_congr UInt8.lt_iff_toNat_lt.symm UInt8.toNat_inj

/-- Numbers that are divided by a base are ordered by the quotients first. -/
theorem compare_mul_add {base a b x y : Nat} (hx : x < base) (hy : y < base) :
    compare (base * a + x) (base * b + y) = (compare a b).then (compare x y) := by
  rcases Nat.lt_trichotomy a b with hab | rfl | hab
  · have hle : base * (a + 1) ≤ base * b := Nat.mul_le_mul_left base hab
    rw [Nat.mul_add_one] at hle
    rw [Nat.compare_eq_lt.mpr (by omega), Nat.compare_eq_lt.mpr hab]
    rfl
  · rw [Nat.compare_eq_eq.mpr (rfl : a = a)]
    exact compareOfLessAndEq_congr (by omega) (by omega)
  · have hle : base * (b + 1) ≤ base * a := Nat.mul_le_mul_left base hab
    rw [Nat.mul_add_one] at hle
    rw [Nat.compare_eq_gt.mpr (by omega), Nat.compare_eq_gt.mpr hab]
    rfl

/-! ## Lists -/

section Lists

variable {α β : Type} [Ord α] [Ord β]

/-- What stands in front decides, if it has the same length on both sides. -/
theorem compare_append {xs xs' : List α} (h : xs.length = xs'.length) (ys ys' : List α) :
    compare (xs ++ ys) (xs' ++ ys') = (compare xs xs').then (compare ys ys') := by
  induction xs generalizing xs' with
  | nil =>
    rw [List.length_nil, eq_comm, List.length_eq_zero_iff] at h
    subst h
    rfl
  | cons x xs ih =>
    cases xs' with
    | nil => cases h
    | cons x' xs' =>
      rw [List.cons_append, List.cons_append, List.compare_cons_cons, List.compare_cons_cons,
        ih (Nat.succ.inj h), Ordering.then_assoc]

/-- What stands in front decides, if it is not continued on the other side. -/
theorem compare_append_of_not_prefix [Std.LawfulEqOrd α] {xs xs' : List α} (h : ¬xs <+: xs')
    (h' : ¬xs' <+: xs) (ys ys' : List α) : compare (xs ++ ys) (xs' ++ ys') = compare xs xs' := by
  induction xs generalizing xs' with
  | nil => exact absurd (List.nil_prefix) h
  | cons x xs ih =>
    cases xs' with
    | nil => exact absurd (List.nil_prefix) h'
    | cons x' xs' =>
      rw [List.cons_append, List.cons_append, List.compare_cons_cons, List.compare_cons_cons]
      cases hx : compare x x' with
      | lt | gt => rfl
      | eq =>
        obtain rfl := Std.LawfulEqOrd.eq_of_compare hx
        rw [List.prefix_cons_inj] at h h'
        exact ih h h'

/-- Lists are ordered as others that are ordered alike at every place. -/
theorem compare_map {f : α → β} {xs ys : List α}
    (h : ∀ x ∈ xs, ∀ y ∈ ys, compare (f x) (f y) = compare x y) :
    compare (xs.map f) (ys.map f) = compare xs ys := by
  induction xs generalizing ys with
  | nil => cases ys <;> rfl
  | cons x xs ih =>
    cases ys with
    | nil => rfl
    | cons y ys =>
      rw [List.map_cons, List.map_cons, List.compare_cons_cons, List.compare_cons_cons,
        h x (.head _) y (.head _),
        ih fun x' hx' y' hy' => h x' (.tail _ hx') y' (.tail _ hy')]

end Lists

/-- The order of two texts is that of their characters. -/
theorem compare_string (s t : String) : compare s t = compare s.toList t.toList := by
  have hchars (cs ds : List Char) : compareOfLessAndEq cs ds = compare cs ds := by
    induction cs generalizing ds with
    | nil => cases ds <;> rfl
    | cons c cs ih =>
      cases ds with
      | nil => rfl
      | cons d ds =>
        rw [List.compare_cons_cons, ← ih]
        change _ = (compareOfLessAndEq c d).then _
        simp only [compareOfLessAndEq, List.cons_lt_cons_iff, List.cons.injEq]
        by_cases hlt : c < d
        · simp [hlt]
        · by_cases heq : c = d
          · simp [heq]
          · simp [hlt, heq]
  rw [← hchars]
  exact compareOfLessAndEq_congr Iff.rfl String.toList_inj.symm

namespace Text.Base58

/-! ## Numerals -/

/-- A numeral in front counts as often as there are numerals of the length of what follows. -/
theorem number_append (base : Nat) (ds es : List Nat) :
    number base (ds ++ es) = base ^ es.length * number base ds + number base es := by
  have hread (n : Nat) : es.foldl (fun n d => base * n + d) n =
      base ^ es.length * n + number base es := by
    induction es generalizing n with
    | nil => simp [number]
    | cons e es ih =>
      rw [number, List.foldl_cons, List.foldl_cons, ih, ih (base * 0 + e), List.length_cons,
        pow_succ]
      ring
  rw [number, List.foldl_append, hread]
  rfl

theorem number_cons (base d : Nat) (ds : List Nat) :
    number base (d :: ds) = base ^ ds.length * d + number base ds := by
  rw [← List.singleton_append, number_append]
  simp [number]

theorem number_lt {base : Nat} {ds : List Nat} (h : ∀ d ∈ ds, d < base) :
    number base ds < base ^ ds.length := by
  induction ds with
  | nil => exact Nat.one_pos
  | cons d ds ih =>
    rw [List.forall_mem_cons] at h
    have hle : base ^ ds.length * (d + 1) ≤ base ^ ds.length * base := Nat.mul_le_mul_left _ h.1
    have hrest := ih h.2
    rw [Nat.mul_add_one] at hle
    rw [number_cons, List.length_cons, pow_succ]
    omega

/-- **Numerals of one length** are ordered as their numbers are. -/
theorem compare_number {base : Nat} {ds es : List Nat} (hlength : ds.length = es.length)
    (hds : ∀ d ∈ ds, d < base) (hes : ∀ e ∈ es, e < base) :
    compare (number base ds) (number base es) = compare ds es := by
  induction ds generalizing es with
  | nil =>
    cases es with
    | nil => rfl
    | cons e es => cases hlength
  | cons d ds ih =>
    cases es with
    | nil => cases hlength
    | cons e es =>
      rw [List.forall_mem_cons] at hds hes
      have hrest : ds.length = es.length := Nat.succ.inj hlength
      have hlt : number base es < base ^ ds.length := hrest ▸ number_lt hes.2
      rw [number_cons, number_cons, ← hrest, compare_mul_add (number_lt hds.2) hlt,
        ih hrest hds.2 hes.2, List.compare_cons_cons]

end Text.Base58

end Michelson

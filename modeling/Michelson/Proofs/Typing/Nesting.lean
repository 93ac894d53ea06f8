import Michelson.Proofs.Typedef.Placement
import Michelson.Proofs.Typing.Conformance

/-!
# Pairs nested to the right

A value may write a tuple as one pair of many arguments or as pairs of two nested to the right. The
second form is a normal form: every pair of three or more arguments, however deep it lies, becomes
nested pairs of two. Whoever reads a value as a comb finds in the normal form the normal form of
what lies at the same place of the value. So a typedef accepts a value just if it accepts the normal
form, whatever the paths of its parts.

## Main definitions

* `Expr.rightComb`: a pair of some arguments, as pairs of two nested to the right
* `Expr.nestPairs`: a value with all its pairs in that form

## Main results

* `Expr.combArg?_nestPairs`, `Expr.combField?_nestPairs`: one step into a comb, and a whole path
* `Expr.unwrap?_nestPairs`: the payload of an alternative
* `Typedef.accepts_nestPairs`: the check of a value and of its normal form
-/

namespace Michelson

namespace Expr

/-- A pair of some arguments, as pairs of two nested to the right. Annotations stay with the outer
pair, and the new inner ones are plain. -/
def rightComb : List Expr → List String → Bool → Expr
  | x :: y :: z :: rest, annots, flag =>
    app (.data .pair) [x, rightComb (y :: z :: rest) [] false] annots flag
  | xs, annots, flag => app (.data .pair) xs annots flag

mutual
/-- **The value with its pairs nested to the right**, at every depth. -/
def nestPairs : Expr → Expr
  | seq xs as => seq (nestPairsAll xs) as
  | app p xs as flag =>
    if p = .data .pair then rightComb (nestPairsAll xs) as flag
    else app p (nestPairsAll xs) as flag
  | e => e
/-- The values with their pairs nested to the right. -/
def nestPairsAll : List Expr → List Expr
  | [] => []
  | x :: xs => nestPairs x :: nestPairsAll xs
end

@[simp] theorem nestPairsAll_eq_map (xs : List Expr) : nestPairsAll xs = xs.map nestPairs := by
  induction xs with
  | nil => rfl
  | cons x xs ih => rw [nestPairsAll, ih, List.map_cons]

section Nodes

variable {p : Primitive} (annots : List String) (flag : Bool)

@[simp] theorem nestPairs_int (n : Int) : nestPairs (int n annots) = int n annots := rfl

@[simp] theorem nestPairs_string (s : String) :
    nestPairs (string s annots) = string s annots := rfl

@[simp] theorem nestPairs_bytes (b : List UInt8) :
    nestPairs (bytes b annots) = bytes b annots := rfl

@[simp] theorem nestPairs_seq (xs : List Expr) :
    nestPairs (seq xs annots) = seq (xs.map nestPairs) annots := by
  rw [nestPairs, nestPairsAll_eq_map]

/-- Nothing but a pair changes its number of arguments. -/
theorem nestPairs_app_of_ne (h : p ≠ .data .pair) (xs : List Expr) :
    nestPairs (app p xs annots flag) = app p (xs.map nestPairs) annots flag := by
  rw [nestPairs, if_neg h, nestPairsAll_eq_map]

theorem nestPairs_pair (xs : List Expr) :
    nestPairs (app (.data .pair) xs annots flag) = rightComb (xs.map nestPairs) annots flag := by
  rw [nestPairs, if_pos rfl, nestPairsAll_eq_map]

/-- A longer pair becomes one of its first argument and of the pair of the others. -/
theorem nestPairs_longerPair (x y z : Expr) (rest : List Expr) :
    nestPairs (app (.data .pair) (x :: y :: z :: rest) annots flag) =
      app (.data .pair) [x.nestPairs, nestPairs (app (.data .pair) (y :: z :: rest))]
        annots flag := by
  rw [nestPairs_pair, nestPairs_pair]
  rfl

end Nodes

/-- An application still applies its primitive, and keeps its annotations. -/
theorem exists_nestPairs_app_eq (p : Primitive) (xs : List Expr) (annots : List String)
    (flag : Bool) : ∃ ys, (app p xs annots flag).nestPairs = app p ys annots flag := by
  by_cases hp : p = .data .pair
  · rw [hp, nestPairs_pair]
    rcases xs with _ | ⟨x, _ | ⟨y, _ | ⟨z, rest⟩⟩⟩
    all_goals exact ⟨_, rfl⟩
  · exact ⟨_, nestPairs_app_of_ne annots flag hp xs⟩

/-- What applies another primitive than `Pair` in the normal form does so in the value. -/
theorem nestPairs_eq_app_iff {v : Expr} {p : Primitive} {xs : List Expr} {annots : List String}
    {flag : Bool} (h : p ≠ .data .pair) :
    v.nestPairs = app p xs annots flag ↔
      ∃ ys, v = app p ys annots flag ∧ ys.map nestPairs = xs := by
  constructor
  · intro hv
    cases v with
    | int | string | bytes => cases hv
    | seq ys as =>
      rw [nestPairs_seq] at hv
      cases hv
    | app q ys as flag' =>
      obtain ⟨zs, hzs⟩ := exists_nestPairs_app_eq q ys as flag'
      obtain rfl : q = p := by
        rw [hzs] at hv
        cases hv
        rfl
      rw [nestPairs_app_of_ne as flag' h] at hv
      cases hv
      exact ⟨ys, rfl, rfl⟩
  · rintro ⟨ys, rfl, rfl⟩
    exact nestPairs_app_of_ne annots flag h ys

/-! ## Combs -/

theorem combItem?_map_nestPairs (rebuild : List Expr → Expr)
    (h : ∀ xs, rebuild (xs.map nestPairs) = (rebuild xs).nestPairs) (xs : List Expr) (i : Nat) :
    combItem? rebuild (xs.map nestPairs) i = (combItem? rebuild xs i).map nestPairs := by
  rcases xs with _ | ⟨x, _ | ⟨y, _ | ⟨z, rest⟩⟩⟩ <;> rcases i with _ | _ | i
  all_goals first
    | rfl
    | exact congrArg some (h (y :: z :: rest))

/-- **One step into a comb.** The rest of a longer pair, which is made on the way, is in normal form
what the normal form has there already. -/
theorem combArg?_nestPairs (v : Expr) (i : Nat) :
    v.nestPairs.combArg? i = (v.combArg? i).map nestPairs := by
  cases v with
  | int | string | bytes => rfl
  | seq xs as =>
    have hitems := combItem?_map_nestPairs (seq ·) fun xs => (nestPairs_seq [] xs).symm
    rw [nestPairs_seq]
    rcases xs with _ | ⟨x, _ | ⟨y, rest⟩⟩
    · rfl
    · rfl
    · exact hitems (x :: y :: rest) i
  | app p xs as flag =>
    by_cases hp : p = .data .pair
    · subst hp
      rcases xs with _ | ⟨x, _ | ⟨y, _ | ⟨z, rest⟩⟩⟩
      · rfl
      · rcases i with _ | _ | i <;> rfl
      · rcases i with _ | _ | i <;> rfl
      · rw [nestPairs_longerPair]
        rcases i with _ | _ | i <;> rfl
    · rw [nestPairs_app_of_ne as flag hp, combArg?, combArg?]
      split
      · refine combItem?_map_nestPairs _ (fun ys => ?_) xs i
        exact (nestPairs_app_of_ne [] false hp ys).symm
      · exact List.getElem?_map

@[simp] theorem isComb_nestPairs (v : Expr) : v.nestPairs.isComb = v.isComb := by
  cases v with
  | int | string | bytes => rfl
  | seq xs as => rcases xs with _ | ⟨x, _ | ⟨y, rest⟩⟩ <;> rfl
  | app p xs as flag =>
    by_cases hp : p = .data .pair
    · subst hp
      rcases xs with _ | ⟨x, _ | ⟨y, _ | ⟨z, rest⟩⟩⟩ <;> rfl
    · have hcomb (ys : List Expr) : (app p ys as flag).isComb = false := by
        unfold isComb
        split
        · simp_all
        · simp_all
        · rfl
      rw [nestPairs_app_of_ne as flag hp, hcomb, hcomb]

/-- **A path into a comb** leads to the normal form of what it leads to in the value. -/
theorem combField?_nestPairs (v : Expr) (path : List Nat) :
    v.nestPairs.combField? path = (v.combField? path).map nestPairs := by
  induction path generalizing v with
  | nil => rfl
  | cons i path ih =>
    rw [combField?, combField?, isComb_nestPairs, combArg?_nestPairs]
    by_cases hcomb : v.isComb = true
    · rw [if_pos hcomb, if_pos hcomb]
      cases v.combArg? i with
      | none => rfl
      | some x => exact ih x
    · rw [if_neg hcomb, if_neg hcomb]
      rfl

/-! ## Alternatives -/

theorem unwrapFrom?_nestPairs (isBranch : List Nat → Bool) (steps : List Nat) (v : Expr) :
    v.nestPairs.unwrapFrom? isBranch steps =
      (v.unwrapFrom? isBranch steps).map (Prod.map id nestPairs) := by
  fun_induction unwrapFrom? isBranch steps v with
  | case1 steps inner as flag next h | case3 steps inner as flag next h =>
    rw [nestPairs_app_of_ne _ _ (by decide)]
    exact if_pos h
  | case2 steps inner as flag next h ih | case4 steps inner as flag next h ih =>
    rw [nestPairs_app_of_ne _ _ (by decide)]
    exact (if_neg h).trans ih
  | case5 v steps hleft hright =>
    have hwrapped (c : DataConstructor) (hc : c ≠ .pair) (inner : Expr) (as : List String)
        (flag : Bool) (hv : v.nestPairs = app (.data c) [inner] as flag) :
        ∃ x, v = app (.data c) [x] as flag := by
      obtain ⟨ys, rfl, hys⟩ := (nestPairs_eq_app_iff (p := .data c) (by simpa using hc)).mp hv
      obtain ⟨x, rfl, -⟩ := List.map_eq_singleton_iff.mp hys
      exact ⟨x, rfl⟩
    rw [unwrapFrom?.eq_def]
    split
    next inner as flag hv =>
      obtain ⟨x, rfl⟩ := hwrapped .left (by decide) inner as flag hv
      exact absurd rfl (hleft x as flag)
    next inner as flag hv =>
      obtain ⟨x, rfl⟩ := hwrapped .right (by decide) inner as flag hv
      exact absurd rfl (hright x as flag)
    next => rfl

/-- **The payload of an alternative** is found behind the same wrappers. -/
theorem unwrap?_nestPairs (isBranch : List Nat → Bool) (v : Expr) :
    v.nestPairs.unwrap? isBranch = (v.unwrap? isBranch).map (Prod.map id nestPairs) :=
  unwrapFrom?_nestPairs isBranch [] v

/-! ## Options and entries -/

section Shapes

variable {v : Expr} {P Q : Expr → Prop}

theorem isOptionOf_nestPairs_iff :
    (v.nestPairs.IsOptionOf fun _ => True) ↔ v.IsOptionOf fun _ => True := by
  constructor
  · intro h
    rcases (isOptionOf_iff ..).mp h with ⟨as, flag, hv⟩ | ⟨x, as, flag, -, hv⟩
    · obtain ⟨ys, rfl, hys⟩ := (nestPairs_eq_app_iff (p := .data .none) (by decide)).mp hv
      rw [List.map_eq_nil_iff.mp hys]
      exact .none
    · obtain ⟨ys, rfl, hys⟩ := (nestPairs_eq_app_iff (p := .data .some) (by decide)).mp hv
      obtain ⟨y, rfl, -⟩ := List.map_eq_singleton_iff.mp hys
      exact .some trivial
  · intro h
    cases h with
    | none => exact .none
    | some => exact .some trivial

/-- An entry stays one, and its key and its value are those of the normal form. -/
theorem isEntryOf_nestPairs_iff :
    v.nestPairs.IsEntryOf P Q ↔ v.IsEntryOf (fun k => P k.nestPairs) fun w => Q w.nestPairs := by
  constructor
  · intro h
    obtain ⟨k, w, as, flag, hk, hw, hv⟩ := (isEntryOf_iff ..).mp h
    obtain ⟨ys, rfl, hys⟩ := (nestPairs_eq_app_iff (p := .data .elt) (by decide)).mp hv
    rcases ys with _ | ⟨y, _ | ⟨z, _ | ⟨y', rest⟩⟩⟩
    · cases hys
    · cases hys
    · cases hys
      exact .elt hk hw
    · cases hys
  · intro h
    cases h with
    | elt hk hw => exact .elt hk hw

end Shapes

end Expr

/-- What is taken as a whole is so in either form: of a pair only matters that it has two arguments
or more. -/
theorem TypeConstructor.takesWhole_nestPairs (c : TypeConstructor) (v : Expr) :
    c.takesWhole v.nestPairs = c.takesWhole v := by
  cases v with
  | int | string | bytes | seq => rfl
  | app p xs as flag =>
    by_cases hp : p = .data .pair
    · subst hp
      rcases xs with _ | ⟨x, _ | ⟨y, _ | ⟨z, rest⟩⟩⟩ <;> rfl
    · rw [Expr.nestPairs_app_of_ne as flag hp]
      cases p with
      | data d => cases d <;> rcases xs with _ | ⟨x, _ | ⟨y, rest⟩⟩ <;> rfl
      | type | keyword | instruction => rfl

namespace Typedef

section Parts

variable {args : List Typedef}
  (h : ∀ t ∈ args, ∀ v, t.accepts v.nestPairs = true ↔ t.accepts v = true)
include h

theorem holdsEntry_nestPairs (x : Expr) : HoldsEntry args x.nestPairs ↔ HoldsEntry args x := by
  rw [HoldsEntry.eq_def, HoldsEntry.eq_def]
  split
  · rw [Expr.isEntryOf_nestPairs_iff]
    simp_all
  · exact Expr.isEntryOf_nestPairs_iff

theorem holdsComponents_nestPairs (c : TypeConstructor) (v : Expr) :
    HoldsComponents args (componentsOf c v.nestPairs) ↔
      HoldsComponents args (componentsOf c v) := by
  cases v with
  | int | string | bytes => rfl
  | seq xs as =>
    rw [Expr.nestPairs_seq]
    cases c with
    | list | set =>
      refine forall₂_congr fun t ht => ?_
      rw [List.forall_mem_map]
      exact forall₂_congr fun x _ => h t (List.mem_of_mem_head? ht) x
    | map | bigMap =>
      rw [componentsOf, componentsOf, HoldsComponents, HoldsComponents, List.forall_mem_map]
      exact forall₂_congr fun x _ => holdsEntry_nestPairs h x
    | _ => rfl
  | app p xs as flag =>
    obtain ⟨ys, hys⟩ := Expr.exists_nestPairs_app_eq p xs as flag
    have hseq (items : List Expr) (annots : List String) :
        (Expr.app p xs as flag).nestPairs ≠ .seq items annots := by
      rw [hys]
      simp
    rw [componentsOf_eq_whole (.inr hseq), componentsOf_eq_whole (.inr (by simp)),
      TypeConstructor.takesWhole_nestPairs]

theorem holdsFields_nestPairs (depth : Nat) (v : Expr) :
    HoldsFields depth args v.nestPairs ↔ HoldsFields depth args v := by
  refine forall₂_congr fun t ht => ?_
  rw [Expr.combField?_nestPairs]
  cases v.combField? (t.path.drop depth) with
  | none => simp
  | some x => simp [h t ht x]

theorem holdsBranch_nestPairs (depth : Nat) (v : Expr) :
    HoldsBranch depth args v.nestPairs ↔ HoldsBranch depth args v := by
  rw [HoldsBranch, HoldsBranch, Expr.unwrap?_nestPairs]
  cases v.unwrap? (isBranch depth args) with
  | none => simp
  | some found =>
    obtain ⟨steps, x⟩ := found
    constructor
    · rintro ⟨_, _, t, hfound, ht, hacc⟩
      cases hfound
      exact ⟨steps, x, t, rfl, ht, (h t (List.mem_of_find?_eq_some ht) x).mp hacc⟩
    · rintro ⟨_, _, t, hfound, ht, hacc⟩
      cases hfound
      exact ⟨steps, x.nestPairs, t, rfl, ht, (h t (List.mem_of_find?_eq_some ht) x).mpr hacc⟩

end Parts

/-- **The layout of pairs does not matter** for the check. -/
theorem accepts_nestPairs (t : Typedef) (v : Expr) :
    t.accepts v.nestPairs = true ↔ t.accepts v = true := by
  induction t using args_induction generalizing v with
  | node t ih =>
    obtain ⟨name, kind, optional, args, path⟩ := t
    cases optional with
    | true =>
      rw [accepts_optional, accepts_optional]
      exact Expr.isOptionOf_nestPairs_iff
    | false =>
      cases kind with
      | struct =>
        rw [accepts_struct, accepts_struct]
        exact holdsFields_nestPairs ih path.length v
      | union =>
        rw [accepts_union, accepts_union]
        exact holdsBranch_nestPairs ih path.length v
      | type c =>
        rw [accepts_type rfl, accepts_type rfl]
        exact holdsComponents_nestPairs ih c v
      | sapling p size =>
        cases p with
        | type c =>
          rw [accepts_type rfl, accepts_type rfl]
          exact holdsComponents_nestPairs ih c v
        | data | instruction | keyword => simp [accepts_iff, check.eq_def]

end Typedef

end Michelson

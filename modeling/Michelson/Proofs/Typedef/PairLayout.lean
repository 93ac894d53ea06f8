import Michelson.Expr.Walk
import Michelson.Proofs.Typedef.Derivation

/-!
# Types with their pairs nested to the right

A pair of types may have three arguments or more, or be written as pairs of two nested to the right.
The second form is a normal form: every longer pair, however deep it lies, becomes one of its first
argument and of a plain pair of the others. While a typedef is derived, a longer pair is taken apart
in the same way, but one argument at a time, and the plain pairs that are made on the way are
flattened at once. So the typedef of a type, or the failure where there is none, is that of its
normal form.

## Main definitions

* `Expr.nestPairTypes`: a type with its pairs nested to the right
* `Typedef.NestsAlike`: whether a type is derived like its normal form

## Main results

* `Expr.length_children_le_two_of_mem_nodes`: no pair in the normal form has more than two arguments
* `Typedef.build_map`: a node over arguments that are derived alike
* `Typedef.build_nestPairTypes`: a type and its normal form are derived alike
-/

namespace Michelson

namespace Expr

/-! ## The normal form -/

/-- The arguments of a pair as those of a pair of two: the second is the plain pair of all but the
first. -/
def nestArgs : List Expr → List Expr
  | x :: y :: z :: rest => [x, app (.type .pair) (nestArgs (y :: z :: rest))]
  | xs => xs

mutual
/-- **A type with its pairs nested to the right**, at every depth. The annotations and the packed
flag of a longer pair stay with the outermost of the pairs that it becomes. -/
def nestPairTypes : Expr → Expr
  | seq xs as => seq (nestPairTypesAll xs) as
  | app p xs as flag =>
    app p (if p = .type .pair then nestArgs (nestPairTypesAll xs) else nestPairTypesAll xs) as flag
  | e => e
/-- The types with their pairs nested to the right. -/
def nestPairTypesAll : List Expr → List Expr
  | [] => []
  | x :: xs => nestPairTypes x :: nestPairTypesAll xs
end

@[simp] theorem nestPairTypesAll_eq_map (xs : List Expr) :
    nestPairTypesAll xs = xs.map nestPairTypes := by
  induction xs with
  | nil => rfl
  | cons x xs ih => rw [nestPairTypesAll, ih, List.map_cons]

section Nodes

variable {p : Primitive} (args : List Expr) (annots : List String) (flag : Bool)

@[simp] theorem nestPairTypes_seq (xs : List Expr) :
    nestPairTypes (seq xs annots) = seq (xs.map nestPairTypes) annots := by
  rw [nestPairTypes, nestPairTypesAll_eq_map]

theorem nestPairTypes_pair :
    nestPairTypes (app (.type .pair) args annots flag) =
      app (.type .pair) (nestArgs (args.map nestPairTypes)) annots flag := by
  rw [nestPairTypes, if_pos rfl, nestPairTypesAll_eq_map]

/-- Nothing but a pair changes its number of arguments. -/
theorem nestPairTypes_app_of_ne (h : p ≠ .type .pair) :
    nestPairTypes (app p args annots flag) = app p (args.map nestPairTypes) annots flag := by
  rw [nestPairTypes, if_neg h, nestPairTypesAll_eq_map]

end Nodes

/-- An application still applies its primitive. -/
@[simp] theorem applies_nestPairTypes (p : Primitive) (e : Expr) :
    e.nestPairTypes.applies p = e.applies p := by
  cases e with
  | int | string | bytes => rfl
  | seq =>
    rw [nestPairTypes_seq]
    rfl
  | app =>
    rw [nestPairTypes]
    rfl

/-- What is no pair has the same description, which tells the number of arguments. -/
theorem describe_nestPairTypes {e : Expr} (h : e.applies (.type .pair) = false) :
    e.nestPairTypes.describe = e.describe := by
  cases e with
  | int | string | bytes => rfl
  | seq xs annots => simp [describe]
  | app p args annots flag =>
    rw [nestPairTypes_app_of_ne _ _ _ (by simpa [applies, head?] using h)]
    cases args <;> simp [describe]

/-! ## Short pairs -/

/-- Whether no pair in an expression has more than two arguments. -/
def HasShortPairs (e : Expr) : Prop :=
  ∀ x ∈ e.nodes, x.applies (.type .pair) = true → x.children.length ≤ 2

theorem hasShortPairs_iff {e : Expr} :
    e.HasShortPairs ↔
      (e.applies (.type .pair) = true → e.children.length ≤ 2) ∧
        ∀ x ∈ e.children, x.HasShortPairs :=
  forall_mem_nodes_iff

theorem hasShortPairs_app {p : Primitive} {args : List Expr} {annots : List String} {flag : Bool}
    (hp : p = .type .pair → args.length ≤ 2) (h : ∀ x ∈ args, x.HasShortPairs) :
    (app p args annots flag).HasShortPairs := by
  refine hasShortPairs_iff.mpr ⟨fun happlies => hp ?_, h⟩
  simpa [applies, head?] using happlies

theorem length_nestArgs_le_two (xs : List Expr) : (nestArgs xs).length ≤ 2 := by
  rcases xs with _ | ⟨x, _ | ⟨y, _ | ⟨z, rest⟩⟩⟩ <;> simp [nestArgs]

/-- The pairs that are made of the arguments of a pair are short. -/
theorem hasShortPairs_of_mem_nestArgs {xs : List Expr} (h : ∀ x ∈ xs, x.HasShortPairs) :
    ∀ x ∈ nestArgs xs, x.HasShortPairs := by
  induction xs using nestArgs.induct with
  | case1 x y z rest ih =>
    rw [List.forall_mem_cons] at h
    rw [nestArgs, List.forall_mem_cons, List.forall_mem_singleton]
    exact ⟨h.1, hasShortPairs_app (fun _ => length_nestArgs_le_two _) (ih h.2)⟩
  | case2 xs hshort =>
    rwa [nestArgs]
    exact hshort

/-- **No longer pair is left** in the normal form. -/
theorem hasShortPairs_nestPairTypes (e : Expr) : e.nestPairTypes.HasShortPairs := by
  induction e with
  | int | string | bytes => simp [HasShortPairs, nestPairTypes, applies, head?]
  | seq xs annots ih =>
    rw [nestPairTypes_seq]
    rw [hasShortPairs_iff]
    exact ⟨by simp [applies, head?], List.forall_mem_map.mpr ih⟩
  | app p args annots flag ih =>
    rw [← List.forall_mem_map (f := nestPairTypes)] at ih
    by_cases hp : p = .type .pair
    · subst hp
      rw [nestPairTypes_pair]
      exact hasShortPairs_app (fun _ => length_nestArgs_le_two _)
        (hasShortPairs_of_mem_nestArgs ih)
    · rw [nestPairTypes_app_of_ne _ _ _ hp]
      exact hasShortPairs_app (fun h => absurd h hp) ih

end Expr

namespace Typedef

open Michelson.Expr

/-! ## What is built at a node -/

section Building

variable {args : List Expr} {annots : List String} {flag : Bool} {fallback : String}
variable {path : List Nat}

theorem build_pair :
    build (.app (.type .pair) args annots flag) fallback path =
      (combFields args path).map fun fields =>
        ⟨nameOf annots fallback, .struct, false, numberFields fields, path⟩ := by
  rw [build]
  cases combFields args path <;> rfl

theorem build_or :
    build (.app (.type .or) args annots flag) fallback path =
      (branches "@or_0" args path).map fun ts =>
        ⟨nameOf annots fallback, .union, false, ts, path⟩ := by
  rw [build]
  cases branches "@or_0" args path <;> rfl

theorem build_of_not_type {e : Expr} (h : ∀ c, e.head? ≠ some (.type c)) :
    build e fallback path = .error (.notAType e.describe) := by
  cases e with
  | int | string | bytes | seq => simp only [build]
  | app p args annots flag =>
    cases p with
    | type c => exact absurd rfl (h c)
    | keyword | data | instruction => simp only [build]

theorem combFields_of_not_continuesComb {x y : Expr} (h : continuesComb y = false) :
    combFields [x, y] path =
      (do let t ← build x "" (path ++ [0])
          return [t, ← build y "" (path ++ [1])]) := by
  rw [combFields]
  rintro args rfl
  cases h

theorem sideBranches_of_not_or {first : String} {e : Expr} (h : e.applies (.type .or) = false) :
    sideBranches first e path = (build e first path).map ([·]) := by
  unfold sideBranches
  split
  · cases h
  · rfl

/-- **A node over arguments that are derived alike** is derived alike, with the same typedef or the
same failure. Combs and nests are left out, which look into their arguments. -/
theorem build_map {f : Expr → Expr} {c : TypeConstructor} (hc : c ≠ .pair ∧ c ≠ .or)
    (hleaf : leafKind? c (args.map f) = leafKind? c args)
    (hargs : ∀ x ∈ args, ∀ fallback path, build (f x) fallback path = build x fallback path) :
    build (.app (.type c) (args.map f) annots flag) fallback path =
      build (.app (.type c) args annots flag) fallback path := by
  obtain ⟨hpair, hor⟩ := hc
  cases hkind : leafKind? c args with
  | some kind => rw [build_leaf (hleaf.trans hkind), build_leaf hkind]
  | none =>
    rcases args with _ | ⟨x, _ | ⟨y, _ | ⟨z, rest⟩⟩⟩
    · rfl
    · have hx := hargs x (.head _)
      cases c <;> first
        | contradiction
        | (simp only [build, List.map_cons, List.map_nil, hx]; rfl)
    · have hx := hargs x (.head _)
      have hy := hargs y (by simp)
      cases c <;> first
        | contradiction
        | (simp only [build, List.map_cons, List.map_nil, hx, hy]; rfl)
    · cases c <;> first
        | contradiction
        | simp only [build, List.map_cons, List.length_cons, List.length_map]

end Building

/-! ## A type and its normal form -/

/-- **Whether a type is derived like its normal form**, on its own, as the rest of a comb, and as a
side of a nest. -/
structure NestsAlike (e : Expr) : Prop where
  build_eq : ∀ fallback path, build e.nestPairTypes fallback path = build e fallback path
  combFields_eq : ∀ path,
    combFields (nestArgs (e.children.map nestPairTypes)) path = combFields e.children path
  branches_eq : ∀ first path,
    branches first (e.children.map nestPairTypes) path = branches first e.children path

/-- A memo size is read alike. -/
theorem leafKind?_map_nestPairTypes (c : TypeConstructor) (args : List Expr) :
    leafKind? c (args.map nestPairTypes) = leafKind? c args := by
  rcases args with _ | ⟨x, _ | ⟨y, rest⟩⟩
  · rfl
  · cases x <;> cases c <;> rfl
  · cases c <;> first | rfl | simp [leafKind?, saplingKind]

/-- A comb goes on with the same pairs. -/
theorem continuesComb_nestPairTypes (e : Expr) :
    continuesComb e.nestPairTypes = continuesComb e := by
  cases e with
  | int | string | bytes => rfl
  | seq =>
    rw [nestPairTypes_seq]
    rfl
  | app p args annots flag =>
    rw [nestPairTypes]
    unfold continuesComb
    split <;> split <;> simp_all

section Arguments

variable {args : List Expr}

/-- **The fields of a comb** are derived alike from its arguments and from those of nested pairs. -/
theorem combFields_nestArgs (h : ∀ x ∈ args, NestsAlike x) (path : List Nat) :
    combFields (nestArgs (args.map nestPairTypes)) path = combFields args path := by
  induction args generalizing path with
  | nil => rfl
  | cons x rest ih =>
    rw [List.forall_mem_cons] at h
    obtain ⟨hx, hrest⟩ := h
    rcases rest with _ | ⟨y, _ | ⟨z, rest⟩⟩
    · simp [nestArgs, combFields]
    · have hy : NestsAlike y := hrest y (.head _)
      show combFields [x.nestPairTypes, y.nestPairTypes] path = combFields [x, y] path
      cases hcomb : continuesComb y with
      | true =>
        obtain ⟨args, rfl⟩ := exists_of_continuesComb hcomb
        have hargs := hy.combFields_eq (path ++ [1])
        rw [nestPairTypes_pair, combFields, combFields, hx.build_eq]
        exact bind_congr fun t => congrArg (· >>= fun ts => pure (t :: ts)) hargs
      | false =>
        have hcomb' := (continuesComb_nestPairTypes y).trans hcomb
        rw [combFields_of_not_continuesComb hcomb, combFields_of_not_continuesComb hcomb',
          hx.build_eq, hy.build_eq]
    · rw [List.map_cons, List.map_cons, List.map_cons, nestArgs, combFields, combFields,
        hx.build_eq, ← ih hrest]
      rfl

theorem sideBranches_nestPairTypes {e : Expr} (h : NestsAlike e) (first : String)
    (path : List Nat) : sideBranches first e.nestPairTypes path = sideBranches first e path := by
  cases hor : e.applies (.type .or) with
  | true =>
    obtain ⟨args, annots, flag, rfl⟩ := applies_iff.mp hor
    rw [nestPairTypes_app_of_ne _ _ _ (by decide)]
    exact h.branches_eq "@or_1" path
  | false =>
    have hor' := (applies_nestPairTypes _ e).trans hor
    rw [sideBranches_of_not_or hor, sideBranches_of_not_or hor', h.build_eq]

/-- **The branches of a nest** are derived alike. -/
theorem branches_map_nestPairTypes (h : ∀ x ∈ args, NestsAlike x) (first : String)
    (path : List Nat) :
    branches first (args.map nestPairTypes) path = branches first args path := by
  match args, h with
  | [left, right], h =>
    rw [List.forall_mem_cons, List.forall_mem_singleton] at h
    rw [List.map_cons, List.map_singleton, branches_pair, branches_pair,
      sideBranches_nestPairTypes h.1, sideBranches_nestPairTypes h.2]
  | [], _ => rfl
  | [_], _ => simp [branches]
  | _ :: _ :: _ :: _, _ => simp [branches]

end Arguments

theorem nestsAlike (e : Expr) : NestsAlike e := by
  -- Induction on the type for all three ways to derive it at once: a comb asks for the fields of
  -- its last argument, and a nest for the branches of its sides.
  induction e with
  | int | string | bytes => exact ⟨fun _ _ => rfl, fun _ => rfl, fun _ _ => rfl⟩
  | seq xs annots ih =>
    refine ⟨fun fallback path => ?_, combFields_nestArgs ih, branches_map_nestPairTypes ih⟩
    rw [build_of_not_type (by simp [head?]), build_of_not_type (by simp [head?]),
      describe_nestPairTypes rfl]
  | app p args annots flag ih =>
    refine ⟨fun fallback path => ?_, combFields_nestArgs ih, branches_map_nestPairTypes ih⟩
    cases p with
    | keyword | data | instruction =>
      rw [build_of_not_type (by simp [nestPairTypes, head?]), build_of_not_type (by simp [head?]),
        describe_nestPairTypes rfl]
    | type c =>
      by_cases hpair : c = .pair
      · subst hpair
        rw [nestPairTypes_pair, build_pair, build_pair, combFields_nestArgs ih]
      by_cases hor : c = .or
      · subst hor
        rw [nestPairTypes_app_of_ne _ _ _ (by decide), build_or, build_or,
          branches_map_nestPairTypes ih]
      · rw [nestPairTypes_app_of_ne _ _ _ (by simpa using hpair)]
        exact build_map ⟨hpair, hor⟩ (leafKind?_map_nestPairTypes c args)
          fun x hx => (ih x hx).build_eq

/-- **Longer pairs and nested pairs are derived alike**: in the normal form no pair has more than
two arguments, and it has the typedef that the type has, with the same names and paths, or fails
where the type does, with the same failure. -/
theorem build_nestPairTypes (e : Expr) (fallback : String) (path : List Nat) :
    e.nestPairTypes.HasShortPairs ∧
      build e.nestPairTypes fallback path = build e fallback path :=
  ⟨hasShortPairs_nestPairTypes e, (nestsAlike e).build_eq fallback path⟩

/-- What marks a longer pair stays with the outer of the pairs that it becomes. -/
example :
    (Expr.app (.type .pair) [.plainType .nat, .plainType .int, .plainType .bool] ["%x"]
      true).nestPairTypes =
      .app (.type .pair)
        [.plainType .nat, .app (.type .pair) [.plainType .int, .plainType .bool]] ["%x"] true :=
  rfl

end Typedef

end Michelson

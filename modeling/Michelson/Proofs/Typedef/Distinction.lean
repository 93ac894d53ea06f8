import Michelson.Expr.Walk
import Michelson.Proofs.Typedef.Recovery
import Michelson.Typedef.Equivalence

/-!
# Types told apart by their typedefs

Equal typedefs come from types that differ in little. Where there are no alternatives, whose nests
are flattened, and no sapling types, whose arguments are not kept, a typedef tells the type from
which it is derived: how its pairs are nested, what its components are, and where it has options.
What it does not tell are the annotations, whether a comb was written as one pair or as several, and
how many options stand directly around one another: all of them together set a single mark.

## Main definitions

* `Expr.combed`: a type without annotations, with its pairs nested to the right
* `Expr.IsLegible`: the types that are read off their typedefs
* `Typedef.combedType`: the type read off a typedef

## Main results

* `Typedef.combedType_eq_of_equal`: equal typedefs
* `Typedef.Derives.combedType_eq`: the type from which a typedef is derived
* `Typedef.combed_eq_of_equal`: types with equal typedefs
* `Typedef.equal_of_nestedOptions`: two types that are not told apart
-/

namespace Michelson

namespace Expr

/-! ## Combs of types -/

/-- The pair of some types, as pairs of two nested to the right. -/
def pairComb : List Expr → Expr
  | x :: y :: z :: rest => app (.type .pair) [x, pairComb (y :: z :: rest)]
  | xs => app (.type .pair) xs

/-- A pair of a type and of a comb is a comb. -/
theorem pairComb_cons {xs : List Expr} (h : 2 ≤ xs.length) (x : Expr) :
    pairComb (x :: xs) = app (.type .pair) [x, pairComb xs] := by
  match xs, h with
  | y :: z :: rest, _ => rfl

mutual
/-- **A type without annotations and packed flags** in which every longer pair is written as pairs
of two nested to the right. -/
def combed : Expr → Expr
  | int n _ => int n
  | string s _ => string s
  | bytes b _ => bytes b
  | seq xs _ => seq (combedAll xs)
  | app p args _ _ =>
    if p = .type .pair then pairComb (combedAll args) else app p (combedAll args)
/-- The types in that form. -/
def combedAll : List Expr → List Expr
  | [] => []
  | x :: xs => combed x :: combedAll xs
end

@[simp] theorem combedAll_eq_map (xs : List Expr) : combedAll xs = xs.map combed := by
  induction xs with
  | nil => rfl
  | cons x xs ih => simp [combedAll, ih]

section Applications

variable {p : Primitive} (args : List Expr) (annots : List String) (flag : Bool)

theorem combed_pair :
    (app (.type .pair) args annots flag).combed = pairComb (args.map combed) := by
  rw [combed, if_pos rfl, combedAll_eq_map]

theorem combed_app_of_ne (hp : p ≠ .type .pair) :
    (app p args annots flag).combed = app p (args.map combed) := by
  rw [combed, if_neg hp, combedAll_eq_map]

end Applications

/-- A comb is no option. -/
theorem isOption_pairComb (xs : List Expr) : (pairComb xs).isOption = false := by
  rcases xs with _ | ⟨x, _ | ⟨y, _ | ⟨z, rest⟩⟩⟩ <;> rfl

theorem isOption_combed (e : Expr) : e.combed.isOption = e.isOption := by
  cases e with
  | int | string | bytes | seq => rfl
  | app p args annots flag =>
    by_cases hp : p = .type .pair
    · subst hp
      rw [combed_pair, isOption_pairComb]
      rfl
    · rw [combed_app_of_ne _ _ _ hp]
      simp [isOption, applies, head?, children]

theorem combed_asOption (e : Expr) (annots : List String) (flag : Bool) :
    (e.asOption annots flag).combed = e.combed.asOption := by
  unfold asOption
  rw [isOption_combed]
  split
  · rfl
  · exact combed_app_of_ne _ _ _ (by decide)

section Merging

variable {args : List Expr} {annots : List String} {flag : Bool}

theorem combed_mergeOptions_pair :
    (app (.type .pair) args annots flag).mergeOptions.combed =
      pairComb (args.map fun x => x.mergeOptions.combed) := by
  simp [mergeOptions, combed_pair, Function.comp_def]

theorem combed_mergeOptions_option {inner : Expr} :
    (app (.type .option) [inner] annots flag).mergeOptions.combed =
      inner.mergeOptions.combed.asOption := by
  rw [mergeOptions, combed_asOption]

theorem combed_mergeOptions_app {c : TypeConstructor} (hpair : c ≠ .pair) (hoption : c ≠ .option) :
    (app (.type c) args annots flag).mergeOptions.combed =
      app (.type c) (args.map fun x => x.mergeOptions.combed) := by
  rw [mergeOptions, combed_app_of_ne _ _ _ (by simpa using hpair), mergeOptionsAll_eq_map,
    List.map_map]
  · rfl
  · rintro _ hc
    exact absurd (by simpa using hc) hoption

end Merging

/-! ## Types that are read off their typedefs -/

/-- **Whether a type can be read off its typedef**: it contains no alternatives and no sapling
types. -/
def IsLegible (e : Expr) : Prop :=
  ∀ x ∈ e.nodes, ∀ c ∈ [TypeConstructor.or, .saplingState, .saplingTransaction,
    .saplingTransactionDeprecated], x.applies (.type c) = false

instance (e : Expr) : Decidable e.IsLegible :=
  inferInstanceAs (Decidable (∀ x ∈ e.nodes, _))

section Legible

variable {c : TypeConstructor} {args : List Expr} {annots : List String} {flag : Bool}

theorem IsLegible.notMem (h : (app (.type c) args annots flag).IsLegible) :
    c ∉ [TypeConstructor.or, .saplingState, .saplingTransaction,
      .saplingTransactionDeprecated] := by
  intro hc
  have happlies := h _ (mem_nodes_self _) c hc
  simp [applies, head?] at happlies

theorem IsLegible.of_mem_args {p : Primitive} (h : (app p args annots flag).IsLegible) :
    ∀ x ∈ args, x.IsLegible := by
  intro x hx y hy
  exact h y (mem_nodes_of_mem_children hx hy)

end Legible

end Expr

namespace Typedef

/-! ## Types read off -/

/-- The type of a kind with components of these types. -/
def Kind.combedType : Kind → List Expr → Expr
  | .struct, xs => Expr.pairComb xs
  | .union, xs => .app (.type .or) xs
  | .type c, xs => .app (.type c) xs
  | .sapling p _, xs => .app p xs

mutual
/-- **The type that is read off a typedef.** -/
def combedType : Typedef → Expr
  | ⟨_, kind, optional, args, _⟩ =>
    if optional then (kind.combedType (combedTypes args)).asOption
    else kind.combedType (combedTypes args)
/-- The types that are read off typedefs. -/
def combedTypes : List Typedef → List Expr
  | [] => []
  | t :: ts => combedType t :: combedTypes ts
end

theorem combedTypes_eq_map (ts : List Typedef) : combedTypes ts = ts.map combedType := by
  induction ts with
  | nil => rfl
  | cons t ts ih => rw [combedTypes, ih, List.map_cons]

theorem combedType_mk (name : String) (kind : Kind) (optional : Bool) (args : List Typedef)
    (path : List Nat) :
    combedType ⟨name, kind, optional, args, path⟩ =
      if optional then (kind.combedType (args.map combedType)).asOption
      else kind.combedType (args.map combedType) := by
  rw [combedType, combedTypes_eq_map]

/-- Names are not read. -/
theorem combedType_rename (t : Typedef) (name : String) :
    combedType { t with name := name } = combedType t := by
  obtain ⟨name', kind, optional, args, path⟩ := t
  rw [combedType_mk, combedType_mk]

/-- Names by position are not read. -/
theorem map_combedType_numberFields (ts : List Typedef) :
    (numberFields ts).map combedType = ts.map combedType :=
  map_numberFields_of_blind combedType_rename ts

/-- The type of an optional typedef is an option of that without the mark, and an option of an
option is the same. -/
theorem combedType_optional {t : Typedef} (name : String) (path : List Nat) :
    combedType ⟨name, t.kind, true, t.args, path⟩ = t.combedType.asOption := by
  obtain ⟨name', kind, optional, args, path'⟩ := t
  rw [combedType_mk, combedType_mk]
  cases optional with
  | true => exact (Expr.asOption_asOption _).symm
  | false => rfl

mutual
/-- **Equal typedefs** tell the same type. -/
theorem combedType_eq_of_equal {t u : Typedef} (h : t.equal u = true) :
    t.combedType = u.combedType := by
  match t, u with
  | ⟨_, kind, optional, args, _⟩, ⟨_, kind', optional', args', _⟩ =>
    simp only [equal, Bool.and_eq_true, beq_iff_eq] at h
    obtain ⟨⟨rfl, rfl⟩, hargs⟩ := h
    rw [combedType_mk, combedType_mk, map_combedType_eq_of_equalAll hargs]
theorem map_combedType_eq_of_equalAll {ts us : List Typedef} (h : equalAll ts us = true) :
    ts.map combedType = us.map combedType := by
  match ts, us with
  | [], [] => rfl
  | t :: ts, u :: us =>
    rw [equalAll, Bool.and_eq_true] at h
    rw [List.map_cons, List.map_cons, combedType_eq_of_equal h.1,
      map_combedType_eq_of_equalAll h.2]
end

/-! ## Derived typedefs -/

section Components

variable {c : TypeConstructor} {args : List Expr} {annots : List String} {flag : Bool}

/-- A type without components of its own is read off its kind. -/
theorem combedType_leaf {kind : Kind} (hkind : leafKind? c args = some kind)
    (he : (Expr.app (.type c) args annots flag).IsLegible) :
    kind.combedType [] = (Expr.app (.type c) args annots flag).mergeOptions.combed := by
  have hc := he.notMem
  cases c <;> cases args <;> cases hkind <;> first | rfl | simp at hc

theorem combed_unary {x : Expr} {name : String} (hc : componentName? c = some name) :
    (Expr.app (.type c) [x] annots flag).mergeOptions.combed =
      .app (.type c) [x.mergeOptions.combed] :=
  Expr.combed_mergeOptions_app (by rintro rfl; cases hc) (by rintro rfl; cases hc)

theorem combed_binary {x y : Expr} {names : String × String}
    (hc : componentNames? c = some names) :
    (Expr.app (.type c) [x, y] annots flag).mergeOptions.combed =
      .app (.type c) [x.mergeOptions.combed, y.mergeOptions.combed] :=
  Expr.combed_mergeOptions_app (by rintro rfl; cases hc) (by rintro rfl; cases hc)

end Components

mutual
/-- **The type from which a typedef is derived** is the one that is read off, if its options are
merged. -/
theorem Derives.combedType_eq {e : Expr} {fallback : String} {path : List Nat} {t : Typedef}
    (h : Derives e fallback path t) (he : e.IsLegible) :
    t.combedType = e.mergeOptions.combed := by
  match h with
  | .struct hfields =>
    rw [combedType_mk, if_neg Bool.false_ne_true, map_combedType_numberFields,
      Expr.combed_mergeOptions_pair]
    exact hfields.pairComb_eq he.of_mem_args
  | .union _ => exact absurd he.notMem (by simp)
  | .option hinner =>
    rw [combedType_optional, Expr.combed_mergeOptions_option,
      hinner.combedType_eq (he.of_mem_args _ List.mem_cons_self)]
  | .leaf hkind =>
    rw [combedType_mk, if_neg Bool.false_ne_true, List.map_nil]
    exact combedType_leaf hkind he
  | .unary hc ht =>
    rw [combedType_mk, if_neg Bool.false_ne_true, combed_unary hc, List.map_singleton,
      ht.combedType_eq (he.of_mem_args _ List.mem_cons_self)]
    rfl
  | .binary hc ht hu =>
    rw [combedType_mk, if_neg Bool.false_ne_true, combed_binary hc, List.map_cons,
      List.map_singleton, ht.combedType_eq (he.of_mem_args _ (by simp)),
      hu.combedType_eq (he.of_mem_args _ (by simp))]
    rfl
/-- The comb of the types of its fields is the comb of its components, whichever of them were
written as one pair. -/
theorem DerivesFields.pairComb_eq {args : List Expr} {path : List Nat} {ts : List Typedef}
    (h : DerivesFields args path ts) (hargs : ∀ x ∈ args, x.IsLegible) :
    Expr.pairComb (ts.map combedType) =
      Expr.pairComb (args.map fun x => x.mergeOptions.combed) := by
  match h with
  | .nest hx hs =>
    rw [List.forall_mem_cons, List.forall_mem_singleton] at hargs
    rw [List.map_cons, Expr.pairComb_cons (by simpa using hs.two_le_length),
      hx.combedType_eq hargs.1, hs.pairComb_eq hargs.2.of_mem_args,
      ← Expr.combed_mergeOptions_pair]
    rfl
  | .last _ hx hy =>
    rw [List.forall_mem_cons, List.forall_mem_singleton] at hargs
    rw [List.map_cons, List.map_singleton, hx.combedType_eq hargs.1, hy.combedType_eq hargs.2]
    rfl
  | .next hx hs =>
    rw [List.forall_mem_cons] at hargs
    rw [List.map_cons, Expr.pairComb_cons (by simpa using hs.two_le_length),
      hx.combedType_eq hargs.1, hs.pairComb_eq hargs.2]
    rfl
end

theorem isLegible_sectionType {e : Expr} (h : e.IsLegible) : (sectionType e).IsLegible := by
  unfold sectionType
  split
  · exact h.of_mem_args _ List.mem_cons_self
  · exact h.of_mem_args _ List.mem_cons_self
  · exact h

/-- **Types with equal typedefs** are the same, annotations and the layout of combs aside, if
options directly around options are taken as one. -/
theorem combed_eq_of_equal (a b : Expr) (ha : a.IsLegible) (hb : b.IsLegible)
    (name name' : String) (t u : Typedef) (ht : derive a name = .ok t)
    (hu : derive b name' = .ok u) (h : t.equal u = true) :
    (sectionType a).mergeOptions.combed = (sectionType b).mergeOptions.combed := by
  have hleft := (derives_of_build _ _ _ _ ht).combedType_eq (isLegible_sectionType ha)
  have hright := (derives_of_build _ _ _ _ hu).combedType_eq (isLegible_sectionType hb)
  rw [← hleft, ← hright, combedType_eq_of_equal h]

/-- A comb of a list of optional amounts, of a table and of a flag, written as one pair. -/
def tableType : Expr :=
  .app (.type .pair)
    [.app (.type .list) [.app (.type .option) [.plainType .nat]] ["%amounts"],
      .app (.type .bigMap) [.plainType .address, .plainType .mutez] ["%ledger"],
      .plainType .bool]

/-- A section of the same comb, written as two pairs, in which an amount may be left out twice. -/
def nestedTableType : Expr :=
  .app (.keyword .storage)
    [.app (.type .pair)
      [.app (.type .list) [.app (.type .option) [.app (.type .option) [.plainType .nat]]],
        .app (.type .pair)
          [.app (.type .bigMap) [.plainType .address, .plainType .mutez], .plainType .bool]]]

theorem combed_eq_of_equal_table :
    tableType.IsLegible ∧ nestedTableType.IsLegible ∧ ∃ t u, derive tableType "table" = .ok t ∧
      derive nestedTableType "storage" = .ok u ∧ t.equal u = true ∧
      (sectionType tableType).mergeOptions.combed =
        (sectionType nestedTableType).mergeOptions.combed := by
  have hleft : tableType.IsLegible := by decide
  have hright : nestedTableType.IsLegible := by decide
  exact ⟨hleft, hright, _, _, rfl, rfl, rfl,
    combed_eq_of_equal _ _ hleft hright "table" "storage" _ _ rfl rfl rfl⟩

/-- **An option of an option** has the same typedef as the option, though they are two types. -/
theorem equal_of_nestedOptions :
    ∃ a b : Expr, a.IsLegible ∧ b.IsLegible ∧ a.combed ≠ b.combed ∧
      ∃ t u, derive a "value" = .ok t ∧ derive b "value" = .ok u ∧ t.equal u = true :=
  ⟨.app (.type .option) [.app (.type .option) [.plainType .nat]],
    .app (.type .option) [.plainType .nat], by decide, by decide, nofun, _, _, rfl, rfl, rfl⟩

end Typedef

end Michelson

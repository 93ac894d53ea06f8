import Michelson.Expr.Walk
import Michelson.Proofs.Marshal.Parts
import Michelson.Proofs.Marshal.Scalar
import Michelson.Proofs.Sorting.Stable
import Michelson.Proofs.Typing.Conformance

/-!
# What is built is well typed

What is built from a host value for a derived typedef is a value of the type in the strict
reading: literals of a kind that their types take, binary pairs along the comb, wrappers along
the nest of alternatives, and options that hold values of the inner type. The two typedefs of
which this is not true are left out: a lambda is any expression, and no value has the old type of
sapling transactions. An option right within an option is left out as well, since the typedef of
the two is that of one.

## Main definitions

* `Expr.IsHostType`: the types whose values are built from host values
* `Typedef.BuildsValues`: whether all that is built for a typedef is a value of a type

## Main results

* `Typedef.Derives.buildsValues`: what is built for a derived typedef
* `Typedef.hasType_of_marshal`: the same for the section that declares the type
-/

namespace Michelson

namespace Expr

/-- Whether a type is an option right around another option. -/
def isNestedOption : Expr → Bool
  | .app (.type .option) args _ _ => args.any (·.applies (.type .option))
  | _ => false

/-- Whether a type contains no lambda, no sapling transaction of the old kind, and no option right
around another option. -/
def IsHostType (e : Expr) : Prop :=
  ∀ x ∈ e.nodes, x.applies (.type .lambda) = false ∧
    x.applies (.type .saplingTransactionDeprecated) = false ∧ x.isNestedOption = false

instance (e : Expr) : Decidable e.IsHostType :=
  inferInstanceAs (Decidable (∀ x ∈ e.nodes, _))

section HostTypes

variable {p : Primitive} {args : List Expr} {annots : List String} {flag : Bool}

theorem IsHostType.head_ne (h : (app p args annots flag).IsHostType) :
    p ≠ .type .lambda ∧ p ≠ .type .saplingTransactionDeprecated := by
  obtain ⟨hlambda, hsapling, -⟩ := h _ (mem_nodes_self _)
  constructor
  · rintro rfl
    simp [applies, head?] at hlambda
  · rintro rfl
    simp [applies, head?] at hsapling

theorem IsHostType.of_mem_args (h : (app p args annots flag).IsHostType) :
    ∀ x ∈ args, x.IsHostType := by
  intro x hx y hy
  exact h y (mem_nodes_of_mem_children hx hy)

theorem IsHostType.not_option {inner : Expr}
    (h : (app (.type .option) [inner] annots flag).IsHostType) :
    inner.applies (.type .option) = false := by
  obtain ⟨-, -, hnested⟩ := h _ (mem_nodes_self _)
  simpa [isNestedOption] using hnested

end HostTypes

end Expr

namespace Typedef

variable {form : ScalarForm}

/-- Whether all that is built for a typedef, options aside, is a value of a type, whatever name
the typedef has. -/
def HoldsValues (form : ScalarForm) (e : Expr) (t : Typedef) : Prop :=
  ∀ name optional value p,
    marshalHeld form { t with name := name, optional := optional } value = .ok p →
      e.HasType .strict p

/-- Whether all that is built for a typedef is a value of a type, which is an option if the typedef
is optional. -/
def BuildsValues (form : ScalarForm) (e : Expr) (t : Typedef) : Prop :=
  (t.optional = false ∧ HoldsValues form e t) ∨
    ∃ inner annots flag, e = .app (.type .option) [inner] annots flag ∧ t.optional = true ∧
      HoldsValues form inner t

theorem BuildsValues.hasType_rename {e p : Expr} {t : Typedef} {name : String} {value : Json}
    (h : BuildsValues form e t) (hp : ({ t with name := name }).marshal form value = .ok p) :
    e.HasType .strict p := by
  rcases h with ⟨hopt, hheld⟩ | ⟨inner, annots, flag, rfl, hopt, hheld⟩
  · rcases marshal_eq_ok hp with ⟨hnone, -⟩ | ⟨x, hx, rfl⟩
    · exact absurd (hopt.symm.trans hnone) Bool.false_ne_true
    · simp only [hopt]
      exact hheld _ _ _ _ hx
  · rw [Expr.HasType]
    rcases marshal_eq_ok hp with ⟨-, rfl⟩ | ⟨x, hx, rfl⟩
    · exact .none
    · simp only [hopt, if_true]
      exact .some fun _ => hheld _ _ _ _ hx

theorem BuildsValues.hasType {e p : Expr} {t : Typedef} {value : Json}
    (h : BuildsValues form e t) (hp : t.marshal form value = .ok p) : e.HasType .strict p := by
  obtain ⟨name, kind, optional, args, path⟩ := t
  exact h.hasType_rename hp

/-! ## Combs -/

section Combs

variable {path : List Nat} {ts : List Typedef} {fields : List (List Nat × Expr)} {comb : Expr}

theorem buildsFields_map_stepOn (hts : ∀ t ∈ ts, path ++ [1] <+: t.path)
    (h : BuildsFields form path.length ts fields) :
    (∀ f ∈ fields, ∃ rest, f.1 = 1 :: rest) ∧
      BuildsFields form (path ++ [1]).length ts (fields.map Expr.stepOn) := by
  induction h with
  | nil => exact ⟨by simp, .nil⟩
  | cons hf _ ih =>
    rw [List.forall_mem_cons] at hts ⊢
    obtain ⟨hpath, hvalue⟩ := hf
    obtain ⟨hpaths, hrest⟩ := ih hts.2
    rw [drop_of_isPrefix hts.1] at hpath
    refine ⟨⟨⟨_, hpath⟩, hpaths⟩, .cons ⟨?_, hvalue⟩ hrest⟩
    rw [Expr.stepOn, hpath]
    rfl

/-- The comb of a first field and others is a pair of the value of the first field and the comb of
the others. -/
theorem assemble?_of_buildsFields {t : Typedef} (ht : t.path = path ++ [0])
    (hts : ∀ u ∈ ts, path ++ [1] <+: u.path)
    (h : BuildsFields form path.length (t :: ts) fields)
    (hcomb : Expr.assemble? fields = some comb) :
    ∃ name v x y rest, ({ t with name := name }).marshal form v = .ok x ∧
      BuildsFields form (path ++ [1]).length ts rest ∧ Expr.assemble? rest = some y ∧
      comb = .app (.data .pair) [x, y] := by
  obtain ⟨⟨step, x⟩, others, ⟨hstep, name, v, hx⟩, hothers, rfl⟩ :=
    List.forall₂_cons_left_iff.mp h
  have hfirst : step = [0] := hstep.trans (by simp [ht])
  obtain ⟨hpaths, hrest⟩ := buildsFields_map_stepOn hts hothers
  subst hfirst
  obtain ⟨y, hy, rfl⟩ := Expr.assemble?_cons hpaths hcomb
  exact ⟨name, v, x, y, _, hx, hrest, hy, rfl⟩

theorem assemble?_of_buildsFields_singleton {t : Typedef} (ht : t.path = path)
    (h : BuildsFields form path.length [t] fields) (hcomb : Expr.assemble? fields = some comb) :
    ∃ name v, ({ t with name := name }).marshal form v = .ok comb := by
  obtain ⟨⟨step, x⟩, others, ⟨hstep, name, v, hx⟩, hothers, rfl⟩ :=
    List.forall₂_cons_left_iff.mp h
  cases hothers
  have hwhole : step = [] := hstep.trans (by simp [ht])
  subst hwhole
  rw [Expr.assemble?_singleton] at hcomb
  cases hcomb
  exact ⟨name, v, hx⟩

end Combs

/-! ## Types with components -/

section Constructors

variable {c : TypeConstructor} {args : List Expr} {annots : List String} {flag : Bool}

/-- What is built for a type without components is a value of it. -/
theorem holdsValues_leaf {kind : Kind} {name : String} {path : List Nat}
    (h : leafKind? c args = some kind) (he : (Expr.app (.type c) args annots flag).IsHostType) :
    HoldsValues form (.app (.type c) args annots flag) ⟨name, kind, false, [], path⟩ := by
  intro name optional value p hp
  have hne := he.head_ne
  have hhead := head?_of_leafKind? h
  by_cases hc : c ∈ [.list, .set, .map, .bigMap]
  · cases c with
    | list | set =>
      cases args with
      | nil =>
        cases h
        cases hp
      | cons => cases h
    | map | bigMap => cases h
    | _ => simp at hc
  · rw [marshalHeld_eq_scalar hhead hc] at hp
    cases c with
    | list | set => simp at hc
    | pair | or | map | bigMap | contract | ticket => cases h
    | lambda | saplingTransactionDeprecated => simp at hne
    | option =>
      cases args with
      | nil =>
        cases scalar_option hp
        rw [Expr.HasType]
        exact .none
      | cons => cases h
    | saplingState =>
      rw [Expr.HasType]
      rcases scalar_saplingState hp with hint | rfl
      · exact .inl hint
      · exact .inr (.seq (by simp))
    | _ => simpa [Expr.HasType] using isScalarOf_of_scalar rfl hp

/-- What is built for a type with one component is a value of it. -/
theorem holdsValues_unary {x : Expr} {t : Typedef} {name component : String} {path : List Nat}
    (hc : componentName? c = some component) (hx : BuildsValues form x t) :
    HoldsValues form (.app (.type c) [x] annots flag) ⟨name, .type c, false, [t], path⟩ := by
  intro name optional value p hp
  cases c with
  | list =>
    obtain ⟨xs, hxs, h⟩ := bind_eq_ok_iff.mp hp
    cases h
    rw [Expr.HasType]
    refine .seq fun y hy => ?_
    obtain ⟨v, hv⟩ := exists_of_marshalItems hxs y hy
    exact hx.hasType hv
  | set =>
    obtain ⟨xs, hxs, h⟩ := bind_eq_ok_iff.mp hp
    obtain ⟨sorted, hsorted, rfl⟩ := sortedSequence_eq_ok_iff.mp h
    rw [Expr.HasType]
    refine .seq fun y hy => ?_
    obtain ⟨v, hv⟩ := exists_of_marshalItems hxs y ((sort?_perm hsorted).mem_iff.mp hy)
    exact hx.hasType hv
  | contract =>
    rw [marshalHeld_eq_scalar rfl (by simp)] at hp
    simpa [Expr.HasType] using isScalarOf_of_scalar rfl hp
  | ticket => cases hp
  | _ => cases hc

/-- What is built for a type with two components is a value of it. -/
theorem holdsValues_binary {x y : Expr} {t u : Typedef} {name : String}
    {components : String × String} {path : List Nat}
    (hc : componentNames? c = some components)
    (he : (Expr.app (.type c) [x, y] annots flag).IsHostType)
    (hx : BuildsValues form x t) (hy : BuildsValues form y u) :
    HoldsValues form (.app (.type c) [x, y] annots flag) ⟨name, .type c, false, [t, u], path⟩ := by
  intro name optional value p hp
  have hentries {collection : Typedef} {value : Json} {xs sorted : List Expr}
      (hxs : marshalEntries form collection value [t, u] = .ok xs)
      (hsorted : Expr.sortEntries? xs = some sorted) :
      (Expr.seq sorted).IsSequenceOf
        (Expr.IsEntryOf (x.HasType .strict) (y.HasType .strict)) := by
    refine .seq fun entry hentry => ?_
    have hmem : entry ∈ xs := (sort?_perm hsorted).mem_iff.mp hentry
    obtain ⟨v, k, v', w, hk, hw, rfl⟩ := exists_of_marshalEntries hxs entry hmem
    exact .elt (hx.hasType hk) (hy.hasType hw)
  cases c with
  | map =>
    obtain ⟨xs, hxs, h⟩ := bind_eq_ok_iff.mp hp
    obtain ⟨sorted, hsorted, rfl⟩ := sortedSequence_eq_ok_iff.mp h
    rw [Expr.HasType]
    exact hentries hxs hsorted
  | bigMap =>
    rw [Expr.HasType]
    simp only [marshalHeld] at hp
    split at hp
    · obtain ⟨n, rfl⟩ := hostInteger_eq_ok hp
      exact .inl ⟨n, [], rfl⟩
    · obtain ⟨xs, hxs, h⟩ := bind_eq_ok_iff.mp hp
      obtain ⟨sorted, hsorted, rfl⟩ := sortedSequence_eq_ok_iff.mp h
      exact .inr (hentries hxs hsorted)
  | lambda => exact absurd rfl he.head_ne.1
  | _ => cases hc

end Constructors

/-! ## Derived typedefs -/

theorem holdsValues_struct {args : List Expr} {annots : List String} {flag : Bool}
    {name : String} {path : List Nat} {ts : List Typedef}
    (h : ∀ fields comb, BuildsFields form path.length ts fields →
      Expr.assemble? fields = some comb → Expr.HasCombType .strict args comb) :
    HoldsValues form (.app (.type .pair) args annots flag)
      ⟨name, .struct, false, numberFields ts, path⟩ := by
  intro name optional value p hp
  obtain ⟨fields, hfields, hcomb⟩ := exists_of_marshalHeld_struct rfl hp
  rw [Expr.HasType]
  rw [numberFields_eq_mapIdx] at hfields
  exact h fields p
    (buildsFields_of_mapIdx exists_named_eq (buildsFields_of_marshalFields hfields)) hcomb

theorem holdsValues_union {e : Expr} {name : String} {path : List Nat} {ts : List Typedef}
    (h : ∀ t ∈ ts, ∀ v p, t.marshal form v = .ok p →
      e.HasType .strict (wrapBranch (t.path.drop path.length) p)) :
    HoldsValues form e ⟨name, .union, false, ts, path⟩ := by
  intro name optional value p hp
  obtain ⟨t, ht, inner, x, hx, rfl⟩ := exists_of_marshalHeld_union rfl hp
  exact h t ht inner x hx

mutual
/-- **All that is built for a derived typedef is a value of its type.** -/
theorem Derives.buildsValues {e : Expr} {fallback : String} {path : List Nat} {t : Typedef}
    (h : Derives e fallback path t) (he : e.IsHostType) : BuildsValues form e t := by
  match h with
  | .struct hfields =>
    exact .inl ⟨rfl, holdsValues_struct fun _ _ => hfields.hasCombType he.of_mem_args⟩
  | .union hbranches =>
    exact .inl ⟨rfl, holdsValues_union (hbranches.hasType he.of_mem_args)⟩
  | .option hinner =>
    rcases hinner.buildsValues (he.of_mem_args _ List.mem_cons_self) with
      ⟨-, hheld⟩ | ⟨inner, _, _, rfl, -⟩
    · refine .inr ⟨_, _, _, rfl, rfl, ?_⟩
      intro name optional value p hp
      rw [← hinner.path_eq] at hp
      exact hheld name optional value p hp
    · exact absurd he.not_option (by simp [Expr.applies, Expr.head?])
  | .leaf hkind => exact .inl ⟨rfl, holdsValues_leaf hkind he⟩
  | .unary hc hx =>
    exact .inl ⟨rfl, holdsValues_unary hc (hx.buildsValues (he.of_mem_args _ (by simp)))⟩
  | .binary hc hx hy =>
    exact .inl ⟨rfl, holdsValues_binary hc he (hx.buildsValues (he.of_mem_args _ (by simp)))
      (hy.buildsValues (he.of_mem_args _ (by simp)))⟩
/-- All that is assembled from the fields of a comb is a value of the comb. -/
theorem DerivesFields.hasCombType {args : List Expr} {path : List Nat} {ts : List Typedef}
    (h : DerivesFields args path ts) (hargs : ∀ x ∈ args, x.IsHostType)
    {fields : List (List Nat × Expr)} {comb : Expr}
    (hfields : BuildsFields form path.length ts fields)
    (hcomb : Expr.assemble? fields = some comb) : Expr.HasCombType .strict args comb := by
  match h with
  | .nest hx hs =>
    obtain ⟨name, v, x, y, rest, hxv, hrest, hy, rfl⟩ :=
      assemble?_of_buildsFields hx.path_eq hs.isPrefix hfields hcomb
    rw [List.forall_mem_cons, List.forall_mem_singleton] at hargs
    rw [Expr.HasCombType]
    refine ⟨x, y, .pair, (hx.buildsValues hargs.1).hasType_rename hxv, ?_⟩
    rw [Expr.HasType]
    exact hs.hasCombType hargs.2.of_mem_args hrest hy
  | .last _ hx hy =>
    obtain ⟨name, v, x, y, rest, hxv, hrest, hsingle, rfl⟩ :=
      assemble?_of_buildsFields hx.path_eq (by simp [hy.path_eq]) hfields hcomb
    obtain ⟨name', w, hyw⟩ := assemble?_of_buildsFields_singleton hy.path_eq hrest hsingle
    rw [List.forall_mem_cons, List.forall_mem_singleton] at hargs
    rw [Expr.HasCombType]
    exact ⟨x, y, .pair, (hx.buildsValues hargs.1).hasType_rename hxv,
      (hy.buildsValues hargs.2).hasType_rename hyw⟩
  | .next hx hs =>
    obtain ⟨name, v, x, y, rest, hxv, hrest, hy, rfl⟩ :=
      assemble?_of_buildsFields hx.path_eq hs.isPrefix hfields hcomb
    rw [List.forall_mem_cons] at hargs
    rw [Expr.HasCombType]
    exact ⟨x, y, .pair, (hx.buildsValues hargs.1).hasType_rename hxv,
      hs.hasCombType hargs.2 hrest hy⟩
/-- All that is built for the branches of a nest is a value of the nest. -/
theorem DerivesBranches.hasType {first : String} {args : List Expr} {path : List Nat}
    {ts : List Typedef} (h : DerivesBranches first args path ts)
    (hargs : ∀ x ∈ args, x.IsHostType) {annots : List String} {flag : Bool} :
    ∀ t ∈ ts, ∀ v p, t.marshal form v = .ok p →
      (Expr.app (.type .or) args annots flag).HasType .strict
        (wrapBranch (t.path.drop path.length) p) := by
  match h with
  | .both hl hr =>
    rw [List.forall_mem_cons, List.forall_mem_singleton] at hargs
    rw [List.forall_mem_append]
    constructor
    · intro t ht v p hp
      rw [drop_of_isPrefix (hl.isPrefix t ht), Expr.HasType]
      exact .left (hl.hasType hargs.1 t ht v p hp)
    · intro t ht v p hp
      rw [drop_of_isPrefix (hr.isPrefix t ht), Expr.HasType]
      exact .right (hr.hasType hargs.2 t ht v p hp)
/-- All that is built for one side of a nest is a value of the side. -/
theorem DerivesSide.hasType {first : String} {e : Expr} {path : List Nat} {ts : List Typedef}
    (h : DerivesSide first e path ts) (he : e.IsHostType) :
    ∀ t ∈ ts, ∀ v p, t.marshal form v = .ok p →
      e.HasType .strict (wrapBranch (t.path.drop path.length) p) := by
  match h with
  | .nest hs => exact hs.hasType he.of_mem_args
  | .one _ hx =>
    rw [List.forall_mem_singleton, hx.path_eq, List.drop_length]
    intro v p hp
    exact (hx.buildsValues he).hasType hp
end

theorem isHostType_sectionType {e : Expr} (h : e.IsHostType) : (sectionType e).IsHostType := by
  unfold sectionType
  split
  · exact h.of_mem_args _ List.mem_cons_self
  · exact h.of_mem_args _ List.mem_cons_self
  · exact h

/-- **What is built from a host value is well typed.** For a typedef that is derived from a type, or
from the section that declares it, it is a value of the type in the strict reading, and so the
typedef accepts it. -/
theorem hasType_of_marshal (type : Expr) (htype : type.IsHostType) (name : String) (t : Typedef)
    (hderive : derive type name = .ok t) (form : ScalarForm) (value : Json) (p : Expr)
    (hp : t.marshal form value = .ok p) :
    (sectionType type).HasType .strict p ∧ t.accepts p = true := by
  have hderives := derives_of_build _ _ _ _ hderive
  have hstrict := (hderives.buildsValues (isHostType_sectionType htype)).hasType hp
  exact ⟨hstrict, (hderives.accepts_iff p).mpr hstrict.checked_of_strict⟩

/-- A comb of an amount, of a note that may be left out, and of an alternative. -/
def transferType : Expr :=
  .app (.type .pair)
    [.app (.type .nat) [] ["%amount"],
      .app (.type .option) [.app (.type .string) []] ["%note"],
      .app (.type .or)
        [.app (.type .unit) [] ["%all"], .app (.type .list) [.plainType .int] ["%some"]] ["%kind"]]

/-- A host value of that comb. -/
def transferHost : Json :=
  .object [("amount", .number (.integer 5)),
    ("kind", .object [("some", .array [.number (.integer 1), .string "-2"])])]

theorem hasType_of_marshal_transfer :
    transferType.IsHostType ∧ ∃ t p, derive transferType "transfer" = .ok t ∧
      t.marshal .readable transferHost = .ok p ∧
      (sectionType transferType).HasType .strict p ∧ t.accepts p = true := by
  have htype : transferType.IsHostType := by decide
  have hbuilds : ((derive transferType "transfer").toOption.any fun t =>
      (t.marshal .readable transferHost).isOk) = true := by
    decide +kernel
  cases hderive : derive transferType "transfer" with
  | error e =>
    rw [hderive] at hbuilds
    cases hbuilds
  | ok t =>
    rw [hderive] at hbuilds
    cases hp : t.marshal .readable transferHost with
    | error e =>
      change (t.marshal .readable transferHost).isOk = true at hbuilds
      rw [hp] at hbuilds
      cases hbuilds
    | ok p =>
      exact ⟨htype, t, p, rfl, hp,
        hasType_of_marshal transferType htype "transfer" t hderive .readable transferHost p hp⟩

end Typedef

end Michelson

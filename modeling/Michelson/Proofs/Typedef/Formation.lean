import Michelson.Proofs.Typedef.Derivability

/-!
# Well-formed types

An expression is a type just if every type constructor in it has as many arguments as it takes, and
each of these is a type. Only the arguments of a sapling type may be anything. Types of which a
component is not known, like a list of nothing, are well formed, too.

## Main definitions

* `TypeConstructor.takes`: how many arguments a constructor takes
* `Expr.IsType`: well-formed types

## Main results

* `Expr.hasTypedef_iff_isType`: the types that have a typedef
* `Expr.exists_build_iff_isType`: the types for which a typedef is built
-/

namespace Michelson

namespace TypeConstructor

/-- Whether a constructor takes so many arguments. -/
def takes (c : TypeConstructor) (count : Nat) : Bool :=
  match c with
  | .pair => 2 ≤ count
  | .or | .map | .bigMap => count = 2
  | .contract | .ticket => count = 1
  | .list | .set | .option => count ≤ 1
  | .lambda => count = 0 || count = 2
  | _ => count = 0

/-- Whether the arguments of a constructor are not looked at. -/
def isSapling : TypeConstructor → Bool
  | .saplingState | .saplingTransaction | .saplingTransactionDeprecated => true
  | _ => false

end TypeConstructor

namespace Expr

open Typedef

/-- **Well-formed types**: the right number of arguments for each constructor. -/
inductive IsType : Expr → Prop
  | app {c args annots flag} : c.takes args.length = true → (∀ x ∈ args, IsType x) →
    IsType (.app (.type c) args annots flag)
  | sapling {c args annots flag} : c.isSapling = true → IsType (.app (.type c) args annots flag)

variable {e x y : Expr} {args : List Expr} {annots : List String} {flag : Bool}
variable {c : TypeConstructor}

/-- A sapling type takes no arguments that are types. -/
theorem not_isSapling_of_takes {count : Nat} (h : c.takes (count + 1) = true) :
    c.isSapling = false := by
  cases c <;> first | rfl | simp [TypeConstructor.takes] at h

/-- The arguments of a type are types, as many as its constructor takes. -/
theorem isType_app_iff (hc : c.isSapling = false) :
    (app (.type c) args annots flag).IsType ↔
      c.takes args.length = true ∧ ∀ x ∈ args, x.IsType := by
  constructor
  · intro h
    cases h with
    | app htakes hargs => exact ⟨htakes, hargs⟩
    | sapling hsapling => rw [hc] at hsapling; cases hsapling
  · rintro ⟨htakes, hargs⟩
    exact .app htakes hargs

/-- A constructor stands alone as a type just if it takes no arguments. -/
theorem isType_alone_iff : (app (.type c) [] annots flag).IsType ↔ c.takes 0 = true := by
  cases hc : c.isSapling with
  | false => simp [isType_app_iff hc]
  | true =>
    have htakes : c.takes 0 = true := by cases c <;> first | rfl | cases hc
    exact iff_of_true (.sapling hc) htakes

/-! ## Types with a typedef are well formed -/

theorem isType_of_leafKind? {kind : Kind} (h : leafKind? c args = some kind) :
    (app (.type c) args annots flag).IsType := by
  cases args with
  | nil => exact isType_alone_iff.mpr (by cases c <;> first | rfl | cases h)
  | cons x rest => exact .sapling (by cases c <;> first | rfl | cases h)

theorem isType_of_componentName? {name : String} (h : componentName? c = some name)
    (hx : x.IsType) : (app (.type c) [x] annots flag).IsType := by
  refine .app ?_ (List.forall_mem_singleton.mpr hx)
  cases c <;> first | rfl | cases h

theorem isType_pair (hc : c.takes 2 = true) (hx : x.IsType) (hy : y.IsType) :
    (app (.type c) [x, y] annots flag).IsType := by
  refine .app hc ?_
  simpa using ⟨hx, hy⟩

theorem isType_of_componentNames? {names : String × String} (h : componentNames? c = some names)
    (hx : x.IsType) (hy : y.IsType) : (app (.type c) [x, y] annots flag).IsType :=
  isType_pair (by cases c <;> first | rfl | cases h) hx hy

end Expr

namespace Typedef

open Michelson.Expr

mutual
/-- A type with a typedef is well formed. -/
theorem Derives.isType {e : Expr} {fallback : String} {path : List Nat} {t : Typedef}
    (h : Derives e fallback path t) : e.IsType := by
  match h with
  | .struct hfields => exact hfields.isType
  | .union hbranches => exact hbranches.isType
  | .option hinner => exact .app rfl (List.forall_mem_singleton.mpr hinner.isType)
  | .leaf hkind => exact isType_of_leafKind? hkind
  | .unary hc hx => exact isType_of_componentName? hc hx.isType
  | .binary hc hx hy => exact isType_of_componentNames? hc hx.isType hy.isType
/-- The pair of the types of a comb is well formed, however it is annotated. -/
theorem DerivesFields.isType {args : List Expr} {path : List Nat} {ts : List Typedef}
    (h : DerivesFields args path ts) {annots : List String} {flag : Bool} :
    (app (.type .pair) args annots flag).IsType := by
  match h with
  | .nest hx hs => exact isType_pair rfl hx.isType hs.isType
  | .last _ hx hy => exact isType_pair rfl hx.isType hy.isType
  | .next hx hs =>
    have hrest : (app (.type .pair) _ annots flag).IsType := hs.isType
    refine .app (by simp [TypeConstructor.takes]) ?_
    exact List.forall_mem_cons.mpr ⟨hx.isType, ((isType_app_iff rfl).mp hrest).2⟩
/-- The nest of two types is well formed, however it is annotated. -/
theorem DerivesBranches.isType {first : String} {args : List Expr} {path : List Nat}
    {ts : List Typedef} (h : DerivesBranches first args path ts) {annots : List String}
    {flag : Bool} : (app (.type .or) args annots flag).IsType := by
  match h with
  | .both hl hr => exact isType_pair rfl hl.isType hr.isType
theorem DerivesSide.isType {first : String} {e : Expr} {path : List Nat} {ts : List Typedef}
    (h : DerivesSide first e path ts) : e.IsType := by
  match h with
  | .nest hs => exact hs.isType
  | .one _ hx => exact hx.isType
end

end Typedef

namespace Expr

open Typedef

/-! ## Well-formed types have a typedef -/

variable {e : Expr} {args : List Expr} {annots : List String} {flag : Bool} {c : TypeConstructor}

/-- A constructor that has the arguments that it takes has a typedef if these do. -/
theorem hasTypedef_app (htakes : c.takes args.length = true)
    (hargs : ∀ x ∈ args, x.HasTypedef) : (app (.type c) args annots flag).HasTypedef := by
  match args, hargs with
  | [], _ =>
    have hleaf : ∃ kind, leafKind? c [] = some kind := by
      cases c <;> first | exact ⟨_, rfl⟩ | cases htakes
    obtain ⟨kind, hkind⟩ := hleaf
    exact hasTypedef_leaf hkind
  | [x], hargs =>
    have hx : x.HasTypedef := hargs x (.head _)
    by_cases hoption : c = .option
    · exact hoption ▸ hx.option
    · have hname : ∃ name, componentName? c = some name := by
        cases c <;> first | exact ⟨_, rfl⟩ | exact absurd rfl hoption | cases htakes
      obtain ⟨name, hname⟩ := hname
      exact .unary hname hx
  | [x, y], hargs =>
    have hx : x.HasTypedef := hargs x (.head _)
    have hy : y.HasTypedef := hargs y (by simp)
    by_cases hpair : c = .pair
    · exact hpair ▸ hasTypedef_pair (by simp) hargs
    by_cases hor : c = .or
    · exact hor ▸ hx.or hy
    · have hnames : ∃ names, componentNames? c = some names := by
        cases c <;> first
          | exact ⟨_, rfl⟩ | exact absurd rfl hpair | exact absurd rfl hor | cases htakes
      obtain ⟨names, hnames⟩ := hnames
      exact .binary hnames hx hy
  | x :: y :: z :: rest, hargs =>
    have hpair : c = .pair := by
      cases c <;> first | rfl | simp [TypeConstructor.takes] at htakes
    exact hpair ▸ hasTypedef_pair (by simp) hargs

theorem IsType.hasTypedef (h : e.IsType) : e.HasTypedef := by
  induction h with
  | app htakes _ ih => exact hasTypedef_app htakes ih
  | @sapling c args annots flag hc =>
    have hleaf : ∃ kind, leafKind? c args = some kind := by
      cases c <;> first | exact ⟨_, rfl⟩ | cases hc
    obtain ⟨kind, hkind⟩ := hleaf
    exact hasTypedef_leaf hkind

/-- **The types that have a typedef** are the well-formed ones. -/
theorem hasTypedef_iff_isType : e.HasTypedef ↔ e.IsType := by
  constructor
  · rintro ⟨fallback, path, t, ht⟩
    exact ht.isType
  · exact IsType.hasTypedef

/-- **The types for which a typedef is built** are the well-formed ones, wherever they lie. -/
theorem exists_build_iff_isType (fallback : String) (path : List Nat) :
    (∃ t, build e fallback path = .ok t) ↔ e.IsType := by
  rw [← hasTypedef_iff_isType]
  constructor
  · rintro ⟨t, ht⟩
    exact ⟨fallback, path, t, derives_of_build _ _ _ _ ht⟩
  · intro h
    obtain ⟨t, ht⟩ := h.derives fallback path
    exact ⟨t, ht.build_eq⟩

end Expr

end Michelson

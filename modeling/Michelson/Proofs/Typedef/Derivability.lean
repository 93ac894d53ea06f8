import Michelson.Proofs.Typedef.Relocation

/-!
# Types that have a typedef

Whether a type has a typedef does not depend on where it is asked for. So it is decided by the type
alone, and is put together from its arguments: the parts of a comb or of a nest that are flattened
have typedefs of their own, and are read anew where the comb or nest places them.

## Main definitions

* `Expr.HasTypedef`: whether a type has a typedef

## Main results

* `Expr.hasTypedef_pair`, `Expr.HasTypedef.or`: combs and nests
* `Expr.HasTypedef.exists_derive`: the typedef that is derived
-/

namespace Michelson

open Typedef

/-- Whether a type has a typedef, wherever it lies and whatever name it falls back on. -/
def Expr.HasTypedef (e : Expr) : Prop := ∃ fallback path t, Derives e fallback path t

namespace Expr

variable {e left right x y : Expr} {args : List Expr} {annots : List String} {flag : Bool}
variable {c : TypeConstructor}

/-- There is a typedef for every place, if there is one for any. -/
theorem HasTypedef.derives (h : e.HasTypedef) (fallback : String) (path : List Nat) :
    ∃ t, Derives e fallback path t := by
  obtain ⟨_, _, _, ht⟩ := h
  obtain ⟨u, hu, -⟩ := ht.elsewhere fallback path
  exact ⟨u, hu⟩

theorem hasTypedef_leaf {kind : Kind} (h : leafKind? c args = some kind) :
    (app (.type c) args annots flag).HasTypedef :=
  ⟨"", [], _, .leaf h⟩

theorem HasTypedef.unary {name : String} (hc : componentName? c = some name)
    (hx : x.HasTypedef) : (app (.type c) [x] annots flag).HasTypedef := by
  obtain ⟨t, ht⟩ := hx.derives name [0]
  exact ⟨"", [], _, .unary hc ht⟩

theorem HasTypedef.binary {names : String × String} (hc : componentNames? c = some names)
    (hx : x.HasTypedef) (hy : y.HasTypedef) :
    (app (.type c) [x, y] annots flag).HasTypedef := by
  obtain ⟨t, ht⟩ := hx.derives names.1 [0]
  obtain ⟨u, hu⟩ := hy.derives names.2 [1]
  exact ⟨"", [], _, .binary hc ht hu⟩

theorem HasTypedef.option (hx : x.HasTypedef) :
    (app (.type .option) [x] annots flag).HasTypedef := by
  obtain ⟨t, ht⟩ := hx.derives (nameOf annots "") []
  exact ⟨"", [], _, .option ht⟩

/-! ## Combs -/

/-- A pair that the comb goes on with has the fields that it is flattened into. -/
theorem HasTypedef.derivesFields (h : (app (.type .pair) args annots flag).HasTypedef)
    (path : List Nat) : ∃ ts, DerivesFields args path ts := by
  obtain ⟨t, ht⟩ := h.derives "" path
  cases ht with
  | struct hfields => exact ⟨_, hfields⟩
  | leaf hkind | unary hkind | binary hkind => cases hkind

/-- The comb of two types or more has a typedef if each of them has one. -/
theorem exists_derivesFields (hlength : 2 ≤ args.length) (h : ∀ x ∈ args, x.HasTypedef)
    (path : List Nat) : ∃ ts, DerivesFields args path ts := by
  induction args generalizing path with
  | nil => cases hlength
  | cons x rest ih =>
    rw [List.forall_mem_cons] at h
    obtain ⟨t, ht⟩ := h.1.derives "" (path ++ [0])
    match rest, h.2 with
    | [], _ => simp at hlength
    | [y], hrest =>
      have hy : y.HasTypedef := hrest y (.head _)
      cases hcomb : continuesComb y with
      | true =>
        obtain ⟨args, rfl⟩ := exists_of_continuesComb hcomb
        obtain ⟨ts, hts⟩ := hy.derivesFields (path ++ [1])
        exact ⟨_, .nest ht hts⟩
      | false =>
        obtain ⟨u, hu⟩ := hy.derives "" (path ++ [1])
        exact ⟨_, .last hcomb ht hu⟩
    | y :: z :: rest, hrest =>
      obtain ⟨ts, hts⟩ := ih (by simp) hrest (path ++ [1])
      exact ⟨_, .next ht hts⟩

theorem hasTypedef_pair (hlength : 2 ≤ args.length) (h : ∀ x ∈ args, x.HasTypedef) :
    (app (.type .pair) args annots flag).HasTypedef := by
  obtain ⟨ts, hts⟩ := exists_derivesFields hlength h []
  exact ⟨"", [], _, .struct hts⟩

/-! ## Nests -/

/-- A side of a nest has the branches that it is flattened into. -/
theorem HasTypedef.derivesSide (h : e.HasTypedef) (first : String) (path : List Nat) :
    ∃ ts, DerivesSide first e path ts := by
  obtain ⟨t, ht⟩ := h.derives first path
  cases hor : e.applies (.type .or) with
  | false => exact ⟨[t], .one hor ht⟩
  | true =>
    obtain ⟨args, annots, flag, rfl⟩ := applies_iff.mp hor
    cases ht with
    | union hbranches =>
      obtain ⟨us, hus, -⟩ := hbranches.elsewhere "@or_1" path
      exact ⟨us, .nest hus⟩
    | leaf hkind | unary hkind | binary hkind => cases hkind

theorem HasTypedef.or (hl : left.HasTypedef) (hr : right.HasTypedef) :
    (app (.type .or) [left, right] annots flag).HasTypedef := by
  obtain ⟨ls, hls⟩ := hl.derivesSide "@or_0" [0]
  obtain ⟨rs, hrs⟩ := hr.derivesSide "@or_1" [1]
  exact ⟨"", [], _, .union (.both hls hrs)⟩

/-! ## Derived typedefs -/

/-- No section has a typedef of its own. -/
theorem HasTypedef.sectionType_eq (h : e.HasTypedef) : sectionType e = e := by
  obtain ⟨_, _, t, ht⟩ := h
  cases ht <;> rfl

/-- **The typedef of a type** that has one. -/
theorem HasTypedef.exists_derive (h : e.HasTypedef) (name : String) :
    ∃ t, derive e name = .ok t ∧ Derives e name [] t := by
  obtain ⟨t, ht⟩ := h.derives name []
  exact ⟨t, by rw [derive, h.sectionType_eq, ht.build_eq], ht⟩

end Expr

end Michelson

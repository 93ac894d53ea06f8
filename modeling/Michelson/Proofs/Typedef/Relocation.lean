import Michelson.Proofs.Typedef.Derivation
import Michelson.Typedef.Equivalence

/-!
# Typedefs at other places

A type has a typedef at every path and with every name to fall back on, or at none: typedefs of one
type differ in their names and paths only.

## Main results

* `equal_iff`: equal typedefs part by part
* `Derives.elsewhere`: the typedef of a type at another path and under another name
-/

namespace Michelson.Typedef

/-- Equal typedefs have the same kind, and equal components. -/
theorem equal_iff {t u : Typedef} :
    t.equal u = true ↔
      t.kind = u.kind ∧ t.optional = u.optional ∧ equalAll t.args u.args = true := by
  obtain ⟨name, kind, optional, args, path⟩ := t
  obtain ⟨name', kind', optional', args', path'⟩ := u
  rw [equal, Bool.and_eq_true, Bool.and_eq_true, beq_iff_eq, beq_iff_eq, and_assoc]

theorem equalAll_cons {t u : Typedef} {ts us : List Typedef} (h : t.equal u = true)
    (hs : equalAll ts us = true) : equalAll (t :: ts) (u :: us) = true := by
  rw [equalAll, h, hs, Bool.and_self]

theorem equalAll_append {ts us ts' us' : List Typedef} (h : equalAll ts us = true)
    (h' : equalAll ts' us' = true) : equalAll (ts ++ ts') (us ++ us') = true := by
  induction ts generalizing us with
  | nil =>
    cases us with
    | nil => exact h'
    | cons u us => cases h
  | cons t ts ih =>
    cases us with
    | nil => cases h
    | cons u us =>
      rw [equalAll, Bool.and_eq_true] at h
      exact equalAll_cons h.1 (ih h.2)

/-- Names do not matter, whichever are given to the components. -/
theorem equalAll_mapIdx {f g : Nat → Typedef → Typedef}
    (hfg : ∀ i t u, equal t u = true → equal (f i t) (g i u) = true) {ts us : List Typedef}
    (h : equalAll ts us = true) : equalAll (ts.mapIdx f) (us.mapIdx g) = true := by
  induction ts generalizing us f g with
  | nil =>
    cases us with
    | nil => rfl
    | cons u us => cases h
  | cons t ts ih =>
    cases us with
    | nil => cases h
    | cons u us =>
      rw [equalAll, Bool.and_eq_true] at h
      rw [List.mapIdx_cons, List.mapIdx_cons]
      exact equalAll_cons (hfg 0 t u h.1) (ih (fun i => hfg (i + 1)) h.2)

/-- Names by position do not matter, whichever names they replace. -/
theorem equalAll_mapIdx_name (P : String → Prop) [DecidablePred P] {ts us : List Typedef}
    (h : equalAll ts us = true) :
    equalAll (ts.mapIdx fun i t => if P t.name then { t with name := toString i } else t)
      (us.mapIdx fun i t => if P t.name then { t with name := toString i } else t) = true := by
  refine equalAll_mapIdx (fun i t u htu => ?_) h
  rw [equal_iff] at htu ⊢
  split <;> split <;> exact htu

theorem equalAll_numberFields {ts us : List Typedef} (h : equalAll ts us = true) :
    equalAll (numberFields ts) (numberFields us) = true :=
  equalAll_mapIdx_name (· = "") h

mutual
/-- **The typedef of a type at another place** has other names and paths, and is equal otherwise. -/
theorem Derives.elsewhere {e : Expr} {fallback : String} {path : List Nat} {t : Typedef}
    (h : Derives e fallback path t) (fallback' : String) (path' : List Nat) :
    ∃ u, Derives e fallback' path' u ∧ t.equal u = true := by
  match h with
  | .struct hfields =>
    obtain ⟨us, hus, heq⟩ := hfields.elsewhere path'
    exact ⟨_, .struct hus, equal_iff.mpr ⟨rfl, rfl, equalAll_numberFields heq⟩⟩
  | .union hbranches =>
    obtain ⟨us, hus, heq⟩ := hbranches.elsewhere "@or_0" path'
    exact ⟨_, .union hus, equal_iff.mpr ⟨rfl, rfl, heq⟩⟩
  | .option hinner =>
    obtain ⟨u, hu, heq⟩ := hinner.elsewhere _ path'
    rw [equal_iff] at heq
    exact ⟨_, .option hu, equal_iff.mpr ⟨heq.1, rfl, heq.2.2⟩⟩
  | .leaf hkind => exact ⟨_, .leaf hkind, equal_iff.mpr ⟨rfl, rfl, rfl⟩⟩
  | .unary hc hx =>
    obtain ⟨u, hu, heq⟩ := hx.elsewhere _ (path' ++ [0])
    exact ⟨_, .unary hc hu, equal_iff.mpr ⟨rfl, rfl, equalAll_cons heq rfl⟩⟩
  | .binary hc hx hy =>
    obtain ⟨u, hu, hequ⟩ := hx.elsewhere _ (path' ++ [0])
    obtain ⟨v, hv, heqv⟩ := hy.elsewhere _ (path' ++ [1])
    exact ⟨_, .binary hc hu hv,
      equal_iff.mpr ⟨rfl, rfl, equalAll_cons hequ (equalAll_cons heqv rfl)⟩⟩
theorem DerivesFields.elsewhere {args : List Expr} {path : List Nat} {ts : List Typedef}
    (h : DerivesFields args path ts) (path' : List Nat) :
    ∃ us, DerivesFields args path' us ∧ equalAll ts us = true := by
  match h with
  | .nest hx hs =>
    obtain ⟨u, hu, heq⟩ := hx.elsewhere "" (path' ++ [0])
    obtain ⟨us, hus, heqs⟩ := hs.elsewhere (path' ++ [1])
    exact ⟨_, .nest hu hus, equalAll_cons heq heqs⟩
  | .last hcomb hx hy =>
    obtain ⟨u, hu, hequ⟩ := hx.elsewhere "" (path' ++ [0])
    obtain ⟨v, hv, heqv⟩ := hy.elsewhere "" (path' ++ [1])
    exact ⟨_, .last hcomb hu hv, equalAll_cons hequ (equalAll_cons heqv rfl)⟩
  | .next hx hs =>
    obtain ⟨u, hu, heq⟩ := hx.elsewhere "" (path' ++ [0])
    obtain ⟨us, hus, heqs⟩ := hs.elsewhere (path' ++ [1])
    exact ⟨_, .next hu hus, equalAll_cons heq heqs⟩
theorem DerivesBranches.elsewhere {first : String} {args : List Expr} {path : List Nat}
    {ts : List Typedef} (h : DerivesBranches first args path ts) (first' : String)
    (path' : List Nat) : ∃ us, DerivesBranches first' args path' us ∧ equalAll ts us = true := by
  match h with
  | .both hl hr =>
    obtain ⟨ls, hls, heql⟩ := hl.elsewhere first' (path' ++ [0])
    obtain ⟨rs, hrs, heqr⟩ := hr.elsewhere "@or_1" (path' ++ [1])
    exact ⟨_, .both hls hrs, equalAll_append heql heqr⟩
theorem DerivesSide.elsewhere {first : String} {e : Expr} {path : List Nat} {ts : List Typedef}
    (h : DerivesSide first e path ts) (first' : String) (path' : List Nat) :
    ∃ us, DerivesSide first' e path' us ∧ equalAll ts us = true := by
  match h with
  | .nest hs =>
    obtain ⟨us, hus, heq⟩ := hs.elsewhere "@or_1" path'
    exact ⟨_, .nest hus, heq⟩
  | .one hor hx =>
    obtain ⟨u, hu, heq⟩ := hx.elsewhere first' path'
    exact ⟨_, .one hor hu, equalAll_cons heq rfl⟩
end

end Michelson.Typedef

import Michelson.Expr.Walk
import Michelson.Proofs.Marshal.Clash
import Michelson.Proofs.Sorting.Stable

/-!
# Listings of collections

The items of a collection are sorted by what is written for their keys. So a collection is listed
alike in the two forms if no two of its keys are ordered differently.

## Main definitions

* `Arrangement.key?`: by which part the items of a collection are sorted
* `Arrangement.list`: the items as they are listed in a form
* `Outline.nodes`: the parts of an outline
* `Outline.Coherent`: outlines with collections whose keys may be compared

## Main results

* `Arrangement.list_perm`, `Arrangement.sort_map_write`: what is written are the items as they are
  listed
* `Arrangement.list_eq`: collections that are listed alike
* `Outline.write_mem_nodes`: what is written for a part of an outline
-/

namespace Michelson

/-! ## Listings -/

namespace Outline

/-- The key of an entry. -/
def entryKey : Outline → Outline
  | app _ (key :: _) => key
  | plain e => plain e.entryKey
  | o => o

theorem write_entryKey (form : ScalarForm) (o : Outline) :
    o.entryKey.write form = (o.write form).entryKey := by
  cases o with
  | plain e => rfl
  | datum d =>
    cases form with
    | readable => rfl
    | optimized =>
      cases d with
      | address a entrypoint => cases entrypoint <;> rfl
      | _ => rfl
  | app p args => cases args <;> simp [entryKey, Expr.entryKey]
  | seq arrangement items => simp [entryKey, Expr.entryKey]

end Outline

namespace Arrangement

open Outline (write)

/-- The part of an item by which it is put in order, if the items are sorted. -/
def key? : Arrangement → Option (Outline → Outline)
  | asGiven => none
  | byValue => some id
  | byKey => some Outline.entryKey

/-- **The items of a sequence in the order** in which they are written in a form. Those that cannot be
sorted stay as they are. -/
def list (arrangement : Arrangement) (form : ScalarForm) (items : List Outline) : List Outline :=
  match arrangement.key? with
  | none => items
  | some key =>
    (Michelson.sort? (fun x y => (key x).compare? form (key y) == some .lt) items).getD items

/-- Each item is listed once. -/
theorem list_perm (arrangement : Arrangement) (form : ScalarForm) (items : List Outline) :
    (arrangement.list form items).Perm items := by
  unfold list
  split
  · exact List.Perm.refl items
  next key hkey =>
    cases hsort : Michelson.sort? (fun x y => (key x).compare? form (key y) == some .lt) items with
    | none => exact List.Perm.refl items
    | some listed => exact sort?_perm hsort

/-- What is written for a sequence are the items as they are listed. -/
theorem sort_map_write (arrangement : Arrangement) (form : ScalarForm) (items : List Outline) :
    arrangement.sort (items.map (write form)) = (arrangement.list form items).map (write form) := by
  cases arrangement with
  | asGiven => rfl
  | byValue =>
    exact (congrArg (Option.getD · _) (map_sort? Expr.precedes (write form) items).symm).trans
      (Option.getD_map ..)
  | byKey =>
    have hkeys : (fun x y : Outline => (x.write form).entryKey.precedes (y.write form).entryKey) =
        fun x y => x.entryKey.compare? form y.entryKey == some .lt := by
      funext x y
      rw [← Outline.write_entryKey, ← Outline.write_entryKey]
      rfl
    have hsort := map_sort? (fun a b : Expr => a.entryKey.precedes b.entryKey) (write form) items
    rw [hkeys] at hsort
    exact (congrArg (Option.getD · _) hsort.symm).trans (Option.getD_map ..)

/-- **Items are listed alike** in the two forms if no two keys are ordered differently. -/
theorem list_eq {arrangement : Arrangement} {items : List Outline}
    (h : ∀ key ∈ arrangement.key?, ∀ x ∈ items, ∀ y ∈ items,
      (key x).compare? .readable (key y) = (key x).compare? .optimized (key y)) :
    arrangement.list .readable items = arrangement.list .optimized items := by
  unfold list
  split
  · rfl
  next key hkey =>
    refine congrArg (Option.getD · items) (sort?_congr fun x hx y hy => ?_)
    rw [h key hkey x hx y hy]

end Arrangement

/-! ## Collections within outlines -/

namespace Outline

mutual
/-- The parts of an outline, itself included. -/
def nodes : Outline → List Outline
  | plain e => [plain e]
  | datum d => [datum d]
  | app p args => app p args :: nodesAll args
  | seq arrangement items => seq arrangement items :: nodesAll items
/-- The parts of outlines. -/
def nodesAll : List Outline → List Outline
  | [] => []
  | o :: os => nodes o ++ nodesAll os
end

/-- Induction over outlines, with a hypothesis for every component. -/
theorem parts_induction {motive : Outline → Prop} (plain : ∀ e, motive (plain e))
    (datum : ∀ d, motive (datum d))
    (app : ∀ p args, (∀ o ∈ args, motive o) → motive (app p args))
    (seq : ∀ arrangement items, (∀ o ∈ items, motive o) → motive (seq arrangement items))
    (o : Outline) : motive o :=
  @Outline.rec motive (fun os => ∀ o ∈ os, motive o) plain datum app seq
    (fun _ h => nomatch h) (fun _ _ ho hos => List.forall_mem_cons.mpr ⟨ho, hos⟩) o

theorem mem_nodesAll {os : List Outline} {c : Outline} :
    c ∈ nodesAll os ↔ ∃ o ∈ os, c ∈ o.nodes := by
  induction os with
  | nil => simp [nodesAll]
  | cons o os ih => simp [nodesAll, ih]

/-- Whether in all collections within an outline any two keys are ordered alike in the two forms
unless they clash. -/
def Coherent (o : Outline) : Prop :=
  ∀ arrangement items, seq arrangement items ∈ o.nodes →
    ∀ key ∈ arrangement.key?, ∀ x ∈ items, ∀ y ∈ items, (key x).Alike (key y)

theorem coherent_plain (e : Expr) : Coherent (plain e) := by
  intro arrangement items hmem
  rw [nodes, List.mem_singleton] at hmem
  cases hmem

theorem coherent_datum (d : Datum) : Coherent (datum d) := by
  intro arrangement items hmem
  rw [nodes, List.mem_singleton] at hmem
  cases hmem

theorem coherent_app {args : List Outline} (p : Primitive) (h : ∀ o ∈ args, o.Coherent) :
    Coherent (app p args) := by
  intro arrangement items hmem
  rw [nodes, List.mem_cons, mem_nodesAll] at hmem
  rcases hmem with heq | ⟨o, ho, hmem⟩
  · cases heq
  · exact h o ho arrangement items hmem

theorem Coherent.wrap {o : Outline} (h : o.Coherent) (steps : List Nat) :
    (Outline.wrap steps o).Coherent := by
  induction steps with
  | nil => exact h
  | cons step steps ih => exact coherent_app _ (List.forall_mem_singleton.mpr ih)

theorem coherent_seq {arrangement : Arrangement} {items : List Outline}
    (hitems : ∀ o ∈ items, o.Coherent)
    (hkeys : ∀ key ∈ arrangement.key?, ∀ x ∈ items, ∀ y ∈ items, (key x).Alike (key y)) :
    Coherent (seq arrangement items) := by
  intro arrangement' items' hmem
  rw [nodes, List.mem_cons, mem_nodesAll] at hmem
  rcases hmem with heq | ⟨o, ho, hmem⟩
  · cases heq
    exact hkeys
  · exact hitems o ho arrangement' items' hmem

theorem coherent_of_assemble? {fields : List (List Nat × Outline)} {comb : Outline}
    (h : ∀ f ∈ fields, f.2.Coherent) (hcomb : assemble? fields = some comb) : comb.Coherent := by
  have hparts : RelatedParts (fun o _ => o.Coherent) fields fields := by
    rw [RelatedParts, List.forall₂_same]
    exact fun f hf => ⟨rfl, h f hf⟩
  have hpair (x y x' y' : Outline) (hleft : x.Coherent) (hright : x'.Coherent) :
      (app (.data .pair) [x, x']).Coherent := by
    refine coherent_app _ ?_
    rw [List.forall_mem_cons, List.forall_mem_singleton]
    exact ⟨hleft, hright⟩
  have hrel : Option.Rel (fun o _ => o.Coherent) (assemble? fields) (assemble? fields) :=
    rel_assembleWith? hpair hparts
  rw [hcomb] at hrel
  cases hrel with
  | some hcoherent => exact hcoherent

theorem coherent_of_outlineScalar {t : Typedef} {c : TypeConstructor} {value : Json} {o : Outline}
    (h : t.outlineScalar c value = .ok o) : o.Coherent := by
  rcases Typedef.outlineScalar_cases h with ⟨d, rfl, -⟩ | ⟨⟨e, rfl⟩, -⟩
  · exact coherent_datum d
  · exact coherent_plain e

/-- What is written for a part is a part of what is written for the whole. -/
theorem write_mem_nodes {o c : Outline} (form : ScalarForm) (h : c ∈ o.nodes) :
    c.write form ∈ (o.write form).nodes := by
  induction o using parts_induction with
  | plain e | datum d =>
    rw [nodes, List.mem_singleton] at h
    subst h
    exact Expr.mem_nodes_self _
  | app p args ih =>
    rw [nodes, List.mem_cons, mem_nodesAll] at h
    rcases h with rfl | ⟨o, ho, hc⟩
    · exact Expr.mem_nodes_self _
    · rw [write_app]
      exact Expr.mem_nodes_of_mem_children (List.mem_map_of_mem ho) (ih o ho hc)
  | seq arrangement items ih =>
    rw [nodes, List.mem_cons, mem_nodesAll] at h
    rcases h with rfl | ⟨o, ho, hc⟩
    · exact Expr.mem_nodes_self _
    · rw [write_seq, arrangement.sort_map_write]
      have hlisted := (arrangement.list_perm form items).mem_iff.mpr ho
      exact Expr.mem_nodes_of_mem_children (List.mem_map_of_mem hlisted) (ih o ho hc)

end Outline

end Michelson

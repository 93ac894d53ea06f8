import Mathlib.Data.List.Nodup
import Michelson.Proofs.Entrypoint.Naming
import Michelson.Proofs.Typedef.Derivability

/-!
# Addresses of entrypoints

An entrypoint is found under its name, under its id and at the end of its way, and each of them is
that of no other entrypoint. The way leads to its leaf, and the id counts the leaves further left.
The typedef of the parameter is derived without a look at the entrypoints. Its branches are the
typedefs of the same leaves in the same order, at the paths that the ways tell.

## Main definitions

* `Side.index`: the argument that a side is
* `Entrypoints.BranchesAt`: the branches that describe leaves

## Main results

* `Entrypoints.LeavesAt.branchesAt`: leaves and branches are listed in the same order
* `Entrypoints.LeavesAt.hasTypedef`: a type whose leaves have typedefs
* `Entrypoints.address_of_mem_discover`: the addresses of an entrypoint
-/

namespace Michelson

/-- The argument of an alternative that a side is. -/
def Side.index : Side → Nat
  | .left => 0
  | .right => 1

/-- What is the only one in a list with a property is found by it. -/
theorem find?_eq_some_of_unique {α : Type} {p : α → Bool} {xs : List α} {x : α} (hx : x ∈ xs)
    (hpx : p x = true) (hunique : ∀ y ∈ xs, p y = true → y = x) : xs.find? p = some x := by
  cases hfind : xs.find? p with
  | none => exact absurd hpx (List.find?_eq_none.mp hfind x hx)
  | some y => rw [hunique y (List.mem_of_find?_eq_some hfind) (List.find?_some hfind)]

namespace Entrypoints

/-! ## Lookups -/

namespace Named

variable {hasDefault : Bool} {found : List (List Side × Expr)} {count : Nat} {es : Entrypoints}
variable {e e' : Entrypoint}

theorem eq_of_name_eq (h : Named hasDefault found count es) (he : e ∈ es.entries)
    (he' : e' ∈ es.entries) (hname : e.name = e'.name) : e = e' :=
  List.inj_on_of_nodup_map h.names he he' hname

theorem eq_of_id_eq (h : Named hasDefault found count es) (he : e ∈ es.entries)
    (he' : e' ∈ es.entries) (hid : e.id = e'.id) : e = e' :=
  List.inj_on_of_nodup_map (List.nodup_range.sublist h.ids) he he' hid

/-- The ways to entrypoints are told apart by the leaves further left, which the ids count. -/
theorem eq_of_branch_eq (h : Named hasDefault found count es) {keep : Expr → Bool} {root : Expr}
    (hleaves : LeavesAt keep [] root found) (he : e ∈ es.entries) (he' : e' ∈ es.entries)
    (hbranch : e.branch = e'.branch) : e = e' := by
  obtain ⟨way, hway, -, -, hbefore⟩ := hleaves.follow?_eq_some _ _ _ (h.leaf e he)
  obtain ⟨way', hway', -, -, hbefore'⟩ := hleaves.follow?_eq_some _ _ _ (h.leaf e' he')
  have hsame : way = way' := by
    rw [List.nil_append] at hway hway'
    rw [← hway, ← hway', hbranch]
  exact h.eq_of_id_eq he he' (by rw [← hbefore, ← hbefore', hsame])

end Named

/-! ## Branches of the typedef -/

/-- The branches on one side of a nest, one for each leaf that is found there. -/
def BranchesAt (first : String) (branch : List Side) (e : Expr)
    (found : List (List Side × Expr)) : Prop :=
  ∃ ts, Typedef.DerivesSide first e (branch.map Side.index) ts ∧
    List.Forall₂ (fun x t => ∃ fallback, Typedef.Derives x.2 fallback (x.1.map Side.index) t)
      found ts

/-- The branches of both sides are those of the nest. -/
theorem exists_derivesBranches {first : String} {branch : List Side} {left right : Expr}
    {ls rs : List (List Side × Expr)} (hl : BranchesAt first (branch ++ [.left]) left ls)
    (hr : BranchesAt "@or_1" (branch ++ [.right]) right rs) :
    ∃ ts, Typedef.DerivesBranches first [left, right] (branch.map Side.index) ts ∧
      List.Forall₂ (fun x t => ∃ fallback, Typedef.Derives x.2 fallback (x.1.map Side.index) t)
        (ls ++ rs) ts := by
  obtain ⟨ts, hts, hall⟩ := hl
  obtain ⟨us, hus, hall'⟩ := hr
  rw [List.map_append] at hts hus
  exact ⟨ts ++ us, .both hts hus, List.rel_append hall hall'⟩

/-- **Leaves and branches** are the same in the same order, if every leaf has a typedef and no
alternative is kept whole. -/
theorem LeavesAt.branchesAt {keep : Expr → Bool} {branch : List Side} {e : Expr}
    {found : List (List Side × Expr)} (h : LeavesAt keep branch e found)
    (hkeep : ∀ e, keep e = false)
    (hfound : ∀ x ∈ found, x.2.HasTypedef) (first : String) : BranchesAt first branch e found := by
  induction h generalizing first with
  | @leaf branch e he =>
    have hleaf : e.HasTypedef := hfound _ (.head _)
    obtain ⟨u, hu⟩ := hleaf.derives first (branch.map Side.index)
    have hor : e.applies (.type .or) = false := by simpa [isSplit, hkeep] using he
    exact ⟨[u], .one hor hu, .cons ⟨first, hu⟩ .nil⟩
  | split _ _ _ ihl ihr =>
    rw [List.forall_mem_append] at hfound
    obtain ⟨ts, hts, hall⟩ := exists_derivesBranches (ihl hfound.1 "@or_1") (ihr hfound.2 "@or_1")
    exact ⟨ts, .nest hts, hall⟩

/-- A type has a typedef if all of its leaves have one, whatever is kept whole. -/
theorem LeavesAt.hasTypedef {keep : Expr → Bool} {branch : List Side} {e : Expr}
    {found : List (List Side × Expr)} (h : LeavesAt keep branch e found)
    (hfound : ∀ x ∈ found, x.2.HasTypedef) : e.HasTypedef := by
  induction h with
  | leaf => exact hfound _ (.head _)
  | split _ _ _ ihl ihr =>
    rw [List.forall_mem_append] at hfound
    exact (ihl hfound.1).or (ihr hfound.2)

/-- Leaves that become entrypoints have typedefs. -/
theorem hasTypedef_of_addLeaves {hasDefault : Bool} {es es' : Entrypoints} {id : Nat}
    {found : List (List Side × Expr)} (h : es.addLeaves hasDefault id found = .ok es') :
    ∀ x ∈ found, x.2.HasTypedef := by
  induction found generalizing es id with
  | nil => simp
  | cons first rest ih =>
    rw [addLeaves, bind_eq_ok_iff] at h
    obtain ⟨entry, hentry, hrest⟩ := h
    rw [List.forall_mem_cons]
    refine ⟨?_, ih hrest⟩
    rw [ofLeaf, bind_eq_ok_iff] at hentry
    obtain ⟨t, ht, -⟩ := hentry
    exact ⟨_, _, t, Typedef.derives_of_build _ _ _ _ ht⟩

/-- A parameter that has a typedef is declared in the same way for entrypoints and for typedefs. -/
theorem sectionType_eq_parameterType {parameter : Expr}
    (h : (parameterType parameter).HasTypedef) :
    Typedef.sectionType parameter = parameterType parameter := by
  unfold parameterType at h ⊢
  split at h
  · rfl
  · exact h.sectionType_eq

/-- **The typedef of a parameter** that is split is a union with a branch for every leaf. -/
theorem exists_union_of_leavesAt {parameter : Expr} {keep : Expr → Bool}
    {found : List (List Side × Expr)} (h : LeavesAt keep [] (parameterType parameter) found)
    (hkeep : ∀ e, keep e = false)
    (hfound : ∀ x ∈ found, x.2.HasTypedef)
    (hor : (parameterType parameter).applies (.type .or) = true) (name : String) :
    ∃ t, Typedef.derive parameter name = .ok t ∧ t.isUnion = true ∧
      List.Forall₂ (fun x u => ∃ fallback, Typedef.Derives x.2 fallback (x.1.map Side.index) u)
        found t.args := by
  rw [Typedef.derive, sectionType_eq_parameterType (h.hasTypedef hfound)]
  generalize parameterType parameter = root at h hor
  cases h with
  | leaf he =>
    rw [isSplit, hor, hkeep] at he
    cases he
  | @split _ left right annots flag ls rs _ hl hr =>
    rw [List.forall_mem_append] at hfound
    obtain ⟨ts, hts, hall⟩ := exists_derivesBranches (hl.branchesAt hkeep hfound.1 "@or_0")
      (hr.branchesAt hkeep hfound.2 "@or_1")
    exact ⟨_, (Typedef.Derives.union hts).build_eq, rfl, hall⟩

/-! ## Addresses -/

/-- **The addresses of an entrypoint.** It is found under its name, under its id and under the text
of its way. The way steps into alternatives that are split, and leads from the parameter to the
leaf; as many leaves as the id says are to the left of it. If the parameter is a nest of
alternatives in which nothing is kept whole, then the typedef of the parameter is a union, and its
component of that number lies at the path that the way tells and is equal to the typedef of the
leaf. -/
theorem address_of_mem_discover (parameter : Expr) (keep : List String) (es : Entrypoints)
    (h : discover parameter keep = .ok es) :
    ∀ e ∈ es.entries,
      es.get? e.name = some e ∧ es.findId? e.id = some e ∧
        es.findBranch? (branchText e.branch) = some e ∧
      follow? (keepsWhole keep) (parameterType parameter) e.branch = some e.leaf ∧
        isSplit (keepsWhole keep) e.leaf = false ∧
        leavesBefore (keepsWhole keep) (parameterType parameter) e.branch = e.id ∧
      (keep = [] → (parameterType parameter).applies (.type .or) = true →
        ∀ name, ∃ t u arg, Typedef.derive parameter name = .ok t ∧ t.isUnion = true ∧
          Typedef.build e.leaf e.name [] = .ok u ∧ t.args[e.id]? = some arg ∧
          arg.path = e.branch.map Side.index ∧ arg.equal u = true) := by
  intro e he
  obtain ⟨hasDefault, found, hleaves, hadd⟩ := addLeaves_of_discover h
  have hnamed : Named hasDefault found found.length es := named_of_addLeaves [] hadd .nil
  have hleaf := hnamed.leaf e he
  obtain ⟨way, hway, hfollow, hsplit, hbefore⟩ := hleaves.follow?_eq_some _ _ _ hleaf
  rw [List.nil_append] at hway
  rw [← hway] at hfollow hbefore
  refine ⟨?_, ?_, ?_, hfollow, hsplit, hbefore, ?_⟩
  · refine find?_eq_some_of_unique he (by simp) fun e' he' hname => ?_
    exact hnamed.eq_of_name_eq he' he (by simpa using hname)
  · refine find?_eq_some_of_unique he (by simp) fun e' he' hid => ?_
    exact hnamed.eq_of_id_eq he' he (by simpa using hid)
  · refine find?_eq_some_of_unique he (by simp) fun e' he' hbranch => ?_
    exact hnamed.eq_of_branch_eq hleaves he' he (branchText_injective (by simpa using hbranch))
  · rintro rfl hor name
    obtain ⟨t, ht, hunion, hall⟩ := exists_union_of_leavesAt hleaves (fun _ => rfl)
      (hasTypedef_of_addLeaves hadd) hor name
    obtain ⟨hbound, hfound⟩ := List.getElem?_eq_some_iff.mp hleaf
    have hbound' : e.id < t.args.length := hall.length_eq ▸ hbound
    obtain ⟨fallback, harg⟩ := (List.forall₂_iff_get.mp hall).2 e.id hbound hbound'
    simp only [List.get_eq_getElem, hfound] at harg
    obtain ⟨u, hu, hequal⟩ := harg.elsewhere e.name []
    exact ⟨t, u, _, ht, hunion, hu.build_eq, List.getElem?_eq_getElem hbound', harg.path_eq, hequal⟩

theorem address_of_mem_discover_mint :
    ∃ es, discover mintParameter [] = .ok es ∧ ∃ e ∈ es.entries,
      es.get? "mint" = some e ∧ es.findBranch? "/R/L" = some e ∧
      (parameterType mintParameter).applies (.type .or) = true ∧
      ∃ t arg, Typedef.derive mintParameter "mint" = .ok t ∧ t.args[1]? = some arg ∧
        arg.path = [1, 0] := by
  have hrun : (discover mintParameter []).toOption.map
      (·.entries.map fun e => (e.id, e.name, e.branch)) =
      some [(0, "@entrypoint_0", [.left]), (1, "mint", [.right, .left]),
        (2, "@entrypoint_2", [.right, .right, .left]),
        (3, "default", [.right, .right, .right, .left]),
        (4, "@entrypoint_4", [.right, .right, .right, .right])] := by
    decide +kernel
  obtain ⟨es, hes, hentries⟩ := map_toOption_eq_some_iff.mp hrun
  have hor : (parameterType mintParameter).applies (.type .or) = true := rfl
  have hmem : (1, "mint", [Side.right, .left]) ∈
      es.entries.map fun e => (e.id, e.name, e.branch) := by
    rw [hentries]
    exact .tail _ (.head _)
  obtain ⟨e, he, heq⟩ := List.mem_map.mp hmem
  obtain ⟨hid, hname, hbranch⟩ : e.id = 1 ∧ e.name = "mint" ∧ e.branch = [.right, .left] := by
    simpa using heq
  obtain ⟨hget, -, hfind, -, -, -, htypedef⟩ :=
    address_of_mem_discover mintParameter [] es hes e he
  obtain ⟨t, u, arg, ht, -, -, harg, hpath, -⟩ := htypedef rfl hor "mint"
  rw [hname] at hget
  rw [hbranch] at hfind hpath
  rw [hid] at harg
  exact ⟨es, hes, e, he, hget, hfind, hor, t, arg, ht, harg, hpath⟩

end Entrypoints

end Michelson

import Michelson.Proofs.Entrypoint.Leaves
import Michelson.Proofs.Typedef.Formation

/-!
# Parameters with entrypoints

The entrypoints of a parameter are found in two passes. The first splits nests of alternatives and
looks at nothing else; the second derives the typedefs of the leaves. What the first pass accepts of
the nests and the second of the leaves are together the well-formed types, so that entrypoints are
found in those parameters that have a typedef. Sections are told apart only by their keyword: a
`storage` section has a typedef, but no entrypoints.

## Main results

* `Entrypoints.exists_leaves_iff_isType`: nests with well-formed leaves
* `Entrypoints.exists_addLeaves_iff_isType`: leaves with entrypoints
* `Entrypoints.exists_discover_iff_exists_derive`: what has a typedef, and what has entrypoints
-/

namespace Michelson

open Typedef

/-- A nest of two types is well formed if both are. -/
theorem Expr.isType_or_iff {left right : Expr} {annots : List String} {flag : Bool} :
    (app (.type .or) [left, right] annots flag).IsType ↔ left.IsType ∧ right.IsType := by
  rw [isType_app_iff rfl, List.forall_mem_cons, List.forall_mem_singleton]
  exact and_iff_right rfl

namespace Entrypoints

/-- **Nests with well-formed leaves**: a type is split into well-formed types just if it is one
itself, whichever nests are kept whole. -/
theorem exists_leaves_iff_isType (keep : Expr → Bool) (branch : List Side) (e : Expr) :
    (∃ found, leaves keep branch e = .ok found ∧ ∀ leaf ∈ found.map Prod.snd, leaf.IsType) ↔
      e.IsType := by
  induction branch, e using leaves.induct keep with
  | case1 branch args annots flag hkeep =>
    unfold leaves
    rw [if_pos hkeep]
    simp
  | case2 branch annots flag left right hkeep ihl ihr =>
    rw [leaves, if_neg hkeep, Expr.isType_or_iff, ← ihl, ← ihr]
    simp only [bind_eq_ok_iff, pure_eq_ok_iff]
    constructor
    · rintro ⟨_, ⟨ls, hls, rs, hrs, rfl⟩, hall⟩
      rw [List.map_append, List.forall_mem_append] at hall
      exact ⟨⟨ls, hls, hall.1⟩, rs, hrs, hall.2⟩
    · rintro ⟨⟨ls, hls, hl⟩, rs, hrs, hr⟩
      refine ⟨_, ⟨ls, hls, rs, hrs, rfl⟩, ?_⟩
      rw [List.map_append, List.forall_mem_append]
      exact ⟨hl, hr⟩
  | case3 branch annots flag args hargs hkeep =>
    have htype : ¬(Expr.app (.type .or) args annots flag).IsType := by
      rw [Expr.isType_app_iff rfl]
      rintro ⟨htakes, -⟩
      have hlength : args.length = 2 := of_decide_eq_true htakes
      obtain ⟨left, right, rfl⟩ := List.length_eq_two.mp hlength
      exact hargs left right rfl
    rw [leaves, if_neg hkeep]
    · simpa using htype
    · exact hargs
  | case4 branch e hor =>
    rw [leaves]
    · simp
    · exact hor

/-- A leaf has an entrypoint under every name, or under none. -/
theorem exists_ofLeaf_iff_isType {id : Nat} {name : String} {branch : List Side} {leaf : Expr} :
    (∃ entry, ofLeaf id name branch leaf = .ok entry) ↔ leaf.IsType := by
  rw [← Expr.exists_build_iff_isType name []]
  simp only [ofLeaf, bind_eq_ok_iff, pure_eq_ok_iff]
  constructor
  · rintro ⟨_, t, ht, -⟩
    exact ⟨t, ht⟩
  · rintro ⟨t, ht⟩
    exact ⟨_, t, ht, rfl⟩

/-- **Leaves with entrypoints**: all of them are added just if all are well formed, whatever names
they are given. -/
theorem exists_addLeaves_iff_isType {hasDefault : Bool} {found : List (List Side × Expr)}
    (es : Entrypoints) (id : Nat) :
    (∃ es', es.addLeaves hasDefault id found = .ok es') ↔
      ∀ leaf ∈ found.map Prod.snd, leaf.IsType := by
  induction found generalizing es id with
  | nil => simp [addLeaves]
  | cons first rest ih =>
    rw [List.map_cons, List.forall_mem_cons]
    simp only [addLeaves, bind_eq_ok_iff]
    constructor
    · rintro ⟨es', entry, hentry, hrest⟩
      exact ⟨exists_ofLeaf_iff_isType.mp ⟨entry, hentry⟩, (ih _ _).mp ⟨es', hrest⟩⟩
    · rintro ⟨hfirst, hrest⟩
      obtain ⟨entry, hentry⟩ := exists_ofLeaf_iff_isType.mpr hfirst
      obtain ⟨es', hes'⟩ := (ih _ _).mpr hrest
      exact ⟨es', entry, hentry, hes'⟩

theorem exists_discover_iff_isType (parameter : Expr) (keep : List String) :
    (∃ es, discover parameter keep = .ok es) ↔ (parameterType parameter).IsType := by
  rw [← exists_leaves_iff_isType (keepsWhole keep) []]
  simp only [discover, bind_eq_ok_iff]
  constructor
  · rintro ⟨es, found, hfound, hadd⟩
    exact ⟨found, hfound, (exists_addLeaves_iff_isType _ _).mp ⟨es, hadd⟩⟩
  · rintro ⟨found, hfound, hleaves⟩
    obtain ⟨es, hes⟩ := (exists_addLeaves_iff_isType _ _).mpr hleaves
    exact ⟨es, found, hfound, hes⟩

/-- Out of a `storage` section, the same type is read as a type and as a parameter. -/
theorem parameterType_eq_sectionType {e : Expr}
    (h : ∀ type annots flag, e ≠ .app (.keyword .storage) [type] annots flag) :
    parameterType e = sectionType e := by
  unfold parameterType sectionType
  split
  · rfl
  next hparameter =>
    split
    · exact absurd rfl (hparameter _ _ _)
    · exact absurd rfl (h _ _ _)
    · rfl

/-- **What has a typedef and what has entrypoints.** An expression has a typedef just if it is a
well-formed type, or a section that declares one. It has entrypoints just if it has a typedef,
unless it is a `storage` section; which nests are kept whole does not matter. -/
theorem exists_discover_iff_exists_derive (e : Expr) (name : String) (keep : List String) :
    ((∃ t, derive e name = .ok t) ↔ (sectionType e).IsType) ∧
      ((∀ type annots flag, e ≠ .app (.keyword .storage) [type] annots flag) →
        ((∃ es, discover e keep = .ok es) ↔ ∃ t, derive e name = .ok t)) := by
  have hderive : (∃ t, derive e name = .ok t) ↔ (sectionType e).IsType :=
    Expr.exists_build_iff_isType name []
  refine ⟨hderive, fun hstorage => ?_⟩
  rw [hderive, exists_discover_iff_isType, parameterType_eq_sectionType hstorage]

/-- A parameter with a list of anything, a lambda that is not known, and a nest that is kept
whole. -/
def openParameter : Expr :=
  .app (.keyword .parameter)
    [.app (.type .or)
      [.app (.type .pair)
        [.app (.type .list) [], .app (.type .saplingState) [.string "any"],
          .app (.type .option) [.app (.type .lambda) []]],
        .app (.type .or)
          [.app (.type .map) [.plainType .nat, .plainType .int],
            .app (.type .contract) [.plainType .never]] ["%whole"]]]

theorem exists_discover_iff_exists_derive_open :
    (∀ type annots flag, openParameter ≠ .app (.keyword .storage) [type] annots flag) ∧
      (sectionType openParameter).IsType ∧ ∃ es, discover openParameter ["whole"] = .ok es := by
  have hstorage :
      ∀ type annots flag, openParameter ≠ .app (.keyword .storage) [type] annots flag := nofun
  obtain ⟨htype, hentries⟩ := exists_discover_iff_exists_derive openParameter "main" ["whole"]
  have hderive : ∃ t, derive openParameter "main" = .ok t := ⟨_, rfl⟩
  exact ⟨hstorage, htype.mp hderive, (hentries hstorage).mpr hderive⟩

/-- A storage section with a typedef has no entrypoints. -/
example :
    derive (.app (.keyword .storage) [.plainType .nat]) "main" =
        .ok ⟨"main", .type .nat, false, [], []⟩ ∧
      discover (.app (.keyword .storage) [.plainType .nat]) [] =
        .error (.notAType "`storage` with 1 arguments") :=
  ⟨rfl, rfl⟩

end Entrypoints

end Michelson

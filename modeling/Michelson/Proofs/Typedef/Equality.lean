import Michelson.Entrypoint.Interface
import Michelson.Proofs.Typedef.Placement
import Michelson.Proofs.Typedef.Relocation

/-!
# Equality of typedefs

Two typedefs are strictly equal if nothing is left that tells them apart once their paths are taken
away, and equal if nothing is left once their names are taken away as well. So both are equivalences,
and the first implies the second. Unfolding does not look at paths, and of the names only at those
that are anonymous: whatever has the same parts, anonymous in the same places, is unfolded in the
same way. Strictly equal typedefs are, and so are equal ones if their names agree that far.

## Main definitions

* `Typedef.mapNames`: a typedef with all its names replaced
* `Typedef.bare`: a typedef without names and paths
* `Typedef.AnonymousAlike`: whether corresponding parts are both anonymous or both not

## Main results

* `Typedef.strictEqual_iff`, `Typedef.equal_iff_bare_eq`: what equal typedefs have in common
* `Typedef.strictEqual_unfold`: unfolded forms of strictly equal typedefs
* `Typedef.equal_unfold_mapNames`, `Typedef.equal_unfold`: unfolded forms of equal typedefs
* `Typedef.equality_laws`: the laws of both equalities, and of the interfaces that they decide
-/

namespace Michelson

namespace Typedef

variable {t u : Typedef} {ts us : List Typedef} {f : String → String}

/-! ## Paths taken away -/

mutual
theorem withoutPaths_eq_of_strictEqual {t u : Typedef} (h : t.strictEqual u = true) :
    t.withoutPaths = u.withoutPaths := by
  match t, u with
  | ⟨name, kind, optional, args, path⟩, ⟨name', kind', optional', args', path'⟩ =>
    simp only [strictEqual, Bool.and_eq_true, beq_iff_eq] at h
    obtain ⟨⟨⟨rfl, rfl⟩, rfl⟩, hargs⟩ := h
    rw [withoutPaths, withoutPaths, withoutPathsAll_eq_of_strictEqualAll hargs]
theorem withoutPathsAll_eq_of_strictEqualAll {ts us : List Typedef}
    (h : strictEqualAll ts us = true) : withoutPathsAll ts = withoutPathsAll us := by
  match ts, us with
  | [], [] => rfl
  | t :: ts, u :: us =>
    rw [strictEqualAll, Bool.and_eq_true] at h
    rw [withoutPathsAll, withoutPathsAll, withoutPaths_eq_of_strictEqual h.1,
      withoutPathsAll_eq_of_strictEqualAll h.2]
end

/-- **Strictly equal typedefs** differ in their paths only. -/
theorem strictEqual_iff : t.strictEqual u = true ↔ t.withoutPaths = u.withoutPaths :=
  ⟨withoutPaths_eq_of_strictEqual, strictEqual_of_withoutPaths_eq⟩

theorem strictEqual_equivalence : Equivalence fun t u : Typedef => t.strictEqual u = true := by
  simp only [strictEqual_iff]
  exact ⟨fun _ => rfl, Eq.symm, Eq.trans⟩

/-- Paths are not looked at while a typedef is unfolded. -/
theorem normalize_withoutPaths (t : Typedef) : t.withoutPaths.normalize = t.normalize := by
  induction t using args_induction with
  | node t ih =>
    obtain ⟨name, kind, optional, args, path⟩ := t
    have hargs : (args.map withoutPaths).map normalize = args.map normalize := by
      rw [List.map_map]
      exact List.map_congr_left ih
    rw [withoutPaths, withoutPathsAll_eq_map, normalize_mk, normalize_mk, hargs]

/-- **Strictly equal typedefs** have strictly equal unfolded forms. -/
theorem strictEqual_unfold (h : t.strictEqual u = true) :
    t.unfold.strictEqual u.unfold = true := by
  refine strictEqual_of_normalize_eq ?_
  rw [← normalize_withoutPaths t, ← normalize_withoutPaths u, strictEqual_iff.mp h]

/-! ## Names replaced -/

mutual
/-- **The typedef with all its names replaced.** -/
def mapNames (f : String → String) : Typedef → Typedef
  | ⟨name, kind, optional, args, path⟩ => ⟨f name, kind, optional, mapNamesAll f args, path⟩
/-- The typedefs with all their names replaced. -/
def mapNamesAll (f : String → String) : List Typedef → List Typedef
  | [] => []
  | t :: ts => mapNames f t :: mapNamesAll f ts
end

@[simp] theorem mapNamesAll_eq_map (ts : List Typedef) :
    mapNamesAll f ts = ts.map (mapNames f) := by
  induction ts with
  | nil => rfl
  | cons t ts ih => rw [mapNamesAll, ih, List.map_cons]

theorem withoutPaths_mapNames (f : String → String) (t : Typedef) :
    (t.mapNames f).withoutPaths = t.withoutPaths.mapNames f := by
  induction t using args_induction with
  | node t ih =>
    obtain ⟨name, kind, optional, args, path⟩ := t
    simpa [mapNames, withoutPaths] using ih

theorem strictEqual_mapNames (f : String → String) (h : t.strictEqual u = true) :
    (t.mapNames f).strictEqual (u.mapNames f) = true := by
  rw [strictEqual_iff] at h ⊢
  rw [withoutPaths_mapNames, withoutPaths_mapNames, h]

mutual
/-- Equal typedefs are strictly equal if there is but one name. -/
theorem equal_eq_strictEqual_mapNames (name : String) (t u : Typedef) :
    t.equal u = (t.mapNames fun _ => name).strictEqual (u.mapNames fun _ => name) := by
  match t, u with
  | ⟨_, kind, optional, args, _⟩, ⟨_, kind', optional', args', _⟩ =>
    rw [equal, mapNames, mapNames, strictEqual, beq_self_eq_true, Bool.true_and,
      equalAll_eq_strictEqualAll_mapNames name args args']
theorem equalAll_eq_strictEqualAll_mapNames (name : String) (ts us : List Typedef) :
    equalAll ts us =
      strictEqualAll (mapNamesAll (fun _ => name) ts) (mapNamesAll (fun _ => name) us) := by
  match ts, us with
  | [], [] | [], _ :: _ | _ :: _, [] => rfl
  | t :: ts, u :: us =>
    rw [equalAll, mapNamesAll, mapNamesAll, strictEqualAll,
      equal_eq_strictEqual_mapNames name t u, equalAll_eq_strictEqualAll_mapNames name ts us]
end

/-- **The typedef without names and paths.** -/
def bare (t : Typedef) : Typedef := (t.mapNames fun _ => "").withoutPaths

/-- **Equal typedefs** differ in their names and paths only. -/
theorem equal_iff_bare_eq : t.equal u = true ↔ t.bare = u.bare := by
  rw [equal_eq_strictEqual_mapNames "", strictEqual_iff]
  rfl

theorem equal_equivalence : Equivalence fun t u : Typedef => t.equal u = true := by
  simp only [equal_iff_bare_eq]
  exact ⟨fun _ => rfl, Eq.symm, Eq.trans⟩

theorem equal_of_strictEqual (h : t.strictEqual u = true) : t.equal u = true := by
  rw [equal_eq_strictEqual_mapNames ""]
  exact strictEqual_mapNames _ h

/-! ## Names that are told apart while a typedef is unfolded -/

theorem equalAll_iff_forall₂ :
    equalAll ts us = true ↔ List.Forall₂ (fun t u => t.equal u = true) ts us := by
  induction ts generalizing us with
  | nil => cases us <;> simp [equalAll]
  | cons t ts ih => cases us <;> simp [equalAll, ih]

theorem equalAll_renumber (h : equalAll ts us = true) :
    equalAll (renumber ts) (renumber us) = true :=
  equalAll_mapIdx_name (isPositionalName · = true) h

/-- Equal fields of which the same are groups hold the same. -/
theorem equalAll_inlineGroups
    (h : List.Forall₂ (fun t u => t.equal u = true ∧ t.isGroup = u.isGroup) ts us) :
    equalAll (inlineGroups ts) (inlineGroups us) = true := by
  induction h with
  | nil => rfl
  | cons htu _ ih =>
    obtain ⟨hequal, hgroup⟩ := htu
    rw [inlineGroups_cons, inlineGroups_cons, ← hgroup]
    refine equalAll_append ?_ ih
    split
    · exact (equal_iff.mp hequal).2.2
    · exact equalAll_cons hequal rfl

/-- **Names replaced by others** make no difference to the unfolded form but for these names, as long
as the same are anonymous. -/
theorem equal_unfold_mapNames (hf : ∀ name, isAnonymousName (f name) = isAnonymousName name)
    (t : Typedef) : (t.mapNames f).unfold.equal t.unfold = true := by
  induction t using args_induction with
  | node t ih =>
    obtain ⟨name, kind, optional, args, path⟩ := t
    have hparts : List.Forall₂ (fun t u => t.equal u = true ∧ t.isGroup = u.isGroup)
        ((args.map (mapNames f)).map unfold) (args.map unfold) := by
      rw [List.map_map, List.forall₂_map_left_iff, List.forall₂_map_right_iff, List.forall₂_same]
      intro arg harg
      refine ⟨ih arg harg, ?_⟩
      obtain ⟨name, kind, optional, args, path⟩ := arg
      simp [isGroup, isStruct, isAnonymous, mapNames, hf]
    rw [mapNames, mapNamesAll_eq_map]
    by_cases hkind : kind = .struct
    · subst hkind
      rw [unfold_struct, unfold_struct, equal_iff]
      exact ⟨rfl, rfl, equalAll_renumber (equalAll_inlineGroups hparts)⟩
    · rw [unfold_of_ne hkind, unfold_of_ne hkind, equal_iff]
      exact ⟨rfl, rfl, equalAll_iff_forall₂.mpr (hparts.imp fun _ _ h => h.1)⟩

/-! ## Typedefs that are anonymous alike -/

/-- **Whether corresponding parts are both anonymous or both not.** Equal typedefs have as many parts,
and those correspond that have the same number. -/
def AnonymousAlike (t u : Typedef) : Prop :=
  t.nodes.map (·.isAnonymous) = u.nodes.map (·.isAnonymous)

instance (t u : Typedef) : Decidable (t.AnonymousAlike u) :=
  inferInstanceAs (Decidable (_ = _))

mutual
theorem length_nodes_eq {t u : Typedef} (h : t.equal u = true) :
    t.nodes.length = u.nodes.length := by
  match t, u with
  | ⟨_, kind, optional, args, _⟩, ⟨_, kind', optional', args', _⟩ =>
    simp only [equal, Bool.and_eq_true] at h
    rw [nodes, nodes, List.length_cons, List.length_cons, length_nodesAll_eq h.2]
theorem length_nodesAll_eq {ts us : List Typedef} (h : equalAll ts us = true) :
    (nodesAll ts).length = (nodesAll us).length := by
  match ts, us with
  | [], [] => rfl
  | t :: ts, u :: us =>
    rw [equalAll, Bool.and_eq_true] at h
    rw [nodesAll, nodesAll, List.length_append, List.length_append, length_nodes_eq h.1,
      length_nodesAll_eq h.2]
end

/-- One name in place of all that are anonymous, and one in place of all others. -/
def maskName (name : String) : String := if isAnonymousName name then "" else "name"

theorem isAnonymousName_maskName (name : String) :
    isAnonymousName (maskName name) = isAnonymousName name := by
  unfold maskName
  cases h : isAnonymousName name <;> decide

mutual
/-- Equal typedefs that are anonymous alike are strictly equal if there are but two names. -/
theorem strictEqual_mapNames_maskName {t u : Typedef} (h : t.equal u = true)
    (halike : t.nodes.map (·.isAnonymous) = u.nodes.map (·.isAnonymous)) :
    (t.mapNames maskName).strictEqual (u.mapNames maskName) = true := by
  match t, u with
  | ⟨name, kind, optional, args, _⟩, ⟨name', kind', optional', args', _⟩ =>
    simp only [equal, Bool.and_eq_true, beq_iff_eq] at h
    obtain ⟨⟨rfl, rfl⟩, hargs⟩ := h
    rw [nodes, nodes, List.map_cons, List.map_cons, List.cons.injEq] at halike
    have hname : maskName name = maskName name' := by
      rw [maskName, maskName, show isAnonymousName name = isAnonymousName name' from halike.1]
    rw [mapNames, mapNames, hname, strictEqual,
      strictEqualAll_mapNamesAll_maskName hargs halike.2]
    simp
theorem strictEqualAll_mapNamesAll_maskName {ts us : List Typedef} (h : equalAll ts us = true)
    (halike : (nodesAll ts).map (·.isAnonymous) = (nodesAll us).map (·.isAnonymous)) :
    strictEqualAll (mapNamesAll maskName ts) (mapNamesAll maskName us) = true := by
  match ts, us with
  | [], [] => rfl
  | t :: ts, u :: us =>
    rw [equalAll, Bool.and_eq_true] at h
    rw [nodesAll, nodesAll, List.map_append, List.map_append] at halike
    obtain ⟨ht, hts⟩ := List.append_inj halike (by simpa using length_nodes_eq h.1)
    rw [mapNamesAll, mapNamesAll, strictEqualAll, strictEqual_mapNames_maskName h.1 ht,
      strictEqualAll_mapNamesAll_maskName h.2 hts, Bool.and_self]
end

/-- **Equal typedefs** have equal unfolded forms if they are anonymous alike. -/
theorem equal_unfold (h : t.equal u = true) (halike : t.AnonymousAlike u) :
    t.unfold.equal u.unfold = true := by
  have hmasked : (t.mapNames maskName).unfold.equal (u.mapNames maskName).unfold = true :=
    equal_of_strictEqual (strictEqual_unfold (strictEqual_mapNames_maskName h halike))
  have hleft := equal_equivalence.symm (equal_unfold_mapNames isAnonymousName_maskName t)
  have hright := equal_unfold_mapNames isAnonymousName_maskName u
  exact equal_equivalence.trans (equal_equivalence.trans hleft hmasked) hright

end Typedef

/-! ## Interfaces -/

/-- What is accepted with its names is accepted without. -/
theorem EntrypointSpec.accepts_of_strict {spec : EntrypointSpec} {entry : Entrypoint}
    (h : spec.accepts entry true = true) : spec.accepts entry false = true := by
  unfold accepts at h ⊢
  cases hspec : spec.typedef with
  | error err => simp [hspec] at h
  | ok expected =>
    simp only [hspec, if_true] at h
    exact Typedef.equal_of_strictEqual h

theorem Interface.matchedBy_of_strict {interface : Interface} {es : Entrypoints}
    (h : interface.matchedBy es true = true) : interface.matchedBy es false = true := by
  rw [matchedBy, List.all_eq_true] at h ⊢
  intro spec hspec
  have hentry := h spec hspec
  split at hentry
  next entry hget => exact EntrypointSpec.accepts_of_strict hentry
  next => cases hentry

namespace Typedef

/-- **The laws of equality.** Equality and strict equality are equivalences. Strictly equal typedefs
are equal, and so are strictly their unfolded forms. Equal typedefs have equal unfolded forms if they
are anonymous alike. So an interface that is matched strictly is matched. -/
theorem equality_laws :
    (Equivalence fun t u : Typedef => t.equal u = true) ∧
      (Equivalence fun t u : Typedef => t.strictEqual u = true) ∧
      (∀ t u : Typedef, t.strictEqual u = true →
        t.equal u = true ∧ t.unfold.strictEqual u.unfold = true) ∧
      (∀ t u : Typedef, t.equal u = true → t.AnonymousAlike u →
        t.unfold.equal u.unfold = true) ∧
      ∀ (interface : Interface) (es : Entrypoints),
        interface.matchedBy es true = true → interface.matchedBy es false = true :=
  ⟨equal_equivalence, strictEqual_equivalence,
    fun _ _ h => ⟨equal_of_strictEqual h, strictEqual_unfold h⟩, fun _ _ => equal_unfold,
    fun _ _ => Interface.matchedBy_of_strict⟩

/-- A struct with a field that is a struct of two under the given name. -/
def nestedUnder (name field : String) : Typedef :=
  ⟨"root", .struct, false,
    [⟨name, .struct, false,
        [⟨field, .type .nat, false, [], [0, 0]⟩, ⟨"1", .type .int, false, [], [0, 1]⟩], [0]⟩,
      ⟨"flag", .type .bool, false, [], [1]⟩], []⟩

theorem equality_laws_nestedUnder :
    (nestedUnder "0" "7").equal (nestedUnder "@pair" "") = true ∧
      (nestedUnder "0" "7").AnonymousAlike (nestedUnder "@pair" "") ∧
      (nestedUnder "0" "7").unfold.equal (nestedUnder "@pair" "").unfold = true := by
  have hequal : (nestedUnder "0" "7").equal (nestedUnder "@pair" "") = true := by decide
  have halike : (nestedUnder "0" "7").AnonymousAlike (nestedUnder "@pair" "") := by decide
  obtain ⟨-, -, -, hunfold, -⟩ := equality_laws
  exact ⟨hequal, halike, hunfold _ _ hequal halike⟩

/-- Equal typedefs that are not anonymous alike need not have equal unfolded forms. -/
example :
    (nestedUnder "0" "7").equal (nestedUnder "point" "7") = true ∧
      (nestedUnder "0" "7").unfold.equal (nestedUnder "point" "7").unfold = false := by
  decide

end Typedef

end Michelson

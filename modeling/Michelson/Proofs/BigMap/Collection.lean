import Michelson.BigMap.Detection
import Michelson.Proofs.Typing.Acceptance

/-!
# Big maps in a value

The big maps that are found in a value are added one by one to those found before. Which they are,
and in which order, does not depend on those found before; only the name under which one is added
does.

## Main definitions

* `Typedef.heldMaps`: the big maps in a value with their names in the typedef, from left to right
* `BigMap.addMap`: one more big map is found
* `Typedef.heldIds`: the ids of the big maps in a value

## Main results

* `BigMap.ids_of_foldlM_addMap`: no id is lost by adding
* `Typedef.bigMaps_eq_foldlM`: the big maps of a value are added in their order
* `Typedef.heldIds_struct`, `Typedef.heldIds_union`, `Typedef.heldIds_some`: one statement for each
  kind of typedef
-/

namespace Michelson

namespace BigMap

/-- Adds a big map to those found before, under a name that is free. Its id has to fit. -/
def addMap (found : Found) (map : String × Int) : Except Error Found := do
  let id ← checkId map.2
  return found ++ [(freshName found map.1, id)]

theorem addMap_eq_ok_iff {found after : Found} {map : String × Int} :
    addMap found map = .ok after ↔
      fitsId map.2 = true ∧ after = found ++ [(freshName found map.1, map.2)] := by
  unfold addMap checkId
  by_cases hfits : fitsId map.2 = true
  · rw [if_pos hfits]
    constructor
    · intro h
      cases h
      exact ⟨hfits, rfl⟩
    · rintro ⟨-, rfl⟩
      rfl
  · rw [if_neg hfits]
    constructor
    · intro h
      cases h
    · rintro ⟨h, -⟩
      exact absurd h hfits

/-- **No id is lost by adding**, and none is added but those of the given maps. -/
theorem ids_of_foldlM_addMap {maps : List (String × Int)} {found after : Found}
    (h : maps.foldlM addMap found = .ok after) :
    after.map (·.2) = found.map (·.2) ++ maps.map (·.2) := by
  induction maps generalizing found with
  | nil =>
    cases h
    simp
  | cons map maps ih =>
    rw [List.foldlM_cons, bind_eq_ok_iff] at h
    obtain ⟨next, hnext, hrest⟩ := h
    obtain ⟨-, rfl⟩ := addMap_eq_ok_iff.mp hnext
    rw [ih hrest]
    simp

end BigMap

namespace Typedef

open BigMap

mutual
/-- **The big maps in a value**, each with its name in the typedef, from left to right. -/
def heldMaps : Typedef → Expr → List (String × Int)
  | ⟨name, kind, optional, args, path⟩, value =>
    match payload? optional value with
    | none => []
    | some value => match kind with
      | .struct => heldInFields path.length args value
      | .union =>
        match value.unwrap? fun steps => args.any (·.path.drop path.length == steps) with
        | some (steps, payload) => heldInBranch path.length steps args payload
        | none => []
      | .type .bigMap => match value with
        | .int id _ => [(name, id)]
        | _ => []
      | _ => []
/-- The big maps in the fields of a struct whose own path has the given length. -/
def heldInFields (depth : Nat) : List Typedef → Expr → List (String × Int)
  | [], _ => []
  | t :: ts, value =>
    (match value.combField? (t.path.drop depth) with
      | some field => heldMaps t field
      | none => []) ++ heldInFields depth ts value
/-- The big maps in a payload of the first branch at the given steps, in a union whose own path
has the given length. -/
def heldInBranch (depth : Nat) (steps : List Nat) : List Typedef → Expr → List (String × Int)
  | [], _ => []
  | t :: ts, payload =>
    if t.path.drop depth == steps then heldMaps t payload else heldInBranch depth steps ts payload
end

mutual
/-- **The big maps of a value are added in their order** to those found before. -/
theorem bigMaps_eq_foldlM (t : Typedef) (value : Expr) (found : Found) :
    t.bigMaps value found = (t.heldMaps value).foldlM addMap found := by
  match t with
  | ⟨name, kind, optional, args, path⟩ =>
    rw [bigMaps, heldMaps]
    cases payload? optional value with
    | none => rfl
    | some value =>
      cases kind with
      | struct => exact fieldBigMaps_eq_foldlM path.length args value found
      | union =>
        cases hfound : value.unwrap? fun steps => args.any (·.path.drop path.length == steps) with
        | none => simp only [hfound]; rfl
        | some payload =>
          simp only [hfound]
          exact branchBigMaps_eq_foldlM path.length payload.1 args payload.2 found
      | sapling => rfl
      | type c =>
        by_cases hc : c = .bigMap
        · subst hc
          cases value with
          | int id annots =>
            simp only [List.foldlM_cons, List.foldlM_nil, bind_pure]
            rfl
          | string | bytes | seq | app => rfl
        · cases c <;> first | rfl | exact absurd rfl hc
theorem fieldBigMaps_eq_foldlM (depth : Nat) (ts : List Typedef) (value : Expr) (found : Found) :
    fieldBigMaps depth ts value found = (heldInFields depth ts value).foldlM addMap found := by
  match ts with
  | [] => rfl
  | t :: ts =>
    rw [fieldBigMaps, heldInFields, List.foldlM_append]
    cases hfield : value.combField? (t.path.drop depth) with
    | none => exact fieldBigMaps_eq_foldlM depth ts value found
    | some field =>
      simp only [bigMaps_eq_foldlM t field found]
      exact bind_congr fun next => fieldBigMaps_eq_foldlM depth ts value next
theorem branchBigMaps_eq_foldlM (depth : Nat) (steps : List Nat) (ts : List Typedef)
    (payload : Expr) (found : Found) :
    branchBigMaps depth steps ts payload found =
      (heldInBranch depth steps ts payload).foldlM addMap found := by
  match ts with
  | [] => rfl
  | t :: ts =>
    rw [branchBigMaps, heldInBranch]
    split
    · exact bigMaps_eq_foldlM t payload found
    · exact branchBigMaps_eq_foldlM depth steps ts payload found
end

/-! ## Ids -/

/-- The ids of the big maps in a value. -/
def heldIds (t : Typedef) (v : Expr) : List Int := (t.heldMaps v).map (·.2)

/-- The ids in the fields of a comb, when the struct that they belong to has a path of the given
length. -/
def idsInFields (depth : Nat) (ts : List Typedef) (v : Expr) : List Int :=
  ts.flatMap fun t => (v.combField? (t.path.drop depth)).elim [] t.heldIds

/-- The ids in a payload that was found behind steps to a branch. -/
def idsBehind (depth : Nat) (ts : List Typedef) (found : Option (List Nat × Expr)) : List Int :=
  found.elim [] fun (steps, x) => (branchAt? depth ts steps).elim [] (·.heldIds x)

theorem map_heldInFields (depth : Nat) (ts : List Typedef) (v : Expr) :
    (heldInFields depth ts v).map (·.2) = idsInFields depth ts v := by
  induction ts with
  | nil => rfl
  | cons t ts ih =>
    rw [heldInFields, List.map_append, ih, idsInFields, idsInFields, List.flatMap_cons]
    cases v.combField? (t.path.drop depth) with
    | none => rfl
    | some x => rfl

theorem map_heldInBranch (depth : Nat) (steps : List Nat) (ts : List Typedef) (x : Expr) :
    (heldInBranch depth steps ts x).map (·.2) =
      (branchAt? depth ts steps).elim [] (·.heldIds x) := by
  induction ts with
  | nil => rfl
  | cons t ts ih =>
    rw [heldInBranch, branchAt?, List.find?_cons]
    cases t.path.drop depth == steps with
    | true => rfl
    | false => exact ih

section Kinds

variable {name name' : String} {kind : Kind} {optional : Bool} {args : List Typedef}
variable {path : List Nat}

theorem heldIds_struct (v : Expr) :
    heldIds ⟨name, .struct, false, args, path⟩ v = idsInFields path.length args v := by
  rw [heldIds, heldMaps]
  exact map_heldInFields path.length args v

theorem heldIds_union (v : Expr) :
    heldIds ⟨name, .union, false, args, path⟩ v =
      idsBehind path.length args (v.unwrap? (isBranch path.length args)) := by
  have hbranch : isBranch path.length args =
      fun steps => args.any (·.path.drop path.length == steps) :=
    funext fun _ => List.isSome_find?
  rw [hbranch, heldIds, heldMaps]
  simp only [payload?, Bool.false_eq_true, if_false]
  cases v.unwrap? fun steps => args.any (·.path.drop path.length == steps) with
  | none => rfl
  | some found => exact map_heldInBranch path.length found.1 args found.2

theorem heldIds_int (n : Int) (annots : List String) :
    heldIds ⟨name, .type .bigMap, false, args, path⟩ (.int n annots) = [n] := rfl

/-- Nothing but an integer stands for a big map. -/
theorem heldIds_bigMap {v : Expr} (hv : ∀ n annots, v ≠ .int n annots) :
    heldIds ⟨name, .type .bigMap, false, args, path⟩ v = [] := by
  cases v with
  | int n annots => exact absurd rfl (hv n annots)
  | string | bytes | seq | app => rfl

/-- Values of other kinds are not looked into. -/
theorem heldIds_of_ne (hstruct : kind ≠ .struct) (hunion : kind ≠ .union)
    (hmap : kind ≠ .type .bigMap) (v : Expr) :
    heldIds ⟨name, kind, optional, args, path⟩ v = [] := by
  rw [heldIds, heldMaps]
  cases payload? optional v with
  | none => rfl
  | some x =>
    cases kind with
    | struct => exact absurd rfl hstruct
    | union => exact absurd rfl hunion
    | sapling => rfl
    | type c => cases c <;> first | rfl | exact absurd rfl hmap

/-- Names do not matter for the ids. -/
theorem heldIds_rename (t : Typedef) (n : String) (v : Expr) :
    ({ t with name := n } : Typedef).heldIds v = t.heldIds v := by
  obtain ⟨name, kind, optional, args, path⟩ := t
  rw [heldIds, heldIds, heldMaps, heldMaps]
  cases payload? optional v with
  | none => rfl
  | some x =>
    cases kind with
    | struct | union | sapling => rfl
    | type c =>
      by_cases hc : c = .bigMap
      · subst hc
        cases x <;> rfl
      · cases c <;> first | rfl | exact absurd rfl hc

/-- What an option wraps is looked into once. -/
theorem heldIds_some (x : Expr) (annots : List String) (flag : Bool) :
    heldIds ⟨name, kind, true, args, path⟩ (.app (.data .some) [x] annots flag) =
      heldIds ⟨name, kind, false, args, path⟩ x := by
  rw [heldIds, heldIds, heldMaps, heldMaps]
  rfl

theorem heldIds_none (annots : List String) (flag : Bool) :
    heldIds ⟨name, kind, true, args, path⟩ (.app (.data .none) [] annots flag) = [] := by
  rw [heldIds, heldMaps]
  rfl

end Kinds

end Typedef

end Michelson

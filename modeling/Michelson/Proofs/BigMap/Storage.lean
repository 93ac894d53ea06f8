import Michelson.Proofs.BigMap.Collection
import Michelson.Proofs.Typing.Conformance

/-!
# The big maps of a storage

Which big maps a storage holds is told by its type, by recursion on the type itself: the components
of a pair, what an option wraps, the side of an alternative that is taken, and an integer for a big
map. They are looked for along the typedef, in which the pairs of a comb, the alternatives of a nest
and the options around a type are merged. The merged combs and nests hold the same maps. But an
option that lies directly in an option is not unwrapped, and the maps that it holds are not found.

## Main definitions

* `Reading.typed`: the values whose options hold values of their types
* `LocatedMap`, `Expr.mapsIn`: the big maps in a value, by recursion on its type
* `LocatedMap.reachedIds`: the ids of those that no option in an option holds

## Main results

* `Typedef.Derives.heldIds_eq`: what is found along the typedef of a type
* `BigMap.ids_of_detect`: the ids that are found in a storage
-/

namespace Michelson

/-- The reading of the check, with values of their types in options. -/
def Reading.typed : Reading := ⟨True, True, True⟩

/-- **A big map in a value of a type.** -/
structure LocatedMap where
  id : Int
  /-- Whether the map lies in an option that lies directly in an option. -/
  buried : Bool
  deriving DecidableEq

namespace LocatedMap

/-- The same big map in an option in an option. -/
def bury (map : LocatedMap) : LocatedMap := { map with buried := true }

/-- The ids of the big maps that are not buried. -/
def reachedIds (maps : List LocatedMap) : List Int := (maps.filter (!·.buried)).map (·.id)

theorem reachedIds_append (maps more : List LocatedMap) :
    reachedIds (maps ++ more) = reachedIds maps ++ reachedIds more := by
  simp [reachedIds]

theorem reachedIds_map_bury (maps : List LocatedMap) : reachedIds (maps.map bury) = [] := by
  simp [reachedIds, bury]

/-- All ids are reached just if no map is buried. -/
theorem reachedIds_perm_iff (maps : List LocatedMap) :
    (reachedIds maps).Perm (maps.map (·.id)) ↔ ∀ map ∈ maps, map.buried = false := by
  constructor
  · intro h
    have hlength := h.length_eq
    rw [reachedIds, List.length_map, List.length_map, List.length_filter_eq_length_iff] at hlength
    simpa using hlength
  · intro h
    rw [reachedIds, List.filter_eq_self.mpr (by simpa using h)]

end LocatedMap

namespace Expr

/-- The two sides of a value that is read as a comb. -/
def sides? : Expr → Option (Expr × Expr)
  | .app (.data .pair) [x, y] _ _ | .seq [x, y] _ => some (x, y)
  | .app (.data .pair) (x :: y :: z :: rest) _ _ =>
    some (x, .app (.data .pair) (y :: z :: rest))
  | .seq (x :: y :: z :: rest) _ => some (x, .seq (y :: z :: rest))
  | _ => none

mutual
/-- **The big maps in a value of a type**, by recursion on the type. -/
def mapsIn : Expr → Expr → List LocatedMap
  | .app (.type .pair) args _ _, v => mapsInComb args v
  | .app (.type .or) [left, right] _ _, v => match v with
    | .app (.data .left) [x] _ _ => mapsIn left x
    | .app (.data .right) [x] _ _ => mapsIn right x
    | _ => []
  | .app (.type .option) [inner] _ _, v => match v with
    | .app (.data .some) [x] _ _ =>
      if inner.applies (.type .option) then (mapsIn inner x).map .bury else mapsIn inner x
    | _ => []
  | .app (.type .bigMap) [_, _] _ _, v => match v with
    | .int id _ => [⟨id, false⟩]
    | _ => []
  | _, _ => []
/-- The big maps in a value of the comb of pairs whose arguments these are. -/
def mapsInComb : List Expr → Expr → List LocatedMap
  | [first, second], v => match v.sides? with
    | some (x, y) => mapsIn first x ++ mapsIn second y
    | none => []
  | first :: second :: third :: rest, v => match v.sides? with
    | some (x, y) => mapsIn first x ++ mapsInComb (second :: third :: rest) y
    | none => []
  | _, _ => []
end

section Sides

variable {v x y : Expr}

theorem SplitsInto.sides?_eq (h : SplitsInto .typed v x y) : v.sides? = some (x, y) := by
  cases h <;> rfl

theorem SplitsInto.checked_of_typed (h : SplitsInto .typed v x y) :
    SplitsInto .checked v x y := by
  cases h with
  | pair => exact .pair
  | longerPair => exact .longerPair trivial
  | items => exact .items trivial
  | moreItems => exact .moreItems trivial

/-- An option value is no comb. -/
theorem IsOptionOf.isComb_eq_false {P : Expr → Prop} (h : v.IsOptionOf P) : v.isComb = false := by
  cases h <;> rfl

/-- The values of an option type are option values. -/
theorem HasType.isOptionOf {r : Reading} {args : List Expr} {annots : List String} {flag : Bool}
    (h : (app (.type .option) args annots flag).HasType r v) : ∃ P, v.IsOptionOf P := by
  match args, h with
  | [], h | [_], h =>
    rw [HasType] at h
    exact ⟨_, h⟩
  | _ :: _ :: _, h =>
    simp only [HasType] at h
    exact absurd h (not_isScalarOf (by simp))

end Sides

/-- Types that are no combs, alternatives or options of something hold no big map but by being
one. -/
theorem mapsIn_eq_nil {c : TypeConstructor} {args : List Expr} {annots : List String} {flag : Bool}
    (hc : c ∉ [.pair, .or, .bigMap]) (hargs : c ≠ .option ∨ args = []) (v : Expr) :
    (app (.type c) args annots flag).mapsIn v = [] := by
  rw [mapsIn.eq_def]
  split <;> simp_all

end Expr

namespace Typedef

open LocatedMap

/-! ## Fields -/

section Fields

variable {path : List Nat} {t : Typedef} {ts : List Typedef} {v x y : Expr}

theorem idsInFields_cons (ht : t.path = path ++ [0]) (hts : ∀ u ∈ ts, path ++ [1] <+: u.path)
    (h : Expr.SplitsInto .checked v x y) :
    idsInFields path.length (t :: ts) v =
      t.heldIds x ++ idsInFields (path ++ [1]).length ts y := by
  have hfirst : t.path.drop path.length = [0] := by simp [ht]
  rw [idsInFields, idsInFields, List.flatMap_cons, hfirst, h.combField?_left]
  refine congrArg (t.heldIds x ++ ·) (List.flatMap_congr fun u hu => ?_)
  rw [drop_of_isPrefix (hts u hu), h.combField?_right]

/-- The maps of a comb are those of its first component and those of the others. -/
theorem idsInFields_comb (ht : t.path = path ++ [0]) (hts : ∀ u ∈ ts, path ++ [1] <+: u.path)
    (h : Expr.SplitsInto .typed v x y) {first others : List LocatedMap}
    (hfirst : t.heldIds x = reachedIds first)
    (hothers : idsInFields (path ++ [1]).length ts y = reachedIds others) :
    idsInFields path.length (t :: ts) v = reachedIds (first ++ others) := by
  rw [idsInFields_cons ht hts h.checked_of_typed, hfirst, hothers, reachedIds_append]

/-- No field is found in what is no comb. -/
theorem idsInFields_eq_nil (ht : t.path = path ++ [0]) (hts : ∀ u ∈ ts, path ++ [1] <+: u.path)
    (h : v.isComb = false) : idsInFields path.length (t :: ts) v = [] := by
  have hnone (i : Nat) (rest : List Nat) : v.combField? (i :: rest) = none := by
    rw [Expr.combField?, h]
    rfl
  rw [idsInFields, List.flatMap_eq_nil_iff, List.forall_mem_cons]
  constructor
  · rw [ht, List.drop_left, hnone]
    rfl
  · intro u hu
    rw [drop_of_isPrefix (hts u hu), hnone]
    rfl

theorem idsInFields_singleton (ht : t.path = path) (v : Expr) :
    idsInFields path.length [t] v = t.heldIds v := by
  rw [idsInFields, List.flatMap_singleton, ht, List.drop_length]
  rfl

/-- Names by position do not matter. -/
theorem idsInFields_numberFields (depth : Nat) (v : Expr) :
    idsInFields depth (numberFields ts) v = idsInFields depth ts v := by
  rw [idsInFields, idsInFields, List.flatMap_def, List.flatMap_def, map_numberFields_of_blind]
  intro t n
  rw [funext (heldIds_rename t n)]

end Fields

/-! ## Branches -/

section Branches

variable {path : List Nat}

theorem idsBehind_of_step {ts us : List Typedef} {depth depth' step : Nat} {v x : Expr}
    (hv : ∀ isBranch, v.unwrap? isBranch =
      Expr.behind step (x.payloadAt? fun steps => isBranch (step :: steps)))
    (hts : ∀ steps, branchAt? depth ts (step :: steps) = branchAt? depth' us steps) :
    idsBehind depth ts (v.unwrap? (isBranch depth ts)) =
      idsBehind depth' us (x.payloadAt? (isBranch depth' us)) := by
  have hbranch : (fun steps => isBranch depth ts (step :: steps)) = isBranch depth' us :=
    funext fun steps => congrArg Option.isSome (hts steps)
  rw [hv, hbranch]
  cases x.payloadAt? (isBranch depth' us) with
  | none => rfl
  | some found => simp only [Expr.behind, idsBehind, Option.map_some, Option.elim_some, hts]

theorem idsBehind_singleton {t : Typedef} (ht : t.path = path) (v : Expr) :
    idsBehind path.length [t] (v.payloadAt? (isBranch path.length [t])) = t.heldIds v := by
  rw [payloadAt?_singleton ht]
  simp only [idsBehind, Option.elim_some, branchAt?_singleton_nil ht]

end Branches

/-! ## Options -/

section Leaves

variable {c : TypeConstructor} {args : List Expr} {name : String} {optional : Bool}
variable {ts : List Typedef} {path : List Nat}

/-- A type without components holds no big map. -/
theorem heldIds_leaf {kind : Kind} (h : leafKind? c args = some kind) (v : Expr) :
    heldIds ⟨name, kind, optional, ts, path⟩ v = [] := by
  have hhead := head?_of_leafKind? h
  refine heldIds_of_ne ?_ ?_ ?_ v
  · rintro rfl
    cases hhead
  · rintro rfl
    cases hhead
  · rintro rfl
    cases hhead
    cases h

/-- Of the other types, only that of a big map holds one. -/
theorem heldIds_type (hc : c ≠ .bigMap) (v : Expr) :
    heldIds ⟨name, .type c, optional, ts, path⟩ v = [] :=
  heldIds_of_ne (by simp) (by simp) (by simpa using hc) v

end Leaves

/-- An option is no value of what it wraps: along the typedef of that, nothing is found in it. -/
theorem Derives.heldIds_of_isOptionOf {e : Expr} {fallback : String} {path : List Nat}
    {t : Typedef} (h : Derives e fallback path t) {P : Expr → Prop} {v : Expr}
    (hv : v.IsOptionOf P) (name : String) :
    heldIds ⟨name, t.kind, false, t.args, path⟩ v = [] := by
  induction e generalizing fallback t with
  | int | string | bytes | seq => cases h
  | app p xs annots flag ih =>
    cases h with
    | struct hfields =>
      rw [heldIds_struct, idsInFields_numberFields]
      have hcomb := hv.isComb_eq_false
      cases hfields with
      | nest hx hs => exact idsInFields_eq_nil hx.path_eq hs.isPrefix hcomb
      | last _ hx hy => exact idsInFields_eq_nil hx.path_eq (by simp [hy.path_eq]) hcomb
      | next hx hs => exact idsInFields_eq_nil hx.path_eq hs.isPrefix hcomb
    | union _ =>
      rw [heldIds_union]
      cases hv <;> rfl
    | option hinner => exact (ih _ List.mem_cons_self hinner :)
    | leaf hkind => exact heldIds_leaf hkind v
    | unary hc _ => exact heldIds_type (by rintro rfl; cases hc) v
    | @binary c =>
      by_cases hc : c = .bigMap
      · subst hc
        exact heldIds_bigMap (by cases hv <;> simp)
      · exact heldIds_type hc v

/-- Only an option has an optional typedef. -/
theorem Derives.optional_eq {e : Expr} {fallback : String} {path : List Nat} {t : Typedef}
    (h : Derives e fallback path t) (he : e.applies (.type .option) = false) :
    t.optional = false := by
  cases h with
  | option => cases he
  | struct | union | leaf | unary | binary => rfl

/-- The typedef of an option finds in what the option wraps what is not buried in it. -/
theorem Derives.heldIds_eq_of_option {inner : Expr} {fallback name : String} {path : List Nat}
    {t : Typedef} (h : Derives inner fallback path t) {x : Expr} (hx : inner.HasType .typed x)
    (ih : ∀ {v}, inner.HasType .typed v → t.heldIds v = reachedIds (inner.mapsIn v)) :
    heldIds ⟨name, t.kind, false, t.args, path⟩ x =
      reachedIds (if inner.applies (.type .option) then (inner.mapsIn x).map .bury
        else inner.mapsIn x) := by
  cases hoption : inner.applies (.type .option) with
  | true =>
    obtain ⟨args, annots, flag, rfl⟩ := Expr.applies_iff.mp hoption
    obtain ⟨P, hP⟩ := hx.isOptionOf
    rw [h.heldIds_of_isOptionOf hP]
    exact (reachedIds_map_bury _).symm
  | false =>
    have hself : (⟨name, t.kind, false, t.args, path⟩ : Typedef) = { t with name := name } := by
      rw [← h.optional_eq hoption, ← h.path_eq]
    rw [hself, heldIds_rename]
    exact ih hx

/-! ## Derived typedefs -/

section Types

variable {c : TypeConstructor} {args : List Expr} {annots : List String} {flag : Bool}

theorem mapsIn_leaf {kind : Kind} (h : leafKind? c args = some kind) (v : Expr) :
    (Expr.app (.type c) args annots flag).mapsIn v = [] := by
  refine Expr.mapsIn_eq_nil ?_ ?_ v
  · cases c <;> first | decide | cases h
  · cases args with
    | nil => exact .inr rfl
    | cons => exact .inl (by rintro rfl; cases h)

theorem mapsIn_unary {component : String} (h : componentName? c = some component) (v : Expr) :
    (Expr.app (.type c) args annots flag).mapsIn v = [] := by
  refine Expr.mapsIn_eq_nil ?_ (.inl ?_) v
  · cases c <;> first | decide | cases h
  · rintro rfl
    cases h

/-- Of the types with two components, a big map is one by its id. -/
theorem heldIds_binary {components : String × String} (h : componentNames? c = some components)
    {x y : Expr} {name : String} {ts : List Typedef} {path : List Nat} (v : Expr) :
    heldIds ⟨name, .type c, false, ts, path⟩ v =
      reachedIds ((Expr.app (.type c) [x, y] annots flag).mapsIn v) := by
  by_cases hc : c = .bigMap
  · subst hc
    cases v with
    | int n as =>
      rw [heldIds_int, Expr.mapsIn]
      rfl
    | string | bytes | seq | app =>
      rw [heldIds_bigMap (by simp)]
      simp [Expr.mapsIn, reachedIds]
  · have hnil : (Expr.app (.type c) [x, y] annots flag).mapsIn v = [] := by
      refine Expr.mapsIn_eq_nil ?_ (.inl ?_) v
      · cases c <;> first | decide | exact absurd rfl hc | cases h
      · rintro rfl
        cases h
    rw [heldIds_type hc, hnil]
    rfl

end Types

mutual
/-- **What is found along the typedef of a type** are the big maps of the value that are not
buried. -/
theorem Derives.heldIds_eq {e : Expr} {fallback : String} {path : List Nat} {t : Typedef}
    (h : Derives e fallback path t) {v : Expr} (hv : e.HasType .typed v) :
    t.heldIds v = reachedIds (e.mapsIn v) := by
  match h with
  | .struct hfields =>
    rw [heldIds_struct, idsInFields_numberFields, Expr.mapsIn]
    rw [Expr.HasType] at hv
    exact hfields.idsInFields_eq hv
  | .union hbranches =>
    rw [heldIds_union]
    exact hbranches.idsBehind_eq hv
  | .option hinner =>
    rw [Expr.HasType] at hv
    cases hv with
    | none =>
      rw [heldIds_none]
      simp [Expr.mapsIn, reachedIds]
    | some hx =>
      rw [heldIds_some, Expr.mapsIn]
      exact hinner.heldIds_eq_of_option (hx trivial) hinner.heldIds_eq
  | .leaf hkind =>
    rw [heldIds_leaf hkind, mapsIn_leaf hkind]
    rfl
  | .unary hc _ =>
    rw [heldIds_type (by rintro rfl; cases hc), mapsIn_unary hc]
    rfl
  | .binary hc _ _ => exact heldIds_binary hc v
/-- The fields of a comb are the components of its values. -/
theorem DerivesFields.idsInFields_eq {args : List Expr} {path : List Nat} {ts : List Typedef}
    (h : DerivesFields args path ts) {v : Expr} (hv : Expr.HasCombType .typed args v) :
    idsInFields path.length ts v = reachedIds (Expr.mapsInComb args v) := by
  match h with
  | .nest hx hs =>
    rw [Expr.HasCombType] at hv
    obtain ⟨x, y, hsplit, hleft, hright⟩ := hv
    rw [Expr.HasType] at hright
    simp only [Expr.mapsInComb, hsplit.sides?_eq, Expr.mapsIn]
    exact idsInFields_comb hx.path_eq hs.isPrefix hsplit (hx.heldIds_eq hleft)
      (hs.idsInFields_eq hright)
  | .last _ hx hy =>
    rw [Expr.HasCombType] at hv
    obtain ⟨x, y, hsplit, hleft, hright⟩ := hv
    simp only [Expr.mapsInComb, hsplit.sides?_eq]
    refine idsInFields_comb hx.path_eq (by simp [hy.path_eq]) hsplit (hx.heldIds_eq hleft) ?_
    rw [idsInFields_singleton hy.path_eq, hy.heldIds_eq hright]
  | .next hx hs =>
    rw [Expr.HasCombType] at hv
    obtain ⟨x, y, hsplit, hleft, hright⟩ := hv
    simp only [Expr.mapsInComb, hsplit.sides?_eq]
    exact idsInFields_comb hx.path_eq hs.isPrefix hsplit (hx.heldIds_eq hleft)
      (hs.idsInFields_eq hright)
/-- The branches of a nest are found behind the wrappers of its values. -/
theorem DerivesBranches.idsBehind_eq {first : String} {args : List Expr} {path : List Nat}
    {ts : List Typedef} (h : DerivesBranches first args path ts) {annots : List String}
    {flag : Bool} {v : Expr} (hv : (Expr.app (.type .or) args annots flag).HasType .typed v) :
    idsBehind path.length ts (v.unwrap? (isBranch path.length ts)) =
      reachedIds ((Expr.app (.type .or) args annots flag).mapsIn v) := by
  match h with
  | .both hl hr =>
    rw [Expr.HasType] at hv
    cases hv with
    | left hx =>
      rw [idsBehind_of_step (Expr.unwrap?_left · _ _ _) (branchAt?_left hl.isPrefix hr.isPrefix),
        hl.idsBehind_eq hx, Expr.mapsIn]
    | right hx =>
      rw [idsBehind_of_step (Expr.unwrap?_right · _ _ _) (branchAt?_right hl.isPrefix hr.isPrefix),
        hr.idsBehind_eq hx, Expr.mapsIn]
/-- The branches on one side of a nest are found behind the further wrappers of its payloads. -/
theorem DerivesSide.idsBehind_eq {first : String} {e : Expr} {path : List Nat} {ts : List Typedef}
    (h : DerivesSide first e path ts) {v : Expr} (hv : e.HasType .typed v) :
    idsBehind path.length ts (v.payloadAt? (isBranch path.length ts)) =
      reachedIds (e.mapsIn v) := by
  match h with
  | .nest (.both hl hr) =>
    rw [payloadAt?_append hl.isPrefix hr.isPrefix]
    exact (DerivesBranches.both hl hr).idsBehind_eq hv
  | .one _ hx =>
    rw [idsBehind_singleton hx.path_eq]
    exact hx.heldIds_eq hv
end

end Typedef

namespace BigMap

open LocatedMap

/-- **The ids that are found in a storage** of a type, with its options of their types, too. They
are those of the big maps of which the type tells, in combs of any layout, but for those that lie in
an option that lies directly in an option. So they are all of them just if there are none of
these. -/
theorem ids_of_detect (type storage : Expr) (found : Found) (h : detect type storage = .ok found)
    (hv : (Typedef.sectionType type).HasType .typed storage) :
    let maps := (Typedef.sectionType type).mapsIn storage
    (found.map (·.2)).Perm (reachedIds maps) ∧
      ((found.map (·.2)).Perm (maps.map (·.id)) ↔ ∀ map ∈ maps, map.buried = false) := by
  intro maps
  obtain ⟨t, ht, hrest⟩ := bind_eq_ok_iff.mp h
  obtain ⟨unsorted, hunsorted, hsorted⟩ := bind_eq_ok_iff.mp hrest
  have hder : Typedef.Derives (Typedef.sectionType type) "storage" [] t := by
    cases hderive : Typedef.derive type "storage" with
    | error e =>
      rw [hderive] at ht
      cases ht
    | ok u =>
      rw [hderive] at ht
      cases ht
      exact Typedef.derives_of_build _ _ _ _ hderive
  have hids : unsorted.map (·.2) = reachedIds maps := by
    rw [Typedef.bigMaps_eq_foldlM] at hunsorted
    rw [ids_of_foldlM_addMap hunsorted]
    exact hder.heldIds_eq hv
  have hfound : (found.map (·.2)).Perm (reachedIds maps) := by
    cases hsorted
    rw [← hids]
    exact (List.mergeSort_perm unsorted _).map _
  refine ⟨hfound, ?_⟩
  rw [← reachedIds_perm_iff]
  exact ⟨hfound.symm.trans, hfound.trans⟩

/-- The type of a big map from numbers to numbers. -/
def ledgerMap : Expr := .app (.type .bigMap) [.plainType .nat, .plainType .nat]

/-- A storage of three big maps: one by itself, one in an option in an alternative, and one in an
option in an option. -/
def threeMaps : Expr :=
  .app (.keyword .storage) [.app (.type .pair)
    [ledgerMap.setAnnots ["%ledger"],
      .app (.type .or) [.app (.type .option) [ledgerMap], .plainType .unit],
      .app (.type .option) [.app (.type .option) [ledgerMap]]]]

/-- A value of that storage, written as a sequence. -/
def threeMapsValue : Expr :=
  .seq [.int 7, .app (.data .left) [.app (.data .some) [.int 3]],
    .app (.data .some) [.app (.data .some) [.int 9]]]

theorem hasType_threeMapsValue :
    (Typedef.sectionType threeMaps).HasType .typed threeMapsValue := by
  simp only [threeMaps, ledgerMap, Expr.setAnnots, Typedef.sectionType, Expr.HasType,
    Expr.HasCombType]
  refine ⟨_, _, .moreItems trivial, .inl ⟨7, [], rfl⟩, _, _, .items trivial, ?_, ?_⟩
  · exact .left (.some fun _ => .inl ⟨3, [], rfl⟩)
  · exact .some fun _ => .some fun _ => .inl ⟨9, [], rfl⟩

theorem ids_of_detect_threeMaps :
    ∃ found, detect threeMaps threeMapsValue = .ok found ∧ (found.map (·.2)).Perm [7, 3] ∧
      ¬ (found.map (·.2)).Perm [7, 3, 9] := by
  have hmaps : (Typedef.sectionType threeMaps).mapsIn threeMapsValue =
      [⟨7, false⟩, ⟨3, false⟩, ⟨9, true⟩] := by
    rfl
  have hsome : (detect threeMaps threeMapsValue).toOption.map (fun _ => true) = some true := by rfl
  obtain ⟨found, hdetect, -⟩ := map_toOption_eq_some_iff.mp hsome
  have hids := ids_of_detect threeMaps threeMapsValue found hdetect hasType_threeMapsValue
  rw [hmaps] at hids
  refine ⟨found, hdetect, hids.1, fun hall => ?_⟩
  exact absurd (hids.2.mp hall) (by decide)

/-- A storage of a big map in an option in an option, where it has the id 5. -/
def buriedMap : Expr × Expr :=
  (.app (.type .option) [.app (.type .option) [ledgerMap]],
    .app (.data .some) [.app (.data .some) [.int 5]])

theorem hasType_buriedMap : (Typedef.sectionType buriedMap.1).HasType .typed buriedMap.2 := by
  simp only [buriedMap, ledgerMap, Typedef.sectionType, Expr.HasType]
  exact .some fun _ => .some fun _ => .inl ⟨5, [], rfl⟩

/-- Not all big maps of which the type tells are found. -/
theorem detect_buriedMap :
    detect buriedMap.1 buriedMap.2 = .ok [] ∧
      ((Typedef.sectionType buriedMap.1).mapsIn buriedMap.2).map (·.id) = [5] ∧
      ¬ ∀ type storage found, detect type storage = .ok found →
        (Typedef.sectionType type).HasType .typed storage →
        (found.map (·.2)).Perm (((Typedef.sectionType type).mapsIn storage).map (·.id)) := by
  have hfound : ((Typedef.derive buriedMap.1 "storage").mapError Error.type >>=
      (·.bigMaps buriedMap.2 [])) = .ok [] := by
    rfl
  have hdetect : detect buriedMap.1 buriedMap.2 = .ok [] := by
    obtain ⟨t, ht, hmaps⟩ := bind_eq_ok_iff.mp hfound
    simp only [detect, ht, hmaps, bind, Except.bind, List.mergeSort_nil]
    rfl
  have hids : ((Typedef.sectionType buriedMap.1).mapsIn buriedMap.2).map (·.id) = [5] := by rfl
  refine ⟨hdetect, hids, fun hall => ?_⟩
  have hperm := hall _ _ _ hdetect hasType_buriedMap
  rw [hids] at hperm
  exact absurd hperm (by decide)

end BigMap

end Michelson

import Mathlib.Data.List.Nodup
import Mathlib.Data.List.Perm.Subperm
import Mathlib.Data.String.Basic
import Michelson.Proofs.BigMap.Collection

/-!
# The names of big maps

Big maps that are found under one name are told apart by numbers. The first keeps the name, and each
further one takes the name with the least number behind it that makes it free. Names that are given
and names that are made share one space, so a name that looks like one with a number may have been
taken by another map, or take what another map would have got. Still no map takes the place of
another.

## Main definitions

* `BigMap.candidate`: the names that a big map may take, in their order
* `BigMap.IsFirstFree`: the first of them that is free

## Main results

* `BigMap.isFirstFree_freshName`: a free name is always found, and it is the first one
* `BigMap.stored_of_foldlM_addMap`: what stands where after big maps have been added
* `BigMap.keys_of_detect`: the keys under which the big maps of a storage are found
-/

namespace Michelson.BigMap

/-! ## Free names -/

/-- **The names that a big map may take**: its own, and then its own with a number behind it. -/
def candidate (name : String) : Nat → String
  | 0 => name
  | number + 1 => s!"{name}_{number + 1}"

/-- Whether a key is the first of the names that a big map may take which is not taken. -/
def IsFirstFree (taken : List String) (name key : String) : Prop :=
  ∃ s, key = candidate name s ∧ key ∉ taken ∧ ∀ r < s, candidate name r ∈ taken

theorem isTaken_iff {found : Found} {name : String} :
    isTaken found name = true ↔ name ∈ found.map (·.1) := by
  simp [isTaken]

/-- Different numbers make different names. -/
theorem candidate_succ_injective (name : String) :
    Function.Injective fun number => candidate name (number + 1) := by
  intro m n h
  have hlists := congrArg String.toList h
  simp only [candidate, String.toList_append, List.append_assoc, List.append_cancel_left_eq,
    toString, Nat.toList_repr] at hlists
  have hnumbers := congrArg (Nat.ofDigitChars 10 · 0) hlists
  simpa using hnumbers

/-- **Some number makes a name free.** There are more numbers to try than names that are taken. -/
theorem exists_free_candidate (found : Found) (name : String) :
    ∃ number < found.length + 1, isTaken found (candidate name (number + 1)) = false := by
  by_contra! hall
  have hsub : (List.range (found.length + 1)).map (fun number => candidate name (number + 1)) ⊆
      found.map (·.1) := by
    intro key hkey
    obtain ⟨number, hnumber, rfl⟩ := List.mem_map.mp hkey
    exact isTaken_iff.mp (by simpa using hall number (List.mem_range.mp hnumber))
  have hnodup : ((List.range (found.length + 1)).map fun number =>
      candidate name (number + 1)).Nodup := List.nodup_range.map (candidate_succ_injective name)
  have hlength := (List.subperm_of_subset hnodup hsub).length_le
  rw [List.length_map, List.length_range, List.length_map] at hlength
  omega

/-- **The name that is given to a big map** is the first one that is free. -/
theorem isFirstFree_freshName (found : Found) (name : String) :
    IsFirstFree (found.map (·.1)) name (freshName found name) := by
  unfold freshName
  split
  next htaken =>
    obtain ⟨number, hnumber, hfree⟩ := exists_free_candidate found name
    obtain ⟨key, hfind⟩ : ∃ key, ((List.range (found.length + 1)).map fun i =>
        candidate name (i + 1)).find? (fun key => !isTaken found key) = some key := by
      rw [← Option.isSome_iff_exists, List.find?_isSome]
      exact ⟨_, List.mem_map_of_mem (List.mem_range.mpr hnumber), by rw [hfree]; rfl⟩
    show IsFirstFree _ _
      (Option.getD (List.find? _ (List.map (fun i => candidate name (i + 1)) _)) _)
    rw [hfind, Option.getD_some]
    obtain ⟨hkey, s, hs, heq, hbefore⟩ := List.find?_eq_some_iff_getElem.mp hfind
    rw [List.getElem_map, List.getElem_range] at heq
    refine ⟨s + 1, heq.symm, fun hmem => ?_, fun r hr => ?_⟩
    · rw [isTaken_iff.mpr hmem] at hkey
      cases hkey
    · cases r with
      | zero => exact isTaken_iff.mp htaken
      | succ r =>
        have htried := hbefore r (by omega)
        rw [List.getElem_map, List.getElem_range, Bool.not_not] at htried
        exact isTaken_iff.mp htried
  next hfree =>
    rw [isTaken_iff] at hfree
    exact ⟨0, rfl, hfree, fun r hr => absurd hr (Nat.not_lt_zero r)⟩

/-! ## Maps that are added -/

section Adding

variable {maps : List (String × Int)} {found after : Found}

/-- Adding big maps only appends to those found before. -/
theorem isPrefix_of_foldlM_addMap (h : maps.foldlM addMap found = .ok after) : found <+: after := by
  induction maps generalizing found with
  | nil =>
    cases h
    exact List.prefix_rfl
  | cons map maps ih =>
    obtain ⟨next, hnext, hrest⟩ := bind_eq_ok_iff.mp h
    obtain ⟨-, rfl⟩ := addMap_eq_ok_iff.mp hnext
    exact (List.prefix_append _ _).trans (ih hrest)

/-- No key is given twice. -/
theorem nodup_of_foldlM_addMap (h : maps.foldlM addMap found = .ok after)
    (hfound : (found.map (·.1)).Nodup) : (after.map (·.1)).Nodup := by
  induction maps generalizing found with
  | nil =>
    cases h
    exact hfound
  | cons map maps ih =>
    obtain ⟨next, hnext, hrest⟩ := bind_eq_ok_iff.mp h
    obtain ⟨-, rfl⟩ := addMap_eq_ok_iff.mp hnext
    refine ih hrest ?_
    obtain ⟨-, -, hfree, -⟩ := isFirstFree_freshName found map.1
    rw [List.map_append, List.map_singleton, List.nodup_append_comm, List.singleton_append,
      List.nodup_cons]
    exact ⟨hfree, hfound⟩

/-- **What stands where after big maps have been added**: each map has its id under the first of its
names that those before it had left free. -/
theorem stored_of_foldlM_addMap (h : maps.foldlM addMap found = .ok after) {i : Nat}
    {name : String} {id : Int} (hi : maps[i]? = some (name, id)) :
    ∃ key, after[found.length + i]? = some (key, id) ∧
      IsFirstFree ((after.take (found.length + i)).map (·.1)) name key := by
  induction maps generalizing found i with
  | nil => simp at hi
  | cons map maps ih =>
    obtain ⟨next, hnext, hrest⟩ := bind_eq_ok_iff.mp h
    obtain ⟨-, rfl⟩ := addMap_eq_ok_iff.mp hnext
    cases i with
    | zero =>
      obtain ⟨rest, rfl⟩ := isPrefix_of_foldlM_addMap hrest
      obtain rfl : map = (name, id) := by simpa using hi
      refine ⟨freshName found name, by simp, ?_⟩
      simpa using isFirstFree_freshName found name
    | succ i =>
      obtain ⟨key, hkey, hfirst⟩ := ih hrest (i := i) (by simpa using hi)
      have hplace : (found ++ [(freshName found map.1, map.2)]).length + i =
          found.length + (i + 1) := by
        simp
        omega
      rw [hplace] at hkey hfirst
      exact ⟨key, hkey, hfirst⟩

end Adding

/-! ## The maps of a storage -/

/-- Big maps with different keys, sorted by them. -/
theorem pairwise_lt_mergeSort {stored : Found} (h : (stored.map (·.1)).Nodup) :
    (stored.mergeSort fun a b => a.1 ≤ b.1).Pairwise (·.1 < ·.1) := by
  have hsorted : (stored.mergeSort fun a b => a.1 ≤ b.1).Pairwise (·.1 ≤ ·.1) := by
    have hpairs := @List.pairwise_mergeSort _ (fun a b : String × Int => decide (a.1 ≤ b.1))
      (fun a b c hab hbc => by simp only [decide_eq_true_eq] at *; exact le_trans hab hbc)
      (fun a b => by simpa using le_total a.1 b.1) stored
    simpa using hpairs
  have hnodup : ((stored.mergeSort fun a b => a.1 ≤ b.1).map (·.1)).Nodup :=
    ((List.mergeSort_perm stored _).map _).nodup_iff.mpr h
  exact (hsorted.and (List.pairwise_map.mp hnodup)).imp fun h => lt_of_le_of_ne h.1 h.2

/-- **The keys under which the big maps of a storage are found.** There are as many entries as big
maps in the value, sorted by their keys, no two of which are the same. The entries are those that
the maps get one after the other, from the left to the right: the key of each is the first of its
names that no entry before it took. -/
theorem keys_of_detect (type storage : Expr) (found : Found)
    (h : detect type storage = .ok found) :
    ∃ t, Typedef.derive type "storage" = .ok t ∧
      found.length = (t.heldMaps storage).length ∧ found.Pairwise (·.1 < ·.1) ∧
      ∃ stored : Found, stored.Perm found ∧
        ∀ i name id, (t.heldMaps storage)[i]? = some (name, id) →
          ∃ key, stored[i]? = some (key, id) ∧
            IsFirstFree ((stored.take i).map (·.1)) name key := by
  obtain ⟨t, ht, hrest⟩ := bind_eq_ok_iff.mp h
  obtain ⟨stored, hstored, hsorted⟩ := bind_eq_ok_iff.mp hrest
  rw [Typedef.bigMaps_eq_foldlM] at hstored
  cases hsorted
  have hperm := List.mergeSort_perm stored fun a b => a.1 ≤ b.1
  refine ⟨t, ?_, ?_, pairwise_lt_mergeSort (nodup_of_foldlM_addMap hstored List.nodup_nil),
    stored, hperm.symm, fun i name id hi => ?_⟩
  · cases hderive : Typedef.derive type "storage" with
    | error e =>
      rw [hderive] at ht
      cases ht
    | ok u =>
      rw [hderive] at ht
      cases ht
      rfl
  · have hids := congrArg List.length (ids_of_foldlM_addMap hstored)
    rw [hperm.length_eq]
    simpa using hids
  · have hplace := stored_of_foldlM_addMap hstored hi
    rwa [List.length_nil, Nat.zero_add] at hplace

/-- A storage of four big maps, of which three have one name and the fourth has the name that the
second of these takes. -/
def ledgers : Expr :=
  let map (label : String) : Expr :=
    .app (.type .bigMap) [.plainType .nat, .plainType .nat] [label]
  .app (.type .pair) [map "%ledger", map "%ledger", map "%ledger_1", map "%ledger"]

/-- A value of that storage. -/
def ledgersValue : Expr := .seq [.int 4, .int 5, .int 6, .int 7]

/-- The third map has the name that the second one took, and so gets another. -/
theorem keys_of_detect_ledgers :
    ∃ found, detect ledgers ledgersValue = .ok found ∧ found.length = 4 ∧
      ∃ stored : Found, stored.Perm found ∧ ∃ key, stored[2]? = some (key, 6) ∧
        IsFirstFree ((stored.take 2).map (·.1)) "ledger_1" key := by
  have hsome : (detect ledgers ledgersValue).toOption.map (fun _ => true) = some true := by rfl
  obtain ⟨found, hdetect, -⟩ := map_toOption_eq_some_iff.mp hsome
  obtain ⟨t, ht, hlength, -, stored, hperm, hkeys⟩ :=
    keys_of_detect ledgers ledgersValue found hdetect
  have hheld : (Typedef.derive ledgers "storage").map (·.heldMaps ledgersValue) =
      .ok [("ledger", 4), ("ledger", 5), ("ledger_1", 6), ("ledger", 7)] := by rfl
  rw [ht] at hheld
  have hmaps : t.heldMaps ledgersValue = _ := Except.ok.inj hheld
  exact ⟨found, hdetect, by rw [hlength, hmaps]; rfl, stored, hperm,
    hkeys 2 "ledger_1" 6 (by rw [hmaps]; rfl)⟩

example : ((Typedef.derive ledgers "storage").mapError Error.type >>=
    (·.bigMaps ledgersValue [])) =
      .ok [("ledger", 4), ("ledger_1", 5), ("ledger_1_1", 6), ("ledger_2", 7)] := by
  rfl

end Michelson.BigMap

import Michelson.Proofs.BigMap.Collection
import Michelson.Proofs.Typing.Nesting

/-!
# Big maps and the layout of pairs

A storage holds the same big maps, under the same names and with the same ids, whether its tuples
are written as pairs of many arguments or as pairs of two nested to the right. If an id does not
fit, it is the same one.

## Main results

* `Typedef.heldMaps_nestPairs`: the big maps in a value and in its normal form
* `BigMap.check_and_detect_nestPairs`: neither the check nor the detection sees the layout
-/

namespace Michelson

namespace Typedef

open BigMap

theorem payload?_nestPairs (optional : Bool) (v : Expr) :
    payload? optional v.nestPairs = (payload? optional v).map Expr.nestPairs := by
  cases optional with
  | false => rfl
  | true =>
    cases v with
    | int | string | bytes | seq => rfl
    | app p xs as flag =>
      by_cases hp : p = .data .pair
      · subst hp
        rcases xs with _ | ⟨x, _ | ⟨y, _ | ⟨z, rest⟩⟩⟩ <;> rfl
      · rw [Expr.nestPairs_app_of_ne as flag hp]
        cases p with
        | data d => cases d <;> rcases xs with _ | ⟨x, _ | ⟨y, rest⟩⟩ <;> rfl
        | type | keyword | instruction => rfl

section Parts

variable {args : List Typedef} (h : ∀ t ∈ args, ∀ v, t.heldMaps v.nestPairs = t.heldMaps v)
include h

theorem heldInFields_nestPairs (depth : Nat) (v : Expr) :
    heldInFields depth args v.nestPairs = heldInFields depth args v := by
  induction args with
  | nil => rfl
  | cons t ts ih =>
    rw [List.forall_mem_cons] at h
    rw [heldInFields, heldInFields, Expr.combField?_nestPairs, ih h.2]
    cases v.combField? (t.path.drop depth) with
    | none => rfl
    | some x => exact congrArg (· ++ _) (h.1 x)

theorem heldInBranch_nestPairs (depth : Nat) (steps : List Nat) (v : Expr) :
    heldInBranch depth steps args v.nestPairs = heldInBranch depth steps args v := by
  induction args with
  | nil => rfl
  | cons t ts ih =>
    rw [List.forall_mem_cons] at h
    rw [heldInBranch, heldInBranch, h.1 v, ih h.2]

end Parts

/-- **The big maps in a value** are those in its normal form. -/
theorem heldMaps_nestPairs (t : Typedef) (v : Expr) : t.heldMaps v.nestPairs = t.heldMaps v := by
  induction t using args_induction generalizing v with
  | node t ih =>
    obtain ⟨name, kind, optional, args, path⟩ := t
    rw [heldMaps, heldMaps, payload?_nestPairs]
    cases payload? optional v with
    | none => rfl
    | some x =>
      cases kind with
      | struct => exact heldInFields_nestPairs ih path.length x
      | union =>
        simp only [Option.map_some, Expr.unwrap?_nestPairs]
        cases x.unwrap? fun steps => args.any (·.path.drop path.length == steps) with
        | none => rfl
        | some found => exact heldInBranch_nestPairs ih path.length found.1 found.2
      | sapling => rfl
      | type c =>
        by_cases hc : c = .bigMap
        · subst hc
          cases x with
          | int | string | bytes | seq => rfl
          | app p xs as flag =>
            obtain ⟨ys, hys⟩ := Expr.exists_nestPairs_app_eq p xs as flag
            simp only [Option.map_some, hys]
        · cases c <;> first | rfl | exact absurd rfl hc

theorem bigMaps_nestPairs (t : Typedef) (v : Expr) (found : Found) :
    t.bigMaps v.nestPairs found = t.bigMaps v found := by
  rw [bigMaps_eq_foldlM, bigMaps_eq_foldlM, heldMaps_nestPairs]

end Typedef

namespace BigMap

/-- **The layout of pairs does not matter.** The typedef of a type checks a value with success just
if it does so with the value with all its pairs nested to the right, and the same big maps are found
in both, or the detection fails with the same error. -/
theorem check_and_detect_nestPairs (type v : Expr) :
    (∀ name t, Typedef.derive type name = .ok t →
      (t.check v = .ok () ↔ t.check v.nestPairs = .ok ())) ∧
    detect type v = detect type v.nestPairs := by
  constructor
  · intro name t _
    rw [← Typedef.accepts_iff, ← Typedef.accepts_iff, Typedef.accepts_nestPairs]
  · simp only [detect, Typedef.bigMaps_nestPairs]

/-- A storage of a balance, a comb under a name of its own, an optional map and a list of pairs. -/
def vaultType : Expr :=
  let holdings := Expr.app (.type .bigMap) [.plainType .address, .plainType .nat]
  .app (.keyword .storage) [.app (.type .pair)
    [.plainType .mutez,
      .app (.type .pair) [holdings, .plainType .nat, .plainType .nat] ["%ledger"],
      .app (.type .option) [holdings],
      .app (.type .list) [.app (.type .pair) [.plainType .int, .plainType .int, .plainType .int]]]]

/-- A value of it, with all its tuples written as longer pairs. -/
def vault : Expr :=
  .app (.data .pair)
    [.int 5, .app (.data .pair) [.int 7, .int 1, .int 2], .app (.data .some) [.int 9],
      .seq [.app (.data .pair) [.int 1, .int 2, .int 3] ["%p"]]] [] true

theorem check_and_detect_nestPairs_vault :
    ∃ t, Typedef.derive vaultType "storage" = .ok t ∧ t.check vault = .ok () ∧
      t.check vault.nestPairs = .ok () ∧ vault.nestPairs.same vault = false ∧
      ∃ found, detect vaultType vault = .ok found ∧
        detect vaultType vault.nestPairs = .ok found := by
  have hcheck : (Typedef.derive vaultType "storage").map (·.accepts vault) = .ok true := by rfl
  have hsome : (detect vaultType vault).toOption.map (fun _ => true) = some true := by rfl
  obtain ⟨t, ht, hacc⟩ := map_eq_ok_iff.mp hcheck
  obtain ⟨found, hfound, -⟩ := map_toOption_eq_some_iff.mp hsome
  obtain ⟨hlayout, hdetect⟩ := check_and_detect_nestPairs vaultType vault
  have hvault := Typedef.accepts_iff.mp hacc
  exact ⟨t, ht, hvault, (hlayout "storage" t ht).mp hvault, by decide, found, hfound,
    hdetect ▸ hfound⟩

end BigMap

end Michelson

import Michelson.Entrypoint.Interface
import Michelson.Proofs.Entrypoint.Signature
import Michelson.Proofs.Typedef.Recovery

/-!
# Types of matching entrypoints

An interface is matched by typedefs, but what it asks for are types. The typedefs of its
specifications tell their types, so an entrypoint that one of them accepts has that type, however
its pairs are grouped and however many options stand directly around one another.

## Main results

* `EntrypointSpec.flatType?_of_accepts`: the type of an accepted signature
* `Interface.flat_leaf_of_matchedBy`: the types of the entrypoints of a matched interface
-/

namespace Michelson

namespace EntrypointSpec

variable {spec : EntrypointSpec} {entry : Entrypoint}

/-- The signature of an accepted entrypoint tells the type that the typedef of the specification
tells. -/
theorem flatType?_of_accepts (h : spec.accepts entry false = true) :
    ∃ t, Typedef.build spec.type spec.name [] = .ok t ∧
      entry.signature.flatType? = t.flatType? := by
  unfold accepts at h
  cases hspec : spec.typedef with
  | error err => simp [hspec] at h
  | ok expected =>
    simp only [hspec, Bool.false_eq_true, if_false] at h
    simp only [typedef, bind_eq_ok_iff, pure_eq_ok_iff] at hspec
    obtain ⟨t, ht, rfl⟩ := hspec
    refine ⟨t, ht, ?_⟩
    have hequal := Typedef.flatType?_eq_of_equal h
    rwa [Typedef.flatType?_unfold, Typedef.flatType?_unfold, Typedef.flatType?_rename] at hequal

end EntrypointSpec

namespace Interface

/-- The typedefs of specifications tell their types. -/
theorem isSome_flatType?_of_mem_specs (interface : Interface) :
    ∀ spec ∈ interface.specs,
      ((Typedef.build spec.type spec.name []).toOption.bind Typedef.flatType?).isSome = true := by
  cases interface <;> decide

/-- Specifications have no options directly around options. -/
theorem mergeOptions_of_mem_specs (interface : Interface) :
    ∀ spec ∈ interface.specs, spec.type.mergeOptions = spec.type := by
  refine List.map_inj_left.mp ?_
  cases interface <;> rfl

theorem exists_of_matchedBy {interface : Interface} {es : Entrypoints} {strict : Bool}
    (h : interface.matchedBy es strict = true) :
    ∀ spec ∈ interface.specs, ∃ entry, es.get? spec.name = some entry ∧
      spec.accepts entry strict = true := by
  intro spec hspec
  have hentry := List.all_eq_true.mp h spec hspec
  cases hget : es.get? spec.name with
  | none => simp [hget] at hentry
  | some entry => exact ⟨entry, rfl, by simpa [hget] using hentry⟩

/-- **A matched interface** has entrypoints of the types that it asks for: without annotations, with
every nest of pairs taken as one, and with options directly around options taken as one, the leaf
of each is the type of the specification, unless it is an option around a pair. -/
theorem flat_leaf_of_matchedBy (interface : Interface) (parameter : Expr) (keep : List String)
    (es : Entrypoints) (hfound : Entrypoints.discover parameter keep = .ok es)
    (hmatch : interface.matchedBy es false = true) :
    ∀ spec ∈ interface.specs, ∃ entry, es.get? spec.name = some entry ∧
      (entry.leaf.isOptionalPair = false → entry.leaf.mergeOptions.flat = spec.type.flat) := by
  intro spec hspec
  obtain ⟨entry, hget, haccepts⟩ := exists_of_matchedBy hmatch spec hspec
  refine ⟨entry, hget, fun hleaf => ?_⟩
  obtain ⟨u, hu, hsignature⟩ := EntrypointSpec.flatType?_of_accepts haccepts
  have hentry : entry ∈ es.entries := List.mem_of_find?_eq_some hget
  obtain ⟨t, ht, heq⟩ :=
    Entrypoint.signature_of_ofLeaf (Entrypoints.ofLeaf_of_mem_discover hfound entry hentry)
  have hmark : (t.optional && !t.isStruct) = t.optional := by
    have hpair := ht.optional_and_isStruct_eq.trans hleaf
    cases hopt : t.optional with
    | false => rfl
    | true =>
      rw [hopt, Bool.true_and] at hpair
      rw [hpair]
      rfl
  have hsame : t.flatType? = u.flatType? := by
    rw [← hsignature, heq, hmark]
    exact (Typedef.flatType?_rename t entry.name).symm
  have hsome := isSome_flatType?_of_mem_specs interface spec hspec
  rw [hu] at hsome
  obtain ⟨x, hx⟩ := Option.isSome_iff_exists.mp hsome
  have hspecType := (Typedef.derives_of_build _ _ _ _ hu).flat_eq hx
  rw [mergeOptions_of_mem_specs interface spec hspec] at hspecType
  rw [hspecType]
  exact ht.flat_eq (hsame.trans hx)

/-- A token contract that groups the pairs of its arguments in its own way. -/
def tokenParameter : Expr :=
  .app (.keyword .parameter)
    [.app (.type .or)
      [.app (.type .or)
        [.app (.type .pair)
          [.app (.type .pair) [.plainType .address, .app (.type .address) [] ["%to"]],
            .plainType .nat] ["%transfer"],
          .app (.type .pair)
            [.plainType .address, .app (.type .contract) [.app (.type .nat) [] [":balance"]]]
            ["%getBalance"]],
        .app (.type .pair)
          [.plainType .unit, .app (.type .contract) [.plainType .nat]] ["%getTotalSupply"] true]]

theorem flat_leaf_of_matchedBy_token :
    ∃ es, Entrypoints.discover tokenParameter [] = .ok es ∧ fa1.matchedBy es false = true ∧
      ∀ spec ∈ fa1.specs, ∃ entry, es.get? spec.name = some entry ∧
        entry.leaf.mergeOptions.flat = spec.type.flat := by
  obtain ⟨es, hes⟩ : ∃ es, Entrypoints.discover tokenParameter [] = .ok es := ⟨_, rfl⟩
  have hmatch : fa1.matchedBy es false = true := by
    cases hes
    decide
  have hleaves : ∀ entry ∈ es.entries, entry.leaf.isOptionalPair = false := by
    cases hes
    decide
  refine ⟨es, hes, hmatch, fun spec hspec => ?_⟩
  obtain ⟨entry, hget, hflat⟩ :=
    flat_leaf_of_matchedBy fa1 tokenParameter [] es hes hmatch spec hspec
  exact ⟨entry, hget, hflat (hleaves entry (List.mem_of_find?_eq_some hget))⟩

/-- A contract whose delegate is wrapped in two options is taken for one with a single option. -/
theorem flat_leaf_ne_of_two_options :
    ∃ es, Entrypoints.discover
        (.app (.type .or)
          [.app (.type .option) [.app (.type .option) [.plainType .keyHash]] ["%set_delegate"],
            .app (.type .unit) [] ["%remove_delegate"]]) [] = .ok es ∧
      setDelegate.matchedBy es false = true ∧
      ∃ spec ∈ setDelegate.specs, ∃ entry, es.get? spec.name = some entry ∧
        entry.leaf.flat ≠ spec.type.flat := by
  refine ⟨_, rfl, by decide, _, .head _, _, rfl, fun h => ?_⟩
  cases h

end Interface

end Michelson

import Michelson.Proofs.Entrypoint.Addressing
import Michelson.Proofs.Typing.Conformance

/-!
# Calls of entrypoints

An argument of an entrypoint is one of the parameter once it is wrapped for the way to the leaf.
Whether it is accepted can be asked of the signature of the entrypoint or, wrapped, of the typedef
of the parameter. Both answers are those of the type of the leaf, however much of the nest around
the leaf was kept whole.

## Main definitions

* `Expr.wrappedFor`: a value behind the wrappers of a way

## Main results

* `Entrypoints.hasType_wrappedFor_iff`: the wrapped values of a type are the values at the end of
  the way
* `Entrypoints.accepts_signature_of_mem_discover`: calls by entrypoint and by parameter
-/

namespace Michelson

/-- What a payload on a side of an alternative is wrapped in. -/
def Side.wrapper : Side → Primitive
  | .left => .data .left
  | .right => .data .right

/-- **A value wrapped for a way** to a leaf, with the wrapper of the first step outermost. -/
def Expr.wrappedFor : List Side → Expr → Expr
  | [], v => v
  | side :: rest, v => .app side.wrapper [wrappedFor rest v]

namespace Entrypoints

variable {keep : Expr → Bool}

/-- **The wrapped values** of a type are those of what lies at the end of the way. -/
theorem hasType_wrappedFor_iff {r : Reading} {e leaf : Expr} {way : List Side}
    (h : follow? keep e way = some leaf) (v : Expr) :
    e.HasType r (v.wrappedFor way) ↔ leaf.HasType r v := by
  fun_induction follow? keep e way with
  | case1 e =>
    cases h
    rfl
  | case3 _ _ _ _ _ _ ih | case4 _ _ _ _ _ _ ih =>
    rw [Expr.wrappedFor, Expr.HasType, Expr.isEitherOf_iff, ← ih h]
    simp [Side.wrapper]
  | case2 | case5 => cases h

/-- The signature of an entrypoint accepts the values of its leaf, unless that is an option around
a pair. -/
theorem accepts_signature_iff {id : Nat} {name : String} {branch : List Side} {leaf : Expr}
    {entry : Entrypoint} (h : ofLeaf id name branch leaf = .ok entry)
    (hleaf : leaf.isOptionalPair = false) (v : Expr) :
    entry.signature.accepts v = true ↔ leaf.HasType .checked v := by
  obtain ⟨t, ht, hsignature⟩ := Entrypoint.signature_of_ofLeaf h
  have hoptional : (t.optional && !t.isStruct) = t.optional := by
    rw [← ht.optional_and_isStruct_eq] at hleaf
    cases hstruct : t.isStruct <;> simp_all
  rw [hsignature, hoptional, ← ht.accepts_iff]
  exact iff_of_eq (congrArg (· = true) (Typedef.accepts_rename t name v))

/-- **Calls by entrypoint and by parameter.** If the leaf of an entrypoint is no option around a
pair, then its signature accepts just those values that the typedef of the parameter accepts once
they are wrapped for the way to the leaf. -/
theorem accepts_signature_of_mem_discover (parameter : Expr) (keep : List String)
    (es : Entrypoints) (h : discover parameter keep = .ok es) :
    ∀ e ∈ es.entries, e.leaf.isOptionalPair = false →
      ∀ name, ∃ t, Typedef.derive parameter name = .ok t ∧
        ∀ v, e.signature.accepts v = true ↔ t.accepts (v.wrappedFor e.branch) = true := by
  intro e he hleaf name
  obtain ⟨hasDefault, found, hleaves, hadd⟩ := addLeaves_of_discover h
  have hnamed : Named hasDefault found found.length es := named_of_addLeaves [] hadd .nil
  obtain ⟨way, hway, hfollow, -, -⟩ := hleaves.follow?_eq_some _ _ _ (hnamed.leaf e he)
  obtain rfl : way = e.branch := hway.symm
  have hparameter : (parameterType parameter).HasTypedef :=
    hleaves.hasTypedef (hasTypedef_of_addLeaves hadd)
  obtain ⟨t, hder⟩ := hparameter.derives name []
  refine ⟨t, ?_, fun v => ?_⟩
  · rw [Typedef.derive, sectionType_eq_parameterType hparameter]
    exact hder.build_eq
  · calc e.signature.accepts v = true
        ↔ e.leaf.HasType .checked v := accepts_signature_iff (ofLeaf_of_mem_discover h e he) hleaf v
      _ ↔ (parameterType parameter).HasType .checked (v.wrappedFor e.branch) :=
          (hasType_wrappedFor_iff hfollow v).symm
      _ ↔ t.accepts (v.wrappedFor e.branch) = true := (hder.accepts_iff _).symm

/-- A parameter with a nest for purchases and sales, and a way to stop. -/
def tradeParameter : Expr :=
  .app (.keyword .parameter)
    [.app (.type .or)
      [.app (.type .unit) [] ["%stop"],
        .app (.type .or)
          [.app (.type .pair) [.plainType .nat, .plainType .mutez, .plainType .address] ["%buy"],
            .app (.type .option) [.plainType .nat] ["%sell"]]
          ["%trade"]]]

/-- A purchase, as an argument of the nest. -/
def purchase : Expr :=
  .app (.data .left) [.seq [.int 3, .int 250000, .string "tz1burnburnburnburnburnburnburjAYjjX"]]

/-- The nest is kept whole as an entrypoint and flattened in the typedef of the parameter. -/
theorem accepts_signature_of_mem_discover_trade :
    ∃ es, discover tradeParameter ["trade"] = .ok es ∧ ∃ e ∈ es.entries,
      e.branch = [.right] ∧ e.leaf.isOptionalPair = false ∧ e.signature.accepts purchase = true ∧
      ∃ t, Typedef.derive tradeParameter "call" = .ok t ∧
        t.accepts (.app (.data .right) [purchase]) = true := by
  have hrun : (discover tradeParameter ["trade"]).toOption.map
      (·.entries.map fun e =>
        (e.branch, e.leaf.isOptionalPair, e.signature.accepts purchase)) =
      some [([.left], false, false), ([.right], false, true)] := by
    decide +kernel
  obtain ⟨es, hes, hentries⟩ := map_toOption_eq_some_iff.mp hrun
  have hmem : ([Side.right], false, true) ∈ es.entries.map fun e =>
      (e.branch, e.leaf.isOptionalPair, e.signature.accepts purchase) := by
    rw [hentries]
    exact .tail _ (.head _)
  obtain ⟨e, he, heq⟩ := List.mem_map.mp hmem
  obtain ⟨hbranch, hleaf, haccepts⟩ :
      e.branch = [.right] ∧ e.leaf.isOptionalPair = false ∧
        e.signature.accepts purchase = true := by
    simpa using heq
  obtain ⟨t, ht, hcalls⟩ :=
    accepts_signature_of_mem_discover tradeParameter ["trade"] es hes e he hleaf "call"
  have hcall := (hcalls purchase).mp haccepts
  rw [hbranch] at hcall
  exact ⟨es, hes, e, he, hbranch, hleaf, haccepts, t, ht, hcall⟩

end Entrypoints

end Michelson

import Michelson.Proofs.Marshal.Outline

/-!
# The two forms of a map

A map is given as an object, whose members are its entries, or as an array of entries, each of them
an object with a key and a value. In an object the keys are texts, the names of the members. Both
forms stand for the same map, unless the only member of an object has the name of the typedef: such
an object stands for what that member holds, as it does wherever a type has a name.

## Main definitions

* `Json.ofEntries`: the array of the entries that the members of an object are
* `Json.asEntries`: a host value with such an array in place of an object

## Main results

* `Typedef.marshalEntries_ofEntries`: the entries that an object stands for
* `Typedef.marshal_object_eq`: an object and the array of its entries
* `Typedef.marshal_object_ne_ofEntries`: a key that is the name of the map
-/

namespace Michelson

/-- **The array of the entries** that the members of an object are. -/
def Json.ofEntries (members : List (String × Json)) : Json :=
  .array (members.map fun m => .object [("key", .string m.1), ("value", m.2)])

/-- A host value in which the entries of an object are written as an array. -/
def Json.asEntries : Json → Json
  | .object members => ofEntries members
  | value => value

namespace Typedef

variable {form : ScalarForm} {t : Typedef}

/-- An entry that is written out as an object is read back from it. -/
theorem hostEntry_object (key value : Json) :
    t.hostEntry (.object [("key", key), ("value", value)]) = .ok (key, value) := rfl

/-- **The entries of an object**, whose keys are built from the names of its members, are those of the
array of its entries. -/
theorem marshalEntries_ofEntries (members : List (String × Json)) (parts : List Typedef) :
    marshalEntries form t (Json.ofEntries members) parts =
      marshalEntries form t (.object members) parts := by
  match parts with
  | [] | [_] => rfl
  | keyType :: valueType :: rest =>
    rw [Json.ofEntries, marshalEntries, marshalEntries, List.mapM_map]
    refine mapM_congr_of_mem fun m _ => ?_
    rw [Function.comp_apply, hostEntry_object]
    rfl

/-- What is built depends on what the host value is without the name of the typedef. -/
theorem marshal_congr {value value' : Json} (h : t.unwrapName value = t.unwrapName value') :
    t.marshal form value = t.marshal form value' := by
  rw [marshal_eq, marshal_eq, h]

section Maps

variable (hkind : t.kind = .type .map ∨ t.kind = .type .bigMap)

include hkind

theorem marshalHeld_ofEntries (members : List (String × Json)) :
    marshalHeld form t (Json.ofEntries members) = marshalHeld form t (.object members) := by
  unfold marshalHeld
  rcases hkind with hkind | hkind
  · rw [hkind]
    simp only
    rw [marshalEntries_ofEntries]
  · rw [hkind]
    simp only [Json.ofEntries]
    rw [← Json.ofEntries, marshalEntries_ofEntries]

/-- What is built for an object that is read as it is, or is what another one holds. -/
theorem marshal_ofEntries {value : Json} {members : List (String × Json)}
    (hvalue : t.unwrapName value = .object members) :
    t.marshal form value = t.marshal form (Json.ofEntries members) := by
  have harray : t.unwrapName (Json.ofEntries members) = Json.ofEntries members := rfl
  have hheld : marshalHeld form t (Json.ofEntries members) = marshalHeld form t (.object members) :=
    marshalHeld_ofEntries hkind members
  rw [marshal_eq, marshal_eq, hvalue, harray]
  rw [Json.ofEntries] at hheld ⊢
  cases t.optional <;> simp only [hheld]

omit hkind in
theorem unwrapName_object {members : List (String × Json)}
    (h : ∀ inner, members ≠ [(t.name, inner)]) :
    t.unwrapName (.object members) = .object members := by
  rw [unwrapName.eq_def]
  split
  next name inner heq =>
    have hname : name ≠ t.name := by
      rintro rfl
      exact h inner (Json.object.inj heq)
    rw [if_neg hname, ite_self, heq]
  next => rfl

theorem unwrapName_ownName (inner : Json) :
    t.unwrapName (.object [(t.name, inner)]) = inner := by
  have hstruct : t.isStruct = false := by rcases hkind with h | h <;> rw [isStruct, h] <;> rfl
  have hunion : t.isUnion = false := by rcases hkind with h | h <;> rw [isUnion, h] <;> rfl
  rw [unwrapName, hstruct, hunion]
  simp

/-- **The two forms of a map agree**: the same value, or the same failure, is built for an object
and for the array of its entries. An object whose only member has the name of the map stands for
what that member holds, read as it is or, if it is an object in turn, by its entries. -/
theorem marshal_object_eq (form : ScalarForm) (members : List (String × Json)) :
    ((∀ inner, members ≠ [(t.name, inner)]) →
      t.marshal form (.object members) = t.marshal form (Json.ofEntries members)) ∧
    ∀ inner, members = [(t.name, inner)] →
      t.marshal form (.object members) = t.marshal form inner.asEntries := by
  refine ⟨fun h => marshal_ofEntries hkind (unwrapName_object h), ?_⟩
  rintro inner rfl
  have hname := unwrapName_ownName hkind inner
  match inner with
  | .object _ => exact marshal_ofEntries hkind hname
  | .null | .bool _ | .number _ | .string _ | .array _ =>
    exact marshal_congr hname

end Maps

/-- A map from texts to amounts. -/
def ledgerType : Expr :=
  .app (.type .map) [.plainType .string, .plainType .nat] ["%ledger"]

theorem marshal_object_eq_ledger :
    ∃ t, derive ledgerType "map" = .ok t ∧ (t.kind = .type .map ∨ t.kind = .type .bigMap) ∧
      t.marshal .readable (.object [("b", .string "2"), ("a", .string "01")]) =
        t.marshal .readable (Json.ofEntries [("b", .string "2"), ("a", .string "01")]) ∧
      t.marshal .readable (.object [(t.name, .object [(t.name, .string "3")])]) =
        t.marshal .readable (Json.ofEntries [(t.name, .string "3")]) :=
  ⟨_, rfl, .inl rfl, (marshal_object_eq (.inl rfl) _ _).1 (by simp),
    (marshal_object_eq (.inl rfl) _ _).2 _ rfl⟩

/-- **A key that is the name of the map** is not read as a key if no other is in an object. -/
theorem marshal_object_ne_ofEntries :
    ∃ t, derive ledgerType "map" = .ok t ∧ ∃ members,
      t.marshal .readable (.object members) ≠ t.marshal .readable (Json.ofEntries members) := by
  refine ⟨_, rfl, [("ledger", .string "5")], fun h => ?_⟩
  have hok := congrArg Except.isOk h
  revert hok
  decide +kernel

end Typedef

end Michelson

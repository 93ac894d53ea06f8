import Michelson.Marshal.Value
import Michelson.Proofs.Json.Document

/-!
# Host values for the parts of a typedef

When a value is built from a host value, each part of the typedef reads a host value of its own: a
field reads a member or an item, a group in a struct the object that the struct reads, a branch what
is under its name, and the components of a collection what the items and entries are. All of them
are parts of the one host value, but for the null of what is left out and the texts that the names
of members are.

## Main definitions

* `Json.Holds`: the parts of a host value
* `Typedef.Enters`: the keys and values of entries
* `Typedef.Passes`: what a component reads
* `Typedef.Supplies`: what reaches the parts of a typedef

## Main results

* `Typedef.Supplies.holds`: what reaches a part is a part of the host value
-/

namespace Michelson

/-! ## Parts of host values -/

namespace Json

/-- **Whether a value holds another one**: it is that value itself, or some item or member holds
it. -/
inductive Holds : Json → Json → Prop where
  | self (value : Json) : Holds value value
  | item {items : List Json} {x part : Json} (hx : x ∈ items) (h : Holds x part) :
      Holds (.array items) part
  | member {members : List (String × Json)} {m : String × Json} {part : Json} (hm : m ∈ members)
      (h : Holds m.2 part) : Holds (.object members) part

theorem Holds.trans {value x y : Json} (hx : value.Holds x) (hy : x.Holds y) : value.Holds y := by
  induction hx with
  | self => exact hy
  | item hmem _ ih => exact .item hmem (ih hy)
  | member hmem _ ih => exact .member hmem (ih hy)

theorem holds_of_lookup? {members : List (String × Json)} {name : String} {x : Json}
    (h : lookup? name members = some x) : Holds (.object members) x := by
  obtain ⟨m, hm, rfl⟩ := exists_mem_of_lookup? h
  exact .member hm (.self m.2)

end Json

namespace Typedef

/-! ## What parts of a typedef read -/

/-- **Whether a key and a value are those of an entry** of what a map reads: of a member of an object,
which has the text of the key for a name, or of an item of an array. -/
inductive Enters (t : Typedef) : Json → Json → Json → Prop where
  | member {members : List (String × Json)} {m : String × Json} (hm : m ∈ members) :
      Enters t (.object members) (.string m.1) m.2
  | item {items : List Json} {item key value : Json} (hitem : item ∈ items)
      (hentry : t.hostEntry item = .ok (key, value)) : Enters t (.array items) key value

/-- Whether a component reads a host value where the typedef reads the other one: as a field of a
struct, as the branch of a union that is named, as an item, or in an entry. -/
inductive Passes (t : Typedef) (value : Json) : Typedef → Json → Prop where
  | field {i : Nat} {c : Typedef} {x : Json} (hkind : t.kind = .struct)
      (hc : t.args[i]? = some c) (hx : t.hostField (t.unwrapName value) i c = .ok x) :
      Passes t value c x
  | branch {c : Typedef} {x : Json} (hkind : t.kind = .union)
      (hx : t.hostBranch (t.unwrapName value) = .ok (c, x)) : Passes t value c x
  | item {c : Typedef} {rest : List Typedef} {items : List Json} {x : Json}
      (hkind : t.kind.isType .list = true ∨ t.kind.isType .set = true)
      (hargs : t.args = c :: rest) (hitems : t.hostItems (t.unwrapName value) = .ok items)
      (hx : x ∈ items) : Passes t value c x
  | key {c d : Typedef} {rest : List Typedef} {x y : Json}
      (hkind : t.kind.isType .map = true ∨ t.kind.isType .bigMap = true)
      (hargs : t.args = c :: d :: rest) (hx : t.Enters (t.unwrapName value) x y) :
      Passes t value c x
  | value {c d : Typedef} {rest : List Typedef} {x y : Json}
      (hkind : t.kind.isType .map = true ∨ t.kind.isType .bigMap = true)
      (hargs : t.args = c :: d :: rest) (hx : t.Enters (t.unwrapName value) x y) :
      Passes t value d y

section Passing

variable {t c b : Typedef} {value x inner : Json}

/-- The branch that is named is the first one that has its name. -/
theorem find?_of_hostBranch (h : t.hostBranch value = .ok (b, inner)) :
    t.args.find? (·.name == b.name) = some b := by
  unfold hostBranch at h
  split at h
  · split at h
    next name _ _ _ hfind =>
      cases h
      have hname := List.find?_some hfind
      simp only [beq_iff_eq] at hname
      rw [hname]
      exact hfind
    next => cases h
  · cases h
  · cases h

theorem Passes.mem_args (h : t.Passes value c x) : c ∈ t.args := by
  cases h with
  | field _ hc _ => exact List.mem_of_getElem? hc
  | branch _ hx => exact List.mem_of_find?_eq_some (find?_of_hostBranch hx)
  | item _ hargs _ _ | key _ hargs _ =>
    rw [hargs]
    exact List.mem_cons_self
  | value _ hargs _ =>
    rw [hargs]
    exact List.mem_cons_of_mem _ List.mem_cons_self

end Passing

/-- **The host values that reach the parts of a typedef**, which reads the first of them itself. -/
inductive Supplies : Typedef → Json → Typedef → Json → Prop where
  | self (t : Typedef) (value : Json) : Supplies t value t value
  | part {t c d : Typedef} {value x y : Json} (hpass : t.Passes value c x)
      (h : Supplies c x d y) : Supplies t value d y

section Supplying

variable {t c d : Typedef} {value x y : Json}

theorem holds_unwrapName (t : Typedef) (value : Json) : value.Holds (t.unwrapName value) := by
  unfold unwrapName
  split
  · split
    · exact .self _
    · split
      · exact .member (List.mem_singleton.mpr rfl) (.self _)
      · exact .self _
  · exact .self _

/-- A field reads a part of what the struct reads, unless it is left out. -/
theorem holds_of_hostField {i : Nat} (h : t.hostField value i c = .ok x) :
    value.Holds x ∨ x = .null := by
  unfold hostField at h
  split at h
  · split at h
    next hlookup =>
      cases h
      exact .inl (Json.holds_of_lookup? hlookup)
    next =>
      split at h
      · cases h
        exact .inr rfl
      · split at h <;> cases h
        exact .inl (.self _)
  · split at h
    next hitem =>
      cases h
      exact .inl (.item (List.mem_of_getElem? hitem) (.self _))
    next => cases h
  · cases h

theorem holds_of_hostBranch (h : t.hostBranch value = .ok (c, x)) : value.Holds x := by
  unfold hostBranch at h
  split at h
  · split at h <;> cases h
    exact .member (List.mem_singleton.mpr rfl) (.self _)
  · cases h
  · cases h

theorem holds_of_hostItems {items : List Json} (h : t.hostItems value = .ok items)
    (hx : x ∈ items) : value.Holds x := by
  unfold hostItems at h
  split at h <;> cases h
  exact .item hx (.self x)

/-- The key and the value of an entry are parts of what the map reads, unless the key is the name of
a member or the value is left out. -/
theorem Enters.holds (h : t.Enters value x y) :
    (value.Holds x ∨ ∃ s, x = .string s) ∧ (value.Holds y ∨ y = .null) := by
  cases h with
  | @member members m hm => exact ⟨.inr ⟨m.1, rfl⟩, .inl (.member hm (.self m.2))⟩
  | item hitem hentry =>
    unfold hostEntry at hentry
    split at hentry
    · split at hentry
      next hkey =>
        cases hentry
        refine ⟨.inl (.item hitem (Json.holds_of_lookup? hkey)), ?_⟩
        cases hlookup : Json.lookup? "value" _ with
        | none => exact .inr rfl
        | some v => exact .inl (.item hitem (Json.holds_of_lookup? hlookup))
      next => cases hentry
    · cases hentry

/-- **What a component reads** is a part of what the typedef reads, unless it is null or a text. -/
theorem Passes.holds (h : t.Passes value c x) :
    value.Holds x ∨ x = .null ∨ ∃ s, x = .string s := by
  have hunwrap := holds_unwrapName t value
  cases h with
  | field _ _ hx => exact (holds_of_hostField hx).imp hunwrap.trans .inl
  | branch _ hx => exact .inl (hunwrap.trans (holds_of_hostBranch hx))
  | item _ _ hitems hx => exact .inl (hunwrap.trans (holds_of_hostItems hitems hx))
  | key _ _ hx => exact hx.holds.1.imp hunwrap.trans .inr
  | value _ _ hx => exact hx.holds.2.imp hunwrap.trans .inl

/-- **What reaches a part of the typedef** is a part of the host value, unless it is null or a
text. -/
theorem Supplies.holds (h : t.Supplies value d x) :
    value.Holds x ∨ x = .null ∨ ∃ s, x = .string s := by
  induction h with
  | self => exact .inl (.self _)
  | part hpass _ ih =>
    rcases ih with ih | ih
    · rcases hpass.holds with hheld | rfl | ⟨s, rfl⟩
      · exact .inl (hheld.trans ih)
      · cases ih
        exact .inr (.inl rfl)
      · cases ih
        exact .inr (.inr ⟨s, rfl⟩)
    · exact .inr ih

end Supplying

end Typedef

end Michelson

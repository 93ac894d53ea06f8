import Michelson.Typedef.Basic

/-!
# Equivalence of typedefs

Typedefs are compared by structure: kinds, options and components at every level, with names or
without. A looser comparison asks whether values of one typedef may serve for another.

## Main definitions

* `Typedef.equal`: equal up to names and paths
* `Typedef.strictEqual`: equal up to paths
* `Typedef.similar`: whether the second typedef may serve for the first
-/

namespace Michelson.Typedef

mutual
/-- Whether two typedefs have equal kinds, options and components at every level. -/
def equal : Typedef → Typedef → Bool
  | ⟨_, kind, optional, args, _⟩, ⟨_, kind', optional', args', _⟩ =>
    kind == kind' && optional == optional' && equalAll args args'
/-- Whether two lists of typedefs are equal item by item. -/
def equalAll : List Typedef → List Typedef → Bool
  | [], [] => true
  | t :: ts, u :: us => equal t u && equalAll ts us
  | _, _ => false
end

mutual
/-- Whether two typedefs have equal names, kinds, options and components at every level. -/
def strictEqual : Typedef → Typedef → Bool
  | ⟨name, kind, optional, args, _⟩, ⟨name', kind', optional', args', _⟩ =>
    name == name' && kind == kind' && optional == optional' && strictEqualAll args args'
/-- Whether two lists of typedefs are strictly equal item by item. -/
def strictEqualAll : List Typedef → List Typedef → Bool
  | [], [] => true
  | t :: ts, u :: us => strictEqual t u && strictEqualAll ts us
  | _, _ => false
end

namespace Kind

/-- Whether a kind is that of lists or sets. -/
def isSequence (kind : Kind) : Bool := kind.isType .list || kind.isType .set

/-- Whether a kind is that of lists, sets or maps. -/
def isCollection (kind : Kind) : Bool :=
  kind.isSequence || kind.isType .map || kind.isType .bigMap

end Kind

/-- Whether a kind with these components is that of a list or set of unknown items. -/
def isOpenSequence (kind : Kind) (args : List Typedef) : Bool := args.isEmpty && kind.isSequence

mutual
/-- Whether the second typedef may serve for the first: a mandatory one for an optional one, but
not the other way round, and any collection for a sequence of unknown items, either way. -/
def similar : Typedef → Typedef → Bool
  | ⟨_, kind, optional, args, _⟩, ⟨_, kind', optional', args', _⟩ =>
    if optional ≠ optional' then optional
    else if (isOpenSequence kind args && kind'.isCollection)
        || (isOpenSequence kind' args' && kind.isCollection) then true
    else kind == kind' && similarAll args args'
/-- Whether the second list of typedefs may serve for the first, item by item. -/
def similarAll : List Typedef → List Typedef → Bool
  | [], [] => true
  | t :: ts, u :: us => similar t u && similarAll ts us
  | _, _ => false
end

end Michelson.Typedef

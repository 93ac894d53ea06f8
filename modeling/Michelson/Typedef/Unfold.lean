import Michelson.Typedef.Basic

/-!
# The unfolded form of typedefs

A struct nested in a struct without a name of its own is only a way to group fields. In the
unfolded form its fields stand in its place, and fields named by position are numbered anew, so
that all groupings of the same fields have one form.

## Main definitions

* `Typedef.unfold`: the unfolded form
-/

namespace Michelson.Typedef

/-- Whether a component of a struct is only a group of further fields. -/
def isGroup (t : Typedef) : Bool := t.isStruct && !t.optional && t.isAnonymous

/-- Gives its position as a name to each field that is named by a position. -/
def renumber (fields : List Typedef) : List Typedef :=
  fields.mapIdx fun i t => if isPositionalName t.name then { t with name := toString i } else t

/-- Fields with the groups among them replaced by what they hold. -/
def inlineGroups (fields : List Typedef) : List Typedef :=
  fields.flatMap fun t => if t.isGroup then t.args else [t]

mutual
/-- **The unfolded form**: at every struct, groups are replaced by what they hold and fields
without a name of their own are numbered. -/
def unfold : Typedef → Typedef
  | ⟨name, kind, optional, args, path⟩ =>
    let parts := unfoldAll args
    ⟨name, kind, optional,
      if kind = .struct then renumber (inlineGroups parts) else parts, path⟩
/-- The unfolded forms of typedefs. -/
def unfoldAll : List Typedef → List Typedef
  | [] => []
  | t :: ts => unfold t :: unfoldAll ts
end

@[simp] theorem unfoldAll_eq_map (ts : List Typedef) : unfoldAll ts = ts.map unfold := by
  induction ts with
  | nil => rfl
  | cons t ts ih => simp [unfoldAll, ih]

/-- The unfolded form of a struct. -/
theorem unfold_struct (name : String) (optional : Bool) (args : List Typedef) (path : List Nat) :
    unfold ⟨name, .struct, optional, args, path⟩ =
      ⟨name, .struct, optional, renumber (inlineGroups (args.map unfold)), path⟩ := by
  rw [unfold, unfoldAll_eq_map, if_pos rfl]

/-- The unfolded form of anything else than a struct. -/
theorem unfold_of_ne {kind : Kind} (h : kind ≠ .struct) (name : String) (optional : Bool)
    (args : List Typedef) (path : List Nat) :
    unfold ⟨name, kind, optional, args, path⟩ =
      ⟨name, kind, optional, args.map unfold, path⟩ := by
  rw [unfold, unfoldAll_eq_map, if_neg h]

@[simp] theorem name_unfold (t : Typedef) : t.unfold.name = t.name := by
  cases t; simp [unfold]

@[simp] theorem kind_unfold (t : Typedef) : t.unfold.kind = t.kind := by
  cases t; simp [unfold]

@[simp] theorem optional_unfold (t : Typedef) : t.unfold.optional = t.optional := by
  cases t; simp [unfold]

@[simp] theorem path_unfold (t : Typedef) : t.unfold.path = t.path := by
  cases t; simp [unfold]

end Michelson.Typedef

import Mathlib.Data.List.Forall2
import Michelson.Proofs.Marshal.Parts
import Michelson.Proofs.Typedef.Layout

/-!
# Combs in place of fields

If the fields of a comb lie at the leaves of a tree, the comb is assembled. Each field that is a
comb itself may then be replaced by the fields of that, seen from further up: the same comb is
assembled from what stands in place of the fields.

## Main definitions

* `Expr.Assembles`: fields at the leaves of a tree and their comb
* `Expr.StandsFor`: fields in place of one field

## Main results

* `Expr.exists_assembles`: fields at the leaves of a tree have a comb
* `Expr.Assembles.flatten`: the comb of what stands in place of fields
-/

namespace Michelson.Expr

/-- **Fields at the leaves of a tree, and their comb.** -/
inductive Assembles : List (List Nat × Expr) → Expr → Prop where
  | leaf (e : Expr) : Assembles [([], e)] e
  | pair {ls rs : List (List Nat × Expr)} {l r : Expr} (hl : Assembles ls l)
      (hr : Assembles rs r) :
      Assembles (ls.map (under [0]) ++ rs.map (under [1])) (.app (.data .pair) [l, r])

/-- The comb is what is assembled. -/
theorem Assembles.assemble?_eq {fields : List (List Nat × Expr)} {e : Expr}
    (h : Assembles fields e) : assemble? fields = some e := by
  induction h with
  | leaf e => exact assemble?_singleton e
  | pair _ _ ihl ihr =>
    rw [assemble?_append, ihl, ihr]
    rfl

/-- Fields to which all ways have the same step in front are seen from further up. -/
theorem exists_under_of_map {i : Nat} {fields : List (List Nat × Expr)} {ways : List (List Nat)}
    (h : fields.map (·.1) = ways.map (i :: ·)) :
    ∃ fields' : List (List Nat × Expr), fields = fields'.map (under [i]) ∧
      fields'.map (·.1) = ways := by
  induction fields generalizing ways with
  | nil => exact ⟨[], rfl, (List.map_eq_nil_iff.mp h.symm).symm⟩
  | cons f fields ih =>
    obtain ⟨way, ways, rfl, hway, hways⟩ := List.map_eq_cons_iff.mp h.symm
    obtain ⟨fields', rfl, hfields'⟩ := ih hways.symm
    exact ⟨(way, f.2) :: fields', congrArg (· :: _) (Prod.ext hway.symm rfl),
      congrArg (way :: ·) hfields'⟩

/-- **Fields at the leaves of a tree** have a comb. -/
theorem exists_assembles (s : BinaryTree) {fields : List (List Nat × Expr)}
    (h : fields.map (·.1) = s.addresses) : ∃ e, Assembles fields e := by
  induction s generalizing fields with
  | leaf =>
    obtain ⟨⟨way, e⟩, rfl, hway⟩ := List.map_eq_singleton_iff.mp h
    cases hway
    exact ⟨e, .leaf e⟩
  | node left right ihl ihr =>
    obtain ⟨ls, rs, rfl, hls, hrs⟩ := List.map_eq_append_iff.mp h
    obtain ⟨ls', rfl, hls'⟩ := exists_under_of_map hls
    obtain ⟨rs', rfl, hrs'⟩ := exists_under_of_map hrs
    obtain ⟨l, hl⟩ := ihl hls'
    obtain ⟨r, hr⟩ := ihr hrs'
    exact ⟨_, hl.pair hr⟩

/-- Whether fields stand for one field: they are those of a comb which that field is, seen from
where the field is seen. -/
def StandsFor (piece : List (List Nat × Expr)) (field : List Nat × Expr) : Prop :=
  ∃ inner, Assembles inner field.2 ∧ piece = inner.map (under field.1)

/-- A field stands for itself. -/
theorem standsFor_self (field : List Nat × Expr) : StandsFor [field] field :=
  ⟨[([], field.2)], .leaf _, by simp [under]⟩

theorem under_nil : under [] = id := rfl

theorem under_under (way way' : List Nat) (field : List Nat × Expr) :
    under way (under way' field) = under (way ++ way') field := by
  simp [under]

/-- What stands for fields that are seen from further up does so from nearby. -/
theorem exists_of_standsFor_under {i : Nat} {fields : List (List Nat × Expr)}
    {pieces : List (List (List Nat × Expr))}
    (h : List.Forall₂ StandsFor pieces (fields.map (under [i]))) :
    ∃ pieces' : List (List (List Nat × Expr)), List.Forall₂ StandsFor pieces' fields ∧
      pieces.flatten = pieces'.flatten.map (under [i]) := by
  induction fields generalizing pieces with
  | nil =>
    cases h
    exact ⟨[], .nil, rfl⟩
  | cons f fields ih =>
    obtain ⟨_, pieces, ⟨inner, hinner, rfl⟩, hrest, rfl⟩ := List.forall₂_cons_right_iff.mp h
    obtain ⟨pieces', hpieces', heq⟩ := ih hrest
    refine ⟨inner.map (under f.1) :: pieces', .cons ⟨inner, hinner, rfl⟩ hpieces', ?_⟩
    simp only [List.flatten_cons, heq, List.map_append, List.map_map]
    exact congrArg (· ++ _) (List.map_congr_left fun g _ => (under_under [i] f.1 g).symm)

/-- **The comb of what stands in place of fields** is that of the fields. -/
theorem Assembles.flatten {fields : List (List Nat × Expr)} {e : Expr} (h : Assembles fields e)
    {pieces : List (List (List Nat × Expr))} (hpieces : List.Forall₂ StandsFor pieces fields) :
    Assembles pieces.flatten e := by
  induction h generalizing pieces with
  | leaf e =>
    obtain ⟨_, pieces, ⟨inner, hinner, rfl⟩, hrest, rfl⟩ := List.forall₂_cons_right_iff.mp hpieces
    cases hrest
    rw [under_nil, List.map_id, List.flatten_singleton]
    exact hinner
  | pair hl hr ihl ihr =>
    obtain ⟨lefts, hlefts, hl'⟩ :=
      exists_of_standsFor_under (List.forall₂_take_append _ _ _ hpieces)
    obtain ⟨rights, hrights, hr'⟩ :=
      exists_of_standsFor_under (List.forall₂_drop_append _ _ _ hpieces)
    rw [← List.take_append_drop _ pieces, List.flatten_append, hl', hr']
    exact (ihl hlefts).pair (ihr hrights)

end Michelson.Expr

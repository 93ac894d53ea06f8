import Michelson.Proofs.Typedef.Layout
import Michelson.Proofs.Typing.Acceptance

/-!
# Conformance and the unfolded form

The unfolded form of a derived typedef accepts the same values. A field that took the place of a
group keeps the path that it had in the group, and from the struct above that path is longer: the
comb that the group was is passed on the way. Nothing is lost with the check of the group itself,
since some field of it lies behind every step to it.

## Main results

* `Expr.combField?_append`: a path in a comb is followed piece by piece
* `Typedef.holdsFields_args_iff`: a group and what it holds
* `Typedef.accepts_unfold`: typedefs that are laid out well
* `Typedef.accepts_unfold_of_derive`: derived typedefs
-/

namespace Michelson

/-- A path in a comb is followed piece by piece. -/
theorem Expr.combField?_append (v : Expr) (path more : List Nat) :
    v.combField? (path ++ more) = (v.combField? path).bind (·.combField? more) := by
  induction path generalizing v with
  | nil => rfl
  | cons i path ih =>
    rw [List.cons_append, combField?, combField?]
    split
    next =>
      rw [Option.bind_assoc]
      exact congrArg _ (funext fun x => ih x)
    next => rfl

namespace Typedef

/-! ## Groups -/

theorem holdsFields_renumber_iff (depth : Nat) (ts : List Typedef) (v : Expr) :
    HoldsFields depth (renumber ts) v ↔ HoldsFields depth ts v := by
  refine holdsFields_mapIdx_iff (fun i t => ?_) depth ts v
  obtain ⟨name, kind, optional, args, path⟩ := t
  split
  next => exact ⟨_, rfl⟩
  next => exact ⟨name, rfl⟩

/-- **A group and what it holds** are found in the same combs. -/
theorem holdsFields_args_iff {path : List Nat} {t : Typedef} (hpath : path <+: t.path)
    (hgroup : t.isGroup = true) (hlaid : t.WellLaid) (v : Expr) :
    HoldsFields path.length t.args v ↔ HoldsFields path.length [t] v := by
  obtain ⟨way, hway⟩ := hpath
  have hdrop : t.path.drop path.length = way := by rw [← hway, List.drop_left]
  have hfield : ∀ c ∈ t.args, v.combField? (c.path.drop path.length) =
      (v.combField? way).bind (·.combField? (c.path.drop t.path.length)) := by
    intro c hc
    obtain ⟨i, rest, hcpath⟩ := hlaid.below c hc
    rw [← Expr.combField?_append, hcpath, List.drop_left, ← hway, List.append_assoc,
      List.drop_left]
  have haccepts (x : Expr) : t.accepts x = true ↔ HoldsFields t.path.length t.args x := by
    obtain ⟨name, kind, optional, args, tpath⟩ := t
    simp only [isGroup, isStruct, Bool.and_eq_true, Bool.not_eq_true', beq_iff_eq] at hgroup
    obtain ⟨⟨rfl, rfl⟩, -⟩ := hgroup
    exact accepts_struct
  simp only [HoldsFields, List.forall_mem_singleton, hdrop, haccepts]
  constructor
  · intro h
    obtain ⟨_, hmem, -⟩ :=
      (hlaid.areLeaves (.inl (kind_of_isGroup hgroup))).complete [] (by simp)
    obtain ⟨c, hc, -⟩ := List.mem_map.mp hmem
    obtain ⟨y, hy, -⟩ := h c hc
    rw [hfield c hc] at hy
    obtain ⟨x, hx, -⟩ := Option.bind_eq_some_iff.mp hy
    refine ⟨x, hx, fun c hc => ?_⟩
    obtain ⟨z, hz, hzacc⟩ := h c hc
    rw [hfield c hc, hx] at hz
    exact ⟨z, hz, hzacc⟩
  · rintro ⟨x, hx, h⟩ c hc
    obtain ⟨y, hy, hyacc⟩ := h c hc
    refine ⟨y, ?_, hyacc⟩
    rw [hfield c hc, hx]
    exact hy

theorem holdsFields_inlineGroups_iff {path : List Nat} {ts : List Typedef}
    (hpaths : ∀ t ∈ ts, path <+: t.path) (hlaid : ∀ t ∈ ts, t.WellLaid) (v : Expr) :
    HoldsFields path.length (inlineGroups ts) v ↔ HoldsFields path.length ts v := by
  rw [HoldsFields, inlineGroups, List.forall_mem_flatMap, HoldsFields]
  refine forall₂_congr fun t ht => ?_
  have hone : HoldsFields path.length [t] v ↔
      ∃ x, v.combField? (t.path.drop path.length) = some x ∧ t.accepts x = true :=
    List.forall_mem_singleton
  rw [← hone]
  show HoldsFields path.length (if t.isGroup then t.args else [t]) v ↔ _
  split
  next hgroup => exact holdsFields_args_iff (hpaths t ht) hgroup (hlaid t ht) v
  next => exact Iff.rfl

/-! ## Unfolded forms -/

/-- The unfolded form of a typedef that is laid out well accepts the same values. -/
theorem accepts_unfold (t : Typedef) (h : ∀ d ∈ t.nodes, d.WellLaid) (v : Expr) :
    t.unfold.accepts v = t.accepts v := by
  -- Induction on the typedef: the components accept the same by hypothesis, and of the typedef
  -- itself nothing changes but that the groups of a struct give way to what they hold.
  induction t using args_induction generalizing v with
  | node t ih =>
    obtain ⟨name, kind, optional, args, path⟩ := t
    have hargs : ∀ arg ∈ args, ∀ d ∈ arg.nodes, d.WellLaid :=
      fun arg harg d hd => h d (mem_nodes.mpr (.inr ⟨arg, harg, hd⟩))
    have halike : List.Forall₂ Alike (args.map unfold) args := by
      rw [List.forall₂_map_left_iff, List.forall₂_same]
      exact fun arg harg => ⟨path_unfold arg, ih arg harg (hargs arg harg)⟩
    by_cases hkind : kind = .struct
    · subst hkind
      rw [unfold_struct, ← accepts_congr halike]
      cases optional with
      | true => rw [Bool.eq_iff_iff, accepts_optional, accepts_optional]
      | false =>
        have hroot := wellLaid_map_unfold (h _ (mem_nodes.mpr (.inl rfl)))
        have hlaid : ∀ t ∈ args.map unfold, t.WellLaid := by
          rw [List.forall_mem_map]
          exact fun arg harg =>
            (wellLaid_unfold arg (hargs arg harg) _ (mem_nodes.mpr (.inl rfl))).1
        rw [Bool.eq_iff_iff, accepts_struct, accepts_struct, holdsFields_renumber_iff]
        exact holdsFields_inlineGroups_iff hroot.isPrefix hlaid v
    · rw [unfold_of_ne hkind, ← accepts_congr halike]

/-- **Unfolding preserves conformance.** A derived typedef and its unfolded form accept the same
values, in whatever layout the combs are written. -/
theorem accepts_unfold_of_derive (type : Expr) (name : String) (t : Typedef)
    (h : derive type name = .ok t) (v : Expr) : t.accepts v = t.unfold.accepts v := by
  refine (accepts_unfold t ?_ v).symm
  intro d hd
  obtain ⟨x, -, hx⟩ := (derives_of_build _ _ _ _ h).of_mem_nodes d hd
  exact hx.wellLaid

/-- A value for the pair of pairs in `groupedSection`, written as a sequence within a pair. -/
def putValue : Expr :=
  .app (.data .left) [.app (.data .left) [.app (.data .pair)
    [.seq [.int 5, .int (-6)], .app (.data .pair) [.string "memo", .bytes [0]], .int 7]]]

theorem accepts_unfold_of_derive_putValue :
    ∃ t, derive groupedSection "main" = .ok t ∧ t.accepts putValue = true ∧
      t.unfold.accepts putValue = true := by
  have haccepts : (derive groupedSection "main").map (·.accepts putValue) = .ok true := by
    decide +kernel
  obtain ⟨t, ht, hacc⟩ := map_eq_ok_iff.mp haccepts
  have halike := accepts_unfold_of_derive groupedSection "main" t ht putValue
  exact ⟨t, ht, hacc, halike.symm.trans hacc⟩

end Typedef

end Michelson

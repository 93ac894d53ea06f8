import Michelson.Proofs.Typedef.Layout

/-!
# Unfolding once and for all

What unfolding brings about can be seen at every struct of the unfolded form: no group is left among
the fields, and a name by position tells the position. Where this can be seen already nothing
changes, so that unfolding a second time has no effect. Besides the names by position, only the
groups are lost: all other parts of the typedef are found in the unfolded form again, in the same
order.

## Main definitions

* `Typedef.Settled`: what can be seen at every node of an unfolded form
* `Typedef.keptNodes`: all parts of a typedef but the groups in its structs

## Main results

* `Typedef.settled_of_mem_nodes_unfold`: what unfolding brings about
* `Typedef.unfold_eq_self_iff`: where unfolding changes nothing
* `Typedef.map_spot_nodes_unfold`: what unfolding keeps
* `Typedef.unfold_settles`: all three of an unfolded form
-/

namespace Michelson.Typedef

/-! ## Settled nodes -/

/-- Whether a name by position tells the position, wherever a struct has one among its fields. -/
def Numbered (d : Typedef) : Prop :=
  d.kind = .struct → ∀ (i : Nat) (c : Typedef), d.args[i]? = some c →
    isPositionalName c.name = true → c.name = toString i

/-- **What can be seen at every node of an unfolded form**: if it is a struct, it has no group among
its fields, and names by position tell the positions. -/
structure Settled (d : Typedef) : Prop where
  ungrouped : d.Ungrouped
  numbered : d.Numbered

theorem settled_of_ne {d : Typedef} (h : d.kind ≠ .struct) : d.Settled :=
  ⟨fun hkind => absurd hkind h, fun hkind => absurd hkind h⟩

theorem numbered_renumber (name : String) (kind : Kind) (optional : Bool) (ts : List Typedef)
    (path : List Nat) : Numbered ⟨name, kind, optional, renumber ts, path⟩ := by
  intro _ i c hc hname
  rw [renumber, List.getElem?_mapIdx, Option.map_eq_some_iff] at hc
  obtain ⟨t, -, rfl⟩ := hc
  split at hname
  next hpos => rw [if_pos hpos]
  next hpos => exact absurd hname hpos

/-- **What unfolding brings about** at all nodes of the unfolded form, of any typedef. -/
theorem settled_of_mem_nodes_unfold (t : Typedef) : ∀ d ∈ t.unfold.nodes, d.Settled := by
  refine forall_mem_nodes_unfold (fun f n h => ⟨h.ungrouped, h.numbered⟩) t ?_
  rintro ⟨name, kind, optional, args, path⟩ - hparts
  by_cases hkind : kind = .struct
  · subst hkind
    rw [unfold_struct]
    exact ⟨ungrouped_inlineGroups fun p hp => (hparts p hp).ungrouped,
      numbered_renumber _ _ _ _ _⟩
  · rw [unfold_of_ne hkind]
    exact settled_of_ne hkind

/-! ## Where nothing changes -/

theorem inlineGroups_eq_self {ts : List Typedef} (h : ∀ t ∈ ts, t.isGroup = false) :
    inlineGroups ts = ts := by
  induction ts with
  | nil => rfl
  | cons t ts ih =>
    rw [List.forall_mem_cons] at h
    rw [inlineGroups_cons, h.1, ih h.2]
    rfl

theorem rename_eq_self {t : Typedef} {n : String} (h : t.name = n) : { t with name := n } = t := by
  obtain ⟨name, kind, optional, args, path⟩ := t
  subst h
  rfl

theorem renumber_eq_self {ts : List Typedef}
    (h : ∀ (i : Nat) (c : Typedef), ts[i]? = some c → isPositionalName c.name = true →
      c.name = toString i) : renumber ts = ts := by
  refine List.ext_getElem (by simp [renumber]) fun i _ hi => ?_
  simp only [renumber, List.getElem_mapIdx]
  split
  next hpos => exact rename_eq_self (h i ts[i] (List.getElem?_eq_getElem hi) hpos)
  next => rfl

/-- **Nothing changes** where all nodes are settled. -/
theorem unfold_eq_self {t : Typedef} (h : ∀ d ∈ t.nodes, d.Settled) : t.unfold = t := by
  induction t using args_induction with
  | node t ih =>
    obtain ⟨name, kind, optional, args, path⟩ := t
    have hroot := h _ (mem_nodes.mpr (.inl rfl))
    have hargs : args.map unfold = args := by
      refine (List.map_congr_left fun c hc => ?_).trans (List.map_id' args)
      exact ih c hc fun d hd => h d (mem_nodes.mpr (.inr ⟨c, hc, hd⟩))
    by_cases hkind : kind = .struct
    · subst hkind
      rw [unfold_struct, hargs, inlineGroups_eq_self (hroot.ungrouped rfl),
        renumber_eq_self (hroot.numbered rfl)]
    · rw [unfold_of_ne hkind, hargs]

/-- **The unfolded forms** are the typedefs all of whose nodes are settled. -/
theorem unfold_eq_self_iff {t : Typedef} : t.unfold = t ↔ ∀ d ∈ t.nodes, d.Settled := by
  constructor
  · intro h d hd
    rw [← h] at hd
    exact settled_of_mem_nodes_unfold t d hd
  · exact unfold_eq_self

/-! ## What is kept -/

mutual
/-- **All parts of a typedef but the groups in its structs**, the typedef itself first. A group in a
struct stands only for the parts beneath it. -/
def keptNodes : Typedef → List Typedef
  | ⟨name, kind, optional, args, path⟩ =>
    ⟨name, kind, optional, args, path⟩ :: keptNodesAll (kind == .struct) args
/-- The parts of components but the groups, which are left out of the components of a struct. -/
def keptNodesAll (inStruct : Bool) : List Typedef → List Typedef
  | [] => []
  | t :: ts =>
    (if inStruct && t.isGroup then (keptNodes t).tail else keptNodes t) ++
      keptNodesAll inStruct ts
end

/-- What a part is and where it lies, whatever its name. -/
def spot (d : Typedef) : Kind × Bool × List Nat := (d.kind, d.optional, d.path)

theorem keptNodesAll_eq_flatMap (inStruct : Bool) (ts : List Typedef) :
    keptNodesAll inStruct ts =
      ts.flatMap fun t => if inStruct && t.isGroup then t.keptNodes.tail else t.keptNodes := by
  induction ts with
  | nil => rfl
  | cons t ts ih => rw [keptNodesAll, ih, List.flatMap_cons]

theorem nodesAll_eq_flatMap (ts : List Typedef) : nodesAll ts = ts.flatMap nodes := by
  induction ts with
  | nil => rfl
  | cons t ts ih => rw [nodesAll, ih, List.flatMap_cons]

theorem nodes_eq_cons (t : Typedef) : t.nodes = t :: t.args.flatMap nodes := by
  obtain ⟨name, kind, optional, args, path⟩ := t
  rw [nodes, nodesAll_eq_flatMap]

/-- A group stays one. -/
theorem isGroup_unfold (t : Typedef) : t.unfold.isGroup = t.isGroup := by
  simp [isGroup, isStruct, isAnonymous]

theorem map_spot_nodes_rename (t : Typedef) (n : String) :
    ({ t with name := n } : Typedef).nodes.map spot = t.nodes.map spot := by
  rw [nodes_eq_cons, nodes_eq_cons]
  rfl

theorem map_spot_nodes_renumber (ts : List Typedef) :
    ((renumber ts).flatMap nodes).map spot = (ts.flatMap nodes).map spot := by
  rw [List.map_flatMap, List.map_flatMap, List.flatMap_def, List.flatMap_def,
    map_renumber_of_blind map_spot_nodes_rename]

/-- In place of a group stand the parts beneath it. -/
theorem flatMap_nodes_inlineGroups (ts : List Typedef) :
    (inlineGroups ts).flatMap nodes =
      ts.flatMap fun t => if t.isGroup then t.nodes.tail else t.nodes := by
  rw [inlineGroups, List.flatMap_assoc]
  refine List.flatMap_congr fun t _ => ?_
  split
  · rw [nodes_eq_cons, List.tail_cons]
  · rw [List.flatMap_singleton]

/-- **What unfolding keeps**: all parts but the groups in structs, from the left to the right. -/
theorem map_spot_nodes_unfold (t : Typedef) : t.unfold.nodes.map spot = t.keptNodes.map spot := by
  induction t using args_induction with
  | node t ih =>
    obtain ⟨name, kind, optional, args, path⟩ := t
    rw [keptNodes, nodes_eq_cons, keptNodesAll_eq_flatMap, List.map_cons, List.map_cons]
    refine congrArg₂ List.cons (by simp [spot]) ?_
    by_cases hkind : kind = .struct
    · subst hkind
      rw [unfold_struct]
      show ((renumber (inlineGroups (args.map unfold))).flatMap nodes).map spot = _
      rw [map_spot_nodes_renumber, flatMap_nodes_inlineGroups, List.flatMap_map, List.map_flatMap,
        List.map_flatMap]
      refine List.flatMap_congr fun c hc => ?_
      rw [isGroup_unfold, beq_self_eq_true, Bool.true_and]
      split
      · rw [List.map_tail, List.map_tail, ih c hc]
      · exact ih c hc
    · rw [unfold_of_ne hkind, beq_false_of_ne hkind, List.flatMap_map, List.map_flatMap,
        List.map_flatMap]
      exact List.flatMap_congr ih

/-- **Unfolding settles a typedef** once and for all: unfolding a second time changes nothing, at
every struct of the unfolded form no group is left and names by position tell the positions, and the
parts that are no groups in structs are all there in their order, of the same kinds and marks and at
the same paths. -/
theorem unfold_settles (t : Typedef) :
    t.unfold.unfold = t.unfold ∧ (∀ d ∈ t.unfold.nodes, d.Settled) ∧
      t.unfold.nodes.map spot = t.keptNodes.map spot :=
  ⟨unfold_eq_self (settled_of_mem_nodes_unfold t), settled_of_mem_nodes_unfold t,
    map_spot_nodes_unfold t⟩

/-- A struct with a group within a group, the second of which has a generated name, and with an
optional struct that has a number for its name. -/
def groupsInGroups : Typedef :=
  ⟨"root", .struct, false,
    [⟨"", .struct, false,
        [⟨"7", .type .nat, false, [], [0, 0]⟩,
          ⟨"@inner", .struct, false, [⟨"0", .type .int, false, [], [0, 1, 0]⟩], [0, 1]⟩], [0]⟩,
      ⟨"1", .struct, true, [⟨"flag", .type .bool, false, [], [1, 0]⟩], [1]⟩], []⟩

theorem unfold_settles_groupsInGroups :
    groupsInGroups.unfold.args.map (·.name) = ["0", "1", "2"] ∧
      groupsInGroups.unfold.unfold = groupsInGroups.unfold ∧ groupsInGroups.unfold.Settled ∧
      groupsInGroups.unfold.nodes.map (·.path) = [[], [0, 0], [0, 1, 0], [1], [1, 0]] := by
  obtain ⟨htwice, hsettled, -⟩ := unfold_settles groupsInGroups
  exact ⟨by decide, htwice, hsettled _ (mem_nodes.mpr (.inl rfl)), by decide⟩

end Michelson.Typedef

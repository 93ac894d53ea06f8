import Mathlib.Data.List.Forall2
import Michelson.Marshal.Assembly

/-!
# Trees assembled from paths

Only the paths decide how fields are assembled to a comb. So whatever stands at the paths, the same
tree is made of it, and what is true of the parts at equal paths is true of the wholes if pairs keep
it.

## Main definitions

* `assembleWith?`: parts at paths, assembled with any way to pair them
* `RelatedParts`: parts at equal paths that are related

## Main results

* `Expr.assembleFrom?_eq_none_of_short`: a path that has ended above a node
* `Expr.assemble?_eq`: combs are assembled in this way
* `rel_assembleWith?`: a relation between parts at equal paths
-/

namespace Michelson

variable {α β : Type}

/-- The parts on one side, the left one or the right one, seen from there. -/
def onSide (left : Bool) (parts : List (List Nat × α)) : List (List Nat × α) :=
  (parts.filter fun part => (part.1.head? == some 0) == left).map fun part => (part.1.tail, part.2)

theorem length_onSide_add (parts : List (List Nat × α)) :
    (onSide true parts).length + (onSide false parts).length = parts.length := by
  induction parts with
  | nil => rfl
  | cons part parts ih =>
    simp only [onSide, List.length_map, List.filter_cons, List.length_cons] at ih ⊢
    cases part.1.head? == some 0
    · exact congrArg Nat.succ ih
    · exact (Nat.succ_add _ _).trans (congrArg Nat.succ ih)

/-- **Parts at paths, assembled.** A single part with an empty path is the whole; otherwise both
sides of a pair need parts. -/
def assembleWith? (pair : α → α → α) (parts : List (List Nat × α)) : Option α :=
  match parts with
  | [([], x)] => some x
  | parts =>
    if parts.any (·.1.isEmpty) then none
    else if _ : (onSide true parts).length = 0 ∨ (onSide false parts).length = 0 then none
    else do
      let left ← assembleWith? pair (onSide true parts)
      let right ← assembleWith? pair (onSide false parts)
      return pair left right
termination_by parts.length
decreasing_by
  all_goals
    have := length_onSide_add parts
    omega

theorem assembleWith?_singleton (pair : α → α → α) (x : α) :
    assembleWith? pair [([], x)] = some x := by
  rw [assembleWith?]

theorem assembleWith?_nil (pair : α → α → α) : assembleWith? pair [] = none := by
  rw [assembleWith?.eq_def]
  rfl

/-- Unless a single part is the whole, both sides are assembled. -/
theorem assembleWith?_of_ne (pair : α → α → α) {parts : List (List Nat × α)}
    (h : ∀ x, parts ≠ [([], x)]) :
    assembleWith? pair parts =
      if parts.any (·.1.isEmpty) then none
      else if (onSide true parts).length = 0 ∨ (onSide false parts).length = 0 then none
      else (assembleWith? pair (onSide true parts)).bind fun left =>
        (assembleWith? pair (onSide false parts)).bind fun right => some (pair left right) := by
  rw [assembleWith?.eq_def]
  split
  next x => exact absurd rfl (h x)
  next => rfl

namespace Expr

/-! ## Combs of fields -/

/-- A field seen from a node of the given depth on its path. -/
def fromDepth (depth : Nat) (field : List Nat × Expr) : List Nat × Expr :=
  (field.1.drop depth, field.2)

variable {depth : Nat} {fields : List (List Nat × Expr)}

/-- Nothing is the whole of a node but a single field whose path ends there. -/
theorem wholeNode?_eq_some_iff {e : Expr} :
    wholeNode? depth fields = some e ↔ ∃ path, fields = [(path, e)] ∧ path.length = depth := by
  unfold wholeNode?
  split
  next path x =>
    rw [Option.ite_none_right_eq_some]
    constructor
    · rintro ⟨hlength, ⟨⟩⟩
      exact ⟨path, rfl, hlength⟩
    · rintro ⟨_, ⟨⟩, hlength⟩
      exact ⟨hlength, rfl⟩
  next hne =>
    refine ⟨nofun, ?_⟩
    rintro ⟨path, rfl, -⟩
    exact absurd rfl (hne path e)

/-- A path that has ended at a node or above it goes on to the right. -/
theorem mem_rightFields_of_le {f : List Nat × Expr} (hf : f ∈ fields) (hend : f.1.length ≤ depth) :
    f ∈ rightFields depth fields := by
  refine List.mem_filter.mpr ⟨hf, ?_⟩
  rw [goesLeft, List.getElem?_eq_none hend]
  rfl

/-- **A path that has ended above a node** belongs to no comb: it goes on to the right, and is never
the whole of a node. -/
theorem assembleFrom?_eq_none_of_short {f : List Nat × Expr} (hf : f ∈ fields)
    (hshort : f.1.length < depth) : assembleFrom? depth fields = none := by
  fun_induction assembleFrom? depth fields with
  | case1 depth fields e he =>
    obtain ⟨path, rfl, hlength⟩ := wholeNode?_eq_some_iff.mp he
    obtain rfl : f = (path, e) := List.mem_singleton.mp hf
    exact absurd hlength (Nat.ne_of_lt hshort)
  | case2 => rfl
  | case3 depth fields hnone hsides ihleft ihright =>
    have hright := mem_rightFields_of_le hf (Nat.le_of_lt hshort)
    rw [ihright hright (Nat.lt_succ_of_lt hshort)]
    cases assembleFrom? (depth + 1) (leftFields depth fields) <;> rfl

/-- Seen from one step further on their paths, the fields on a side of a node are the parts of that
side. -/
theorem onSide_map_fromDepth (left : Bool) :
    onSide left (fields.map (fromDepth depth)) =
      (fields.filter fun f => goesLeft depth f == left).map (fromDepth (depth + 1)) := by
  unfold onSide fromDepth goesLeft
  simp only [List.filter_map, List.map_map, Function.comp_def, List.head?_drop, List.tail_drop]

theorem onSide_true_map_fromDepth (depth : Nat) (fields : List (List Nat × Expr)) :
    onSide true (fields.map (fromDepth depth)) =
      (leftFields depth fields).map (fromDepth (depth + 1)) := by
  simp only [onSide_map_fromDepth, beq_true, leftFields]

theorem onSide_false_map_fromDepth (depth : Nat) (fields : List (List Nat × Expr)) :
    onSide false (fields.map (fromDepth depth)) =
      (rightFields depth fields).map (fromDepth (depth + 1)) := by
  simp only [onSide_map_fromDepth, beq_false, rightFields]

/-- A part is the whole just if its field is. -/
theorem map_fromDepth_ne (h : ∀ f ∈ fields, depth ≤ f.1.length)
    (hnone : wholeNode? depth fields = none) (e : Expr) :
    fields.map (fromDepth depth) ≠ [([], e)] := by
  intro heq
  obtain ⟨⟨path, x⟩, rfl, hpath⟩ := List.map_eq_singleton_iff.mp heq
  have hend : path.drop depth = [] := congrArg Prod.fst hpath
  have hle : path.length ≤ depth := List.drop_eq_nil_iff.mp hend
  have hwhole : wholeNode? depth [(path, x)] = some x := wholeNode?_eq_some_iff.mpr
    ⟨path, rfl, Nat.le_antisymm hle (h _ (List.mem_singleton_self _))⟩
  rw [hnone] at hwhole
  cases hwhole

/-- Beneath a node, combs of fields are assembled in this way as long as no path has ended above. -/
theorem assembleFrom?_eq (h : ∀ f ∈ fields, depth ≤ f.1.length) :
    assembleFrom? depth fields =
      assembleWith? (fun l r => .app (.data .pair) [l, r]) (fields.map (fromDepth depth)) := by
  fun_induction assembleFrom? depth fields with
  | case1 depth fields e he =>
    obtain ⟨path, rfl, hlength⟩ := wholeNode?_eq_some_iff.mp he
    rw [List.map_singleton, fromDepth, List.drop_of_length_le (Nat.le_of_eq hlength),
      assembleWith?_singleton]
  | case2 depth fields hnone hsides =>
    rw [assembleWith?_of_ne _ (map_fromDepth_ne h hnone), onSide_true_map_fromDepth,
      onSide_false_map_fromDepth, List.length_map, List.length_map, if_pos hsides, ite_self]
  | case3 depth fields hnone hsides ihleft ihright =>
    rw [assembleWith?_of_ne _ (map_fromDepth_ne h hnone), onSide_true_map_fromDepth,
      onSide_false_map_fromDepth, List.length_map, List.length_map, if_neg hsides]
    by_cases hends : (fields.map (fromDepth depth)).any (·.1.isEmpty) = true
    · obtain ⟨_, hpart, hempty⟩ := List.any_eq_true.mp hends
      obtain ⟨f, hf, rfl⟩ := List.mem_map.mp hpart
      have hend : f.1.length ≤ depth := List.drop_eq_nil_iff.mp (List.isEmpty_iff.mp hempty)
      rw [if_pos hends, assembleFrom?_eq_none_of_short (mem_rightFields_of_le hf hend)
        (Nat.lt_succ_of_le hend)]
      cases assembleFrom? (depth + 1) (leftFields depth fields) <;> rfl
    · have hlonger : ∀ f ∈ fields, depth + 1 ≤ f.1.length := by
        intro f hf
        by_contra hshort
        refine hends (List.any_eq_true.mpr ⟨fromDepth depth f, List.mem_map_of_mem hf, ?_⟩)
        exact List.isEmpty_iff.mpr (List.drop_of_length_le (Nat.le_of_lt_succ (by omega)))
      rw [if_neg hends, ihleft fun f hf => hlonger f (List.mem_of_mem_filter hf),
        ihright fun f hf => hlonger f (List.mem_of_mem_filter hf)]
      rfl

/-- Combs of fields are assembled in this way. -/
theorem assemble?_eq (fields : List (List Nat × Expr)) :
    assemble? fields = assembleWith? (fun l r => .app (.data .pair) [l, r]) fields := by
  have hwhole : fields.map (fromDepth 0) = fields := List.map_id fields
  rw [assemble?, assembleFrom?_eq fun _ _ => Nat.zero_le _, hwhole]

end Expr

section Relations

variable {R : α → β → Prop} {parts : List (List Nat × α)} {parts' : List (List Nat × β)}

/-- Whether the parts of two lists stand at equal paths and are related. -/
def RelatedParts (R : α → β → Prop) : List (List Nat × α) → List (List Nat × β) → Prop :=
  List.Forall₂ fun p q => p.1 = q.1 ∧ R p.2 q.2

theorem RelatedParts.any_isEmpty (h : RelatedParts R parts parts') :
    parts.any (·.1.isEmpty) = parts'.any (·.1.isEmpty) := by
  induction h with
  | nil => rfl
  | cons hpq _ ih => rw [List.any_cons, List.any_cons, hpq.1, ih]

theorem RelatedParts.onSide (h : RelatedParts R parts parts') (left : Bool) :
    RelatedParts R (onSide left parts) (onSide left parts') := by
  induction h with
  | nil => exact .nil
  | cons hpq _ ih =>
    unfold Michelson.onSide at ih ⊢
    rw [List.filter_cons, List.filter_cons, hpq.1]
    split
    · exact .cons ⟨congrArg List.tail hpq.1, hpq.2⟩ ih
    · exact ih

theorem RelatedParts.eq_singleton (h : RelatedParts R parts parts') {y : β}
    (hsingle : parts' = [([], y)]) : ∃ x, parts = [([], x)] := by
  subst hsingle
  obtain ⟨⟨path, x⟩, rest, ⟨hpath, -⟩, hrest, rfl⟩ := List.forall₂_cons_right_iff.mp h
  cases hrest
  cases hpath
  exact ⟨x, rfl⟩

/-- Two runs are related if their steps are. -/
theorem rel_bind {γ δ : Type} {S : γ → δ → Prop} {x : Option α} {y : Option β}
    {f : α → Option γ} {g : β → Option δ} (h : Option.Rel R x y)
    (hstep : ∀ a b, R a b → Option.Rel S (f a) (g b)) : Option.Rel S (x.bind f) (y.bind g) := by
  cases h with
  | none => exact .none
  | some hab => exact hstep _ _ hab

/-- **A relation between parts at equal paths** that pairs keep holds between the wholes. -/
theorem rel_assembleWith? {pair : α → α → α} {pair' : β → β → β}
    (hpair : ∀ a b a' b', R a b → R a' b' → R (pair a a') (pair' b b'))
    (h : RelatedParts R parts parts') :
    Option.Rel R (assembleWith? pair parts) (assembleWith? pair' parts') := by
  -- Induction along the assembly of the one list. The other list has the same paths, so that it
  -- takes the same case.
  fun_induction assembleWith? pair parts generalizing parts' with
  | case1 x =>
    obtain ⟨⟨path, y⟩, rest, ⟨hpath, hxy⟩, hrest, rfl⟩ := List.forall₂_cons_left_iff.mp h
    cases hrest
    cases hpath
    rw [assembleWith?_singleton]
    exact .some hxy
  | case2 parts hne hempty =>
    have hne' : ∀ y, parts' ≠ [([], y)] := fun y hy => (h.eq_singleton hy).elim hne
    rw [h.any_isEmpty] at hempty
    rw [assembleWith?_of_ne _ hne', if_pos hempty]
    exact .none
  | case3 parts hne hempty hside =>
    have hne' : ∀ y, parts' ≠ [([], y)] := fun y hy => (h.eq_singleton hy).elim hne
    rw [h.any_isEmpty] at hempty
    rw [(h.onSide true).length_eq, (h.onSide false).length_eq] at hside
    rw [assembleWith?_of_ne _ hne', if_neg hempty, if_pos hside]
    exact .none
  | case4 parts hne hempty hside ihleft ihright =>
    have hne' : ∀ y, parts' ≠ [([], y)] := fun y hy => (h.eq_singleton hy).elim hne
    rw [h.any_isEmpty] at hempty
    rw [(h.onSide true).length_eq, (h.onSide false).length_eq] at hside
    rw [assembleWith?_of_ne _ hne', if_neg hempty, if_neg hside]
    refine rel_bind (ihleft (h.onSide true)) fun a b hab => ?_
    refine rel_bind (ihright (h.onSide false)) fun a' b' hab' => ?_
    exact .some (hpair a b a' b' hab hab')

end Relations

end Michelson

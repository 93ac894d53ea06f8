import Michelson.Expr.Walk
import Michelson.Proofs.Marshal.Grafting

/-!
# Fields found again in their comb

Fields have a comb just if their paths are the addresses of the leaves of a full binary tree, each
of them once. A path that is missing, that stands twice or that another one goes past leaves a node
with one side only, and a path that has ended goes on to the right until that is the case. So
nothing is lost and nothing invented: in the comb, every field is found at its path, with pairs of
two on the way, and the order in which the fields are listed does not matter.

## Main results

* `assembleWith?_perm`: the order of what is assembled
* `Expr.exists_perm_assembles`: fields that have a comb, in the order of the leaves
* `Expr.Assembles.at?_eq`, `Expr.Assembles.exists_pair_at?`: what is found along a path
* `Expr.assemble?_inverts_lookup`: combs and look-up by path
-/

namespace Michelson

/-! ## The order of parts -/

section Order

variable {α : Type} {parts parts' : List (List Nat × α)}

theorem perm_onSide (h : parts.Perm parts') (left : Bool) :
    (onSide left parts).Perm (onSide left parts') :=
  (h.filter _).map _

/-- **The order of the parts does not matter.** -/
theorem assembleWith?_perm (pair : α → α → α) (h : parts.Perm parts') :
    assembleWith? pair parts = assembleWith? pair parts' := by
  have hne {parts parts' : List (List Nat × α)} (h : parts.Perm parts')
      (hne : ∀ x, parts ≠ [([], x)]) (x : α) : parts' ≠ [([], x)] := by
    rintro rfl
    exact hne x (List.perm_singleton.mp h)
  fun_induction assembleWith? pair parts generalizing parts' with
  | case1 x => rw [← List.singleton_perm.mp h, assembleWith?_singleton]
  | case2 parts hparts hempty =>
    rw [h.any_eq] at hempty
    rw [assembleWith?_of_ne _ (hne h hparts), if_pos hempty]
  | case3 parts hparts hempty hside =>
    rw [h.any_eq] at hempty
    rw [(perm_onSide h true).length_eq, (perm_onSide h false).length_eq] at hside
    rw [assembleWith?_of_ne _ (hne h hparts), if_neg hempty, if_pos hside]
  | case4 parts hparts hempty hside ihleft ihright =>
    rw [h.any_eq] at hempty
    rw [(perm_onSide h true).length_eq, (perm_onSide h false).length_eq] at hside
    rw [assembleWith?_of_ne _ (hne h hparts), if_neg hempty, if_neg hside,
      ihleft (perm_onSide h true), ihright (perm_onSide h false)]
    rfl

end Order

namespace Expr

variable {fields : List (List Nat × Expr)} {e : Expr}

/-! ## Fields in the order of the leaves -/

/-- The fields on the two sides of a node are all of them, if none is the node. -/
theorem perm_append_onSide (hne : ∀ f ∈ fields, f.1 ≠ [])
    (hsteps : ∀ f ∈ fields, ∀ i ∈ f.1, i = 0 ∨ i = 1) :
    fields.Perm
      ((onSide true fields).map (under [0]) ++ (onSide false fields).map (under [1])) := by
  induction fields with
  | nil => rfl
  | cons f fields ih =>
    rw [List.forall_mem_cons] at hne hsteps
    have hrest := ih hne.2 hsteps.2
    obtain ⟨path, x⟩ := f
    obtain ⟨i, path, rfl⟩ := List.exists_cons_of_ne_nil hne.1
    rcases hsteps.1 i List.mem_cons_self with rfl | rfl
    · exact hrest.cons _
    · exact (hrest.cons _).trans List.perm_middle.symm

/-- **Fields that have a comb** stand at the leaves of a tree, and the comb is that of the fields in
the order of the leaves. -/
theorem exists_perm_assembles (hsteps : ∀ f ∈ fields, ∀ i ∈ f.1, i = 0 ∨ i = 1)
    (h : assemble? fields = some e) : ∃ fields', fields.Perm fields' ∧ Assembles fields' e := by
  rw [assemble?_eq] at h
  -- Induction along the assembly: the fields on either side are brought into the order of the
  -- leaves there, and those to the left come before those to the right.
  fun_induction assembleWith? (fun l r => .app (.data .pair) [l, r]) fields generalizing e with
  | case1 x =>
    cases h
    exact ⟨[([], x)], .refl _, .leaf x⟩
  | case2 => cases h
  | case3 => cases h
  | case4 fields hne hempty hside ihleft ihright =>
    obtain ⟨l, hl, h⟩ := Option.bind_eq_some_iff.mp h
    obtain ⟨r, hr, h⟩ := Option.bind_eq_some_iff.mp h
    cases h
    have hsides (left : Bool) : ∀ f ∈ onSide left fields, ∀ i ∈ f.1, i = 0 ∨ i = 1 := by
      intro f hf i hi
      obtain ⟨g, hg, rfl⟩ := List.mem_map.mp hf
      exact hsteps g (List.mem_of_mem_filter hg) i (List.mem_of_mem_tail hi)
    have hways : ∀ f ∈ fields, f.1 ≠ [] := by
      intro f hf hnil
      exact hempty (List.any_eq_true.mpr ⟨f, hf, List.isEmpty_iff.mpr hnil⟩)
    obtain ⟨ls, hls, hleft⟩ := ihleft (hsides true) hl
    obtain ⟨rs, hrs, hright⟩ := ihright (hsides false) hr
    exact ⟨_, (perm_append_onSide hways hsteps).trans ((hls.map _).append (hrs.map _)),
      hleft.pair hright⟩

theorem Assembles.exists_tree (h : Assembles fields e) :
    ∃ s : BinaryTree, fields.map (·.1) = s.addresses := by
  induction h with
  | leaf => exact ⟨.leaf, rfl⟩
  | pair _ _ ihl ihr =>
    obtain ⟨l, hl⟩ := ihl
    obtain ⟨r, hr⟩ := ihr
    refine ⟨.node l r, ?_⟩
    rw [BinaryTree.addresses, ← hl, ← hr, List.map_append, List.map_map, List.map_map, List.map_map,
      List.map_map]
    rfl

/-- Fields whose paths are those given in another order can be listed in that order. -/
theorem exists_perm_of_map_perm {ways : List (List Nat)} (h : (fields.map (·.1)).Perm ways) :
    ∃ fields' : List (List Nat × Expr), fields'.Perm fields ∧ fields'.map (·.1) = ways := by
  have hfields : List.Forall₂ (fun way (f : List Nat × Expr) => way = f.1) (fields.map (·.1))
      fields :=
    List.forall₂_map_left_iff.mpr (List.forall₂_same.mpr fun _ _ => rfl)
  obtain ⟨fields', hways, hperm⟩ := List.perm_comp_forall₂ h.symm hfields
  have heq : List.Forall₂ (· = ·) ways (fields'.map (·.1)) := List.forall₂_map_right_iff.mpr hways
  rw [List.forall₂_eq_eq_eq] at heq
  exact ⟨fields', hperm, heq.symm⟩

/-! ## Along a path -/

/-- **Every field is found** at its path. -/
theorem Assembles.at?_eq (h : Assembles fields e) : ∀ f ∈ fields, e.at? f.1 = some f.2 := by
  induction h with
  | leaf e => exact List.forall_mem_singleton.mpr rfl
  | pair _ _ ihl ihr =>
    refine List.forall_mem_append.mpr ⟨?_, ?_⟩ <;> rw [List.forall_mem_map]
    · exact ihl
    · exact ihr

/-- **Pairs of two** are found on the way to a field. -/
theorem Assembles.exists_pair_at? (h : Assembles fields e) {f : List Nat × Expr} (hf : f ∈ fields)
    {way : List Nat} (hway : way <+: f.1) (hne : way ≠ f.1) :
    ∃ l r, e.at? way = some (.app (.data .pair) [l, r]) := by
  induction h generalizing f way with
  | leaf e =>
    obtain rfl : f = ([], e) := List.mem_singleton.mp hf
    exact absurd (List.prefix_nil.mp hway) hne
  | pair _ _ ihl ihr =>
    rcases way with _ | ⟨i, way⟩
    · exact ⟨_, _, rfl⟩
    · rcases List.mem_append.mp hf with hf | hf <;> obtain ⟨g, hg, rfl⟩ := List.mem_map.mp hf
      · obtain ⟨rfl, hrest⟩ := List.cons_prefix_cons.mp hway
        exact ihl hg hrest fun heq => hne (congrArg (0 :: ·) heq)
      · obtain ⟨rfl, hrest⟩ := List.cons_prefix_cons.mp hway
        exact ihr hg hrest fun heq => hne (congrArg (1 :: ·) heq)

/-- **Assembling inverts the look-up by path.** Of fields whose paths go to the left and to the
right only, there is a comb just if no path is listed twice and the paths are, in any order, the
addresses of the leaves of a full binary tree. In the comb, every field is found at its path, and a
pair of two at every place on the way. The order of the fields does not matter. -/
theorem assemble?_inverts_lookup (fields : List (List Nat × Expr))
    (hsteps : ∀ f ∈ fields, ∀ i ∈ f.1, i = 0 ∨ i = 1) :
    ((∃ e, assemble? fields = some e) ↔
      (fields.map (·.1)).Nodup ∧
        ∃ s : BinaryTree, ∀ path, path ∈ fields.map (·.1) ↔ path ∈ s.addresses) ∧
    (∀ e, assemble? fields = some e →
      (∀ f ∈ fields, e.at? f.1 = some f.2) ∧
      ∀ f ∈ fields, ∀ way, way <+: f.1 → way ≠ f.1 →
        ∃ l r, e.at? way = some (.app (.data .pair) [l, r])) ∧
    ∀ fields', fields'.Perm fields → assemble? fields' = assemble? fields := by
  have horder {fields fields' : List (List Nat × Expr)} (h : fields'.Perm fields) :
      assemble? fields' = assemble? fields := by
    rw [assemble?_eq, assemble?_eq, assembleWith?_perm _ h]
  refine ⟨⟨?_, ?_⟩, ?_, fun fields' => horder⟩
  · rintro ⟨e, he⟩
    obtain ⟨fields', hperm, hassembles⟩ := exists_perm_assembles hsteps he
    obtain ⟨s, hs⟩ := hassembles.exists_tree
    have hways : (fields.map (·.1)).Perm s.addresses := hs ▸ hperm.map _
    exact ⟨hways.nodup_iff.mpr s.nodup_addresses, s, fun _ => hways.mem_iff⟩
  · rintro ⟨hnodup, s, hs⟩
    have hways := (List.perm_ext_iff_of_nodup hnodup s.nodup_addresses).mpr hs
    obtain ⟨fields', hperm, hfields'⟩ := exists_perm_of_map_perm hways
    obtain ⟨e, he⟩ := exists_assembles s hfields'
    exact ⟨e, (horder hperm).symm.trans he.assemble?_eq⟩
  · intro e he
    obtain ⟨fields', hperm, hassembles⟩ := exists_perm_assembles hsteps he
    exact ⟨fun f hf => hassembles.at?_eq f (hperm.mem_iff.mp hf),
      fun f hf way => hassembles.exists_pair_at? (hperm.mem_iff.mp hf)⟩

/-- The fields of a comb of three, listed from the right to the left. -/
def scattered : List (List Nat × Expr) := [([1, 1], .int 3), ([1, 0], .string "b"), ([0], .int 1)]

theorem assemble?_inverts_lookup_scattered :
    (∀ f ∈ scattered, ∀ i ∈ f.1, i = 0 ∨ i = 1) ∧
    ∃ e, assemble? scattered = some e ∧ e.at? [1, 0] = some (.string "b") ∧
      (∃ l r, e.at? [1] = some (.app (.data .pair) [l, r])) ∧
      assemble? scattered.reverse = some e ∧
      assemble? (scattered ++ [([0], .int 7)]) = none := by
  have hsteps : ∀ f ∈ scattered, ∀ i ∈ f.1, i = 0 ∨ i = 1 := by decide
  have hways :
      (scattered.map (·.1)).Perm (BinaryTree.node .leaf (.node .leaf .leaf)).addresses := by
    decide
  obtain ⟨hcomb, hfound, horder⟩ := assemble?_inverts_lookup scattered hsteps
  obtain ⟨e, he⟩ := hcomb.mpr ⟨by decide, _, fun _ => hways.mem_iff⟩
  obtain ⟨hat, hpair⟩ := hfound e he
  obtain ⟨htwice, -⟩ := assemble?_inverts_lookup (scattered ++ [([0], .int 7)]) (by decide)
  refine ⟨hsteps, e, he, hat ([1, 0], .string "b") (by simp [scattered]),
    hpair ([1, 0], .string "b") (by simp [scattered]) [1] ⟨[0], rfl⟩ (by decide),
    (horder _ scattered.reverse_perm).trans he, Option.eq_none_iff_forall_ne_some.mpr ?_⟩
  intro e' he'
  exact absurd (htwice.mp ⟨e', he'⟩).1 (by decide)

end Expr

end Michelson

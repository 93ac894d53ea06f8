import Michelson.Proofs.Typedef.Placement

/-!
# The layout of typedefs

What can be relied on at every node of a typedef that is derived from a type, and of its unfolded
form: the components lie beneath the node, the fields of a struct and the branches of a union lie at
the leaves of a full binary tree, every other kind has the number of components that is due to it,
and nothing is nested that should have been flattened. For derived typedefs this is read off the
rules of derivation. The unfolded form keeps it, since a group that is replaced by what it holds is
a leaf that is replaced by a tree.

## Main definitions

* `BinaryTree`: the shape of a full binary tree, with the addresses of its leaves
* `AreLeaves`: ways to the leaves of such a tree
* `Typedef.WellLaid`: what can be relied on at a node
* `Typedef.Ungrouped`: a struct without groups in it

## Main results

* `BinaryTree.exists_graft`: trees in place of the leaves of a tree
* `Typedef.Derives.wellLaid`: one level of a derived typedef
* `Typedef.wellLaid_of_mem_nodes`: all levels of a derived typedef and of its unfolded form
-/

namespace Michelson

/-! ## Full binary trees -/

/-- The shape of a full binary tree. -/
inductive BinaryTree where
  | leaf
  | node (left right : BinaryTree)
  deriving Inhabited

namespace BinaryTree

/-- **The addresses of the leaves** from the left to the right, in steps to the left, which are
`0`, and to the right, which are `1`. -/
def addresses : BinaryTree → List (List Nat)
  | leaf => [[]]
  | node left right => left.addresses.map (0 :: ·) ++ right.addresses.map (1 :: ·)

/-- No leaf lies on the way to another. -/
theorem pairwise_addresses (s : BinaryTree) :
    s.addresses.Pairwise fun a b => ¬ a <+: b ∧ ¬ b <+: a := by
  induction s with
  | leaf => exact List.pairwise_singleton _ _
  | node left right ihl ihr =>
    have hside (i : Nat) {ways : List (List Nat)}
        (h : ways.Pairwise fun a b => ¬ a <+: b ∧ ¬ b <+: a) :
        (ways.map (i :: ·)).Pairwise fun a b => ¬ a <+: b ∧ ¬ b <+: a := by
      simpa [List.pairwise_map] using h
    refine List.pairwise_append.mpr ⟨hside 0 ihl, hside 1 ihr, ?_⟩
    simp

/-- No leaf is listed twice. -/
theorem nodup_addresses (s : BinaryTree) : s.addresses.Nodup := by
  refine s.pairwise_addresses.imp ?_
  rintro a _ hapart rfl
  exact hapart.1 List.prefix_rfl

/-- Every way down the tree goes past a leaf, unless it ends before. -/
theorem exists_address (s : BinaryTree) (way : List Nat) (h : ∀ i ∈ way, i < 2) :
    ∃ a ∈ s.addresses, a <+: way ∨ way <+: a := by
  induction s generalizing way with
  | leaf => exact ⟨[], .head _, .inl (List.nil_prefix)⟩
  | node left right ihl ihr =>
    cases way with
    | nil =>
      obtain ⟨a, ha, -⟩ := ihl [] (by simp)
      exact ⟨0 :: a, by simp [addresses, ha], .inr List.nil_prefix⟩
    | cons i way =>
      rw [List.forall_mem_cons] at h
      obtain ⟨hi, h⟩ := h
      have hside : i = 0 ∨ i = 1 := by omega
      rcases hside with rfl | rfl
      · obtain ⟨a, ha, hpaths⟩ := ihl way h
        exact ⟨0 :: a, by simp [addresses, ha], by simpa using hpaths⟩
      · obtain ⟨a, ha, hpaths⟩ := ihr way h
        exact ⟨1 :: a, by simp [addresses, ha], by simpa using hpaths⟩

/-- **Trees in place of leaves.** If items lie at the leaves of a tree, and each is replaced by the
leaves of a tree of its own, then what is listed are the leaves of a larger tree. -/
theorem exists_graft {α : Type} (s : BinaryTree) (xs : List α) (way : α → List Nat)
    (tree : α → BinaryTree) (h : xs.map way = s.addresses) :
    ∃ s' : BinaryTree, (xs.flatMap fun x => (tree x).addresses.map (way x ++ ·)) = s'.addresses ∧
      (s' = leaf → s = leaf) := by
  induction s generalizing xs way with
  | leaf =>
    obtain ⟨x, rfl, hx⟩ : ∃ x, xs = [x] ∧ way x = [] := by simpa [addresses] using h
    exact ⟨tree x, by simp [hx], fun _ => rfl⟩
  | node left right ihl ihr =>
    obtain ⟨ls, rs, rfl, hls, hrs⟩ := List.map_eq_append_iff.mp h
    have hside (i : Nat) {side : BinaryTree} {ys : List α}
        (hys : ys.map way = side.addresses.map (i :: ·)) :
        ys.map (fun y => (way y).tail) = side.addresses ∧
          (ys.flatMap fun y => (tree y).addresses.map (way y ++ ·)) =
            (ys.flatMap fun y => (tree y).addresses.map ((way y).tail ++ ·)).map (i :: ·) := by
      have hstep : ∀ y ∈ ys, way y = i :: (way y).tail := by
        intro y hy
        have hmem : way y ∈ ys.map way := List.mem_map_of_mem hy
        rw [hys] at hmem
        obtain ⟨a, -, ha⟩ := List.mem_map.mp hmem
        rw [← ha, List.tail_cons]
      constructor
      · have htail := congrArg (List.map List.tail) hys
        simpa [Function.comp_def] using htail
      · rw [List.map_flatMap]
        refine List.flatMap_congr fun y hy => ?_
        rw [hstep y hy, List.map_map]
        rfl
    obtain ⟨l, hl, -⟩ := ihl ls _ (hside 0 hls).1
    obtain ⟨r, hr, -⟩ := ihr rs _ (hside 1 hrs).1
    refine ⟨node l r, ?_, by simp⟩
    rw [List.flatMap_append, (hside 0 hls).2, (hside 1 hrs).2, hl, hr, addresses]

end BinaryTree

/-- **Ways to the leaves** of a full binary tree with two leaves at least, from the left to the
right. No two of them are the same, none goes on from another, and none is missing. -/
structure AreLeaves (ways : List (List Nat)) : Prop where
  exists_tree : ∃ left right, ways = (BinaryTree.node left right).addresses
  apart : ways.Pairwise fun a b => ¬ a <+: b ∧ ¬ b <+: a
  complete : ∀ way : List Nat, (∀ i ∈ way, i < 2) → ∃ a ∈ ways, a <+: way ∨ way <+: a

theorem areLeaves_node (left right : BinaryTree) :
    AreLeaves (BinaryTree.node left right).addresses :=
  ⟨⟨left, right, rfl⟩, BinaryTree.pairwise_addresses _, BinaryTree.exists_address _⟩

namespace Typedef

/-- Whether a kind may have so many components; those of structs and unions are laid out in a
tree. -/
def Kind.Takes : Kind → Nat → Prop
  | struct, _ | union, _ => True
  | type .list, count | type .set, count => count ≤ 1
  | type .map, count | type .bigMap, count => count = 2
  | type .lambda, count => count = 0 ∨ count = 2
  | type .contract, count | type .ticket, count => count = 1
  | type _, count | sapling _ _, count => count = 0

/-- **What can be relied on at a node** of a typedef. -/
structure WellLaid (d : Typedef) : Prop where
  /-- The components lie beneath the node. -/
  below : ∀ c ∈ d.args, ∃ i rest, c.path = d.path ++ i :: rest
  /-- Fields and branches lie at the leaves of a full binary tree. -/
  areLeaves : d.kind = .struct ∨ d.kind = .union → AreLeaves (d.args.map (·.pathFrom d))
  /-- Every other kind has as many components as are due to it. -/
  takes : d.kind.Takes d.args.length
  /-- Unions are flattened, unless they are optional. -/
  flat : d.kind = .union → ∀ c ∈ d.args, c.kind = .union → c.optional = true

/-- Whether a node, if it is a struct, has no groups among its fields. -/
def Ungrouped (d : Typedef) : Prop := d.kind = .struct → ∀ c ∈ d.args, c.isGroup = false

/-! ## Derived typedefs -/

/-- The ways to components from a path of the given length. -/
def waysFrom (depth : Nat) (ts : List Typedef) : List (List Nat) := ts.map (·.path.drop depth)

section Derived

variable {path : List Nat} {ls rs ts : List Typedef} {l r : BinaryTree}

theorem waysFrom_step {i : Nat} (h : ∀ t ∈ ts, path ++ [i] <+: t.path) :
    waysFrom path.length ts = (waysFrom (path ++ [i]).length ts).map (i :: ·) := by
  rw [waysFrom, waysFrom, List.map_map]
  exact List.map_congr_left fun t ht => drop_of_isPrefix (h t ht)

/-- Components on two sides lie at the leaves of a tree that has a tree on each side. -/
theorem waysFrom_append (hl : ∀ t ∈ ls, path ++ [0] <+: t.path)
    (hr : ∀ t ∈ rs, path ++ [1] <+: t.path)
    (hls : waysFrom (path ++ [0]).length ls = l.addresses)
    (hrs : waysFrom (path ++ [1]).length rs = r.addresses) :
    waysFrom path.length (ls ++ rs) = (BinaryTree.node l r).addresses := by
  rw [waysFrom, List.map_append, ← waysFrom, ← waysFrom, waysFrom_step hl, waysFrom_step hr, hls,
    hrs, BinaryTree.addresses]

theorem isPrefix_singleton {t : Typedef} (h : t.path = path) : ∀ u ∈ [t], path <+: u.path := by
  intro u hu
  obtain rfl : u = t := List.mem_singleton.mp hu
  exact ⟨[], by rw [List.append_nil, h]⟩

theorem waysFrom_singleton {t : Typedef} (h : t.path = path) :
    waysFrom path.length [t] = BinaryTree.leaf.addresses := by
  simp [waysFrom, BinaryTree.addresses, h]

theorem waysFrom_numberFields (depth : Nat) (ts : List Typedef) :
    waysFrom depth (numberFields ts) = waysFrom depth ts :=
  map_numberFields_of_blind (fun _ _ => rfl) ts

/-- What lies at the leaves of a tree lies beneath the tree. -/
theorem below_of_waysFrom (hpaths : ∀ t ∈ ts, path <+: t.path)
    (hways : waysFrom path.length ts = (BinaryTree.node l r).addresses) :
    ∀ t ∈ ts, ∃ i rest, t.path = path ++ i :: rest := by
  intro t ht
  obtain ⟨way, hway⟩ := hpaths t ht
  have hmem : way ∈ waysFrom path.length ts :=
    List.mem_map.mpr ⟨t, ht, by rw [← hway, List.drop_left]⟩
  rw [hways, BinaryTree.addresses, List.mem_append, List.mem_map, List.mem_map] at hmem
  rcases hmem with ⟨rest, -, rfl⟩ | ⟨rest, -, rfl⟩
  · exact ⟨0, rest, hway.symm⟩
  · exact ⟨1, rest, hway.symm⟩

end Derived

mutual
/-- The fields of a comb lie at the leaves of a tree that goes on to the right. -/
theorem DerivesFields.exists_tree {args : List Expr} {path : List Nat} {ts : List Typedef}
    (h : DerivesFields args path ts) :
    ∃ l r, waysFrom path.length ts = (BinaryTree.node l r).addresses := by
  match h with
  | .nest hx hs | .next hx hs =>
    obtain ⟨l, r, htree⟩ := hs.exists_tree
    exact ⟨_, _, waysFrom_append (isPrefix_singleton hx.path_eq) hs.isPrefix
      (waysFrom_singleton hx.path_eq) htree⟩
  | .last _ hx hy =>
    exact ⟨_, _, waysFrom_append (isPrefix_singleton hx.path_eq) (isPrefix_singleton hy.path_eq)
      (waysFrom_singleton hx.path_eq) (waysFrom_singleton hy.path_eq)⟩
/-- The branches of a nest lie at the leaves of the tree that the nest is. -/
theorem DerivesBranches.exists_tree {first : String} {args : List Expr} {path : List Nat}
    {ts : List Typedef} (h : DerivesBranches first args path ts) :
    ∃ l r, waysFrom path.length ts = (BinaryTree.node l r).addresses := by
  match h with
  | .both hl hr =>
    obtain ⟨l, hltree⟩ := hl.exists_tree
    obtain ⟨r, hrtree⟩ := hr.exists_tree
    exact ⟨l, r, waysFrom_append hl.isPrefix hr.isPrefix hltree hrtree⟩
theorem DerivesSide.exists_tree {first : String} {e : Expr} {path : List Nat} {ts : List Typedef}
    (h : DerivesSide first e path ts) :
    ∃ s : BinaryTree, waysFrom path.length ts = s.addresses := by
  match h with
  | .nest hs =>
    obtain ⟨l, r, htree⟩ := hs.exists_tree
    exact ⟨_, htree⟩
  | .one _ hx => exact ⟨.leaf, waysFrom_singleton hx.path_eq⟩
end

mutual
/-- No branch of a nest is a mandatory union: that would be a nest of its own. -/
theorem DerivesBranches.flat {first : String} {args : List Expr} {path : List Nat}
    {ts : List Typedef} (h : DerivesBranches first args path ts) :
    ∀ t ∈ ts, t.kind = .union → t.optional = true := by
  match h with
  | .both hl hr => exact List.forall_mem_append.mpr ⟨hl.flat, hr.flat⟩
theorem DerivesSide.flat {first : String} {e : Expr} {path : List Nat} {ts : List Typedef}
    (h : DerivesSide first e path ts) : ∀ t ∈ ts, t.kind = .union → t.optional = true := by
  match h with
  | .nest hs => exact hs.flat
  | .one hor hx =>
    rw [List.forall_mem_singleton]
    intro hunion
    cases hx with
    | union => cases hor
    | option => rfl
    | leaf hkind =>
      cases hunion
      exact nomatch head?_of_leafKind? hkind
    | struct | unary | binary => cases hunion
end

theorem takes_zero_of_leafKind? {c : TypeConstructor} {args : List Expr} {kind : Kind}
    (h : leafKind? c args = some kind) : kind.Takes 0 := by
  have hsapling (c : TypeConstructor) (hc : (Kind.type c).Takes 0) :
      (saplingKind c args).Takes 0 := by
    unfold saplingKind
    split
    · split
      · rfl
      · exact hc
    · exact hc
  unfold leafKind? at h
  split at h
  all_goals cases h
  · exact hsapling _ rfl
  · exact hsapling _ rfl
  · exact hsapling _ rfl
  · cases c <;> first | contradiction | simp [Kind.Takes]

/-- The path of a node leads on to its components. -/
theorem WellLaid.isPrefix {d : Typedef} (h : d.WellLaid) : ∀ c ∈ d.args, d.path <+: c.path := by
  intro c hc
  obtain ⟨i, rest, hpath⟩ := h.below c hc
  exact ⟨i :: rest, hpath.symm⟩

/-- A node of the same kind, components and path can be relied on as well. -/
theorem WellLaid.congr {d d' : Typedef} (h : d.WellLaid) (hkind : d'.kind = d.kind)
    (hargs : d'.args = d.args) (hpath : d'.path = d.path) : d'.WellLaid := by
  obtain ⟨name, kind, optional, args, path⟩ := d
  obtain ⟨name', kind', optional', args', path'⟩ := d'
  cases hkind
  cases hargs
  cases hpath
  exact ⟨h.below, h.areLeaves, h.takes, h.flat⟩

section Rules

variable {c : TypeConstructor} {name : String} {kind : Kind} {path : List Nat} {t u : Typedef}

theorem wellLaid_leaf {args : List Expr} (h : leafKind? c args = some kind) :
    WellLaid ⟨name, kind, false, [], path⟩ where
  below := by simp
  areLeaves := by
    have hhead := head?_of_leafKind? h
    rintro (rfl | rfl)
    all_goals cases hhead
  takes := takes_zero_of_leafKind? h
  flat := by simp

theorem wellLaid_unary {component : String} (hc : componentName? c = some component)
    (ht : t.path = path ++ [0]) : WellLaid ⟨name, .type c, false, [t], path⟩ where
  below := List.forall_mem_singleton.mpr ⟨0, [], ht⟩
  areLeaves := by simp
  takes := by cases c <;> cases hc <;> simp [Kind.Takes]
  flat := by rintro ⟨⟩

theorem wellLaid_binary {components : String × String} (hc : componentNames? c = some components)
    (ht : t.path = path ++ [0]) (hu : u.path = path ++ [1]) :
    WellLaid ⟨name, .type c, false, [t, u], path⟩ where
  below := List.forall_mem_cons.mpr ⟨⟨0, [], ht⟩, List.forall_mem_singleton.mpr ⟨1, [], hu⟩⟩
  areLeaves := by simp
  takes := by cases c <;> cases hc <;> simp [Kind.Takes]
  flat := by rintro ⟨⟩

/-- Where the components lie at the leaves of a tree, there is nothing else to ask of a struct. -/
theorem wellLaid_struct {ts : List Typedef} {l r : BinaryTree} (hpaths : ∀ t ∈ ts, path <+: t.path)
    (htree : waysFrom path.length ts = (BinaryTree.node l r).addresses) :
    WellLaid ⟨name, .struct, false, numberFields ts, path⟩ where
  below := by
    intro c hc
    obtain ⟨t, ht, i, rfl⟩ := exists_of_mem_numberFields hc
    rw [path_named]
    exact below_of_waysFrom hpaths htree t ht
  areLeaves _ := by
    show AreLeaves (waysFrom path.length (numberFields ts))
    rw [waysFrom_numberFields, htree]
    exact areLeaves_node l r
  takes := trivial
  flat := by rintro ⟨⟩

theorem wellLaid_union {ts : List Typedef} {l r : BinaryTree} (hpaths : ∀ t ∈ ts, path <+: t.path)
    (htree : waysFrom path.length ts = (BinaryTree.node l r).addresses)
    (hflat : ∀ t ∈ ts, t.kind = .union → t.optional = true) :
    WellLaid ⟨name, .union, false, ts, path⟩ where
  below := below_of_waysFrom hpaths htree
  areLeaves _ := by
    show AreLeaves (waysFrom path.length ts)
    rw [htree]
    exact areLeaves_node l r
  takes := trivial
  flat _ := hflat

end Rules

/-- **A derived typedef** can be relied on at its root. -/
theorem Derives.wellLaid {e : Expr} {fallback : String} {path : List Nat} {t : Typedef}
    (h : Derives e fallback path t) : t.WellLaid := by
  induction e generalizing fallback path t with
  | int | string | bytes | seq => cases h
  | app p args annots flag ih =>
    cases h with
    | struct hfields =>
      obtain ⟨l, r, htree⟩ := hfields.exists_tree
      exact wellLaid_struct hfields.isPrefix htree
    | union hbranches =>
      obtain ⟨l, r, htree⟩ := hbranches.exists_tree
      exact wellLaid_union hbranches.isPrefix htree hbranches.flat
    | option hinner =>
      have hheld := ih _ (.head _) hinner
      exact hheld.congr rfl rfl hinner.path_eq.symm
    | leaf hkind => exact wellLaid_leaf hkind
    | unary hc hx => exact wellLaid_unary hc hx.path_eq
    | binary hc hx hy => exact wellLaid_binary hc hx.path_eq hy.path_eq

/-! ## Unfolded forms -/

/-- A field that is numbered anew keeps all but its name, and stays a group or none. -/
theorem exists_of_mem_renumber {fields : List Typedef} {c : Typedef} (h : c ∈ renumber fields) :
    ∃ f ∈ fields, ∃ n, c = { f with name := n } ∧ c.isGroup = f.isGroup := by
  obtain ⟨i, hi, rfl⟩ := List.exists_of_mem_mapIdx h
  refine ⟨fields[i], List.getElem_mem hi, ?_⟩
  obtain ⟨name, kind, optional, args, path⟩ := fields[i]
  split
  next hname =>
    have hanonymous := isAnonymousName_of_isPositionalName hname
    have hrepr := isAnonymousName_of_isPositionalName (isPositionalName_repr i)
    exact ⟨_, rfl, by simp [isGroup, isStruct, isAnonymous, hanonymous, hrepr]⟩
  next => exact ⟨name, rfl, rfl⟩

/-- What stands in place of a group is held by it. -/
theorem exists_of_mem_inlineGroups {ts : List Typedef} {f : Typedef} (h : f ∈ inlineGroups ts) :
    ∃ t ∈ ts, f = t ∧ t.isGroup = false ∨ f ∈ t.args ∧ t.isGroup = true := by
  obtain ⟨t, ht, hf⟩ := List.mem_flatMap.mp h
  refine ⟨t, ht, ?_⟩
  split at hf
  next hgroup => exact .inr ⟨hf, hgroup⟩
  next hgroup => exact .inl ⟨List.mem_singleton.mp hf, by simpa using hgroup⟩

theorem kind_of_isGroup {t : Typedef} (h : t.isGroup = true) : t.kind = .struct := by
  simp only [isGroup, isStruct, Bool.and_eq_true, beq_iff_eq] at h
  exact h.1.1

theorem waysFrom_renumber (depth : Nat) (ts : List Typedef) :
    waysFrom depth (renumber ts) = waysFrom depth ts :=
  map_renumber_of_blind (fun _ _ => rfl) ts

/-- The ways to what a group holds go on from the way to the group. -/
theorem waysFrom_args {path : List Nat} {t : Typedef} (h : path <+: t.path)
    (hbelow : ∀ c ∈ t.args, ∃ i rest, c.path = t.path ++ i :: rest) :
    waysFrom path.length t.args =
      (t.args.map (·.pathFrom t)).map (t.path.drop path.length ++ ·) := by
  rw [waysFrom, List.map_map]
  refine List.map_congr_left fun c hc => ?_
  obtain ⟨i, rest, hc⟩ := hbelow c hc
  obtain ⟨way, hway⟩ := h
  simp [pathFrom, hc, ← hway]

/-- **Groups replaced by what they hold** are leaves replaced by trees. -/
theorem exists_waysFrom_inlineGroups {path : List Nat} {ts : List Typedef} {l r : BinaryTree}
    (hpaths : ∀ t ∈ ts, path <+: t.path)
    (htree : waysFrom path.length ts = (BinaryTree.node l r).addresses)
    (hheld : ∀ t ∈ ts, t.WellLaid) :
    ∃ l r, waysFrom path.length (inlineGroups ts) = (BinaryTree.node l r).addresses := by
  have hparts : ∀ t ∈ ts, ∃ s : BinaryTree,
      waysFrom path.length (if t.isGroup then t.args else [t]) =
        s.addresses.map (t.path.drop path.length ++ ·) := by
    intro t ht
    split
    next hgroup =>
      obtain ⟨l, r, hways⟩ := ((hheld t ht).areLeaves (.inl (kind_of_isGroup hgroup))).exists_tree
      exact ⟨_, by rw [waysFrom_args (hpaths t ht) (hheld t ht).below, hways]⟩
    next => exact ⟨.leaf, by simp [waysFrom, BinaryTree.addresses]⟩
  choose! tree hparts using hparts
  obtain ⟨s, hs, hleaf⟩ := BinaryTree.exists_graft (.node l r) ts _ tree htree
  rw [← List.flatMap_congr hparts] at hs
  rw [waysFrom, inlineGroups, List.map_flatMap]
  cases s with
  | leaf => cases hleaf rfl
  | node l r => exact ⟨l, r, hs⟩

section Groups

variable {name : String} {optional : Bool} {path : List Nat} {ts : List Typedef}

theorem wellLaid_inlineGroups (h : WellLaid ⟨name, .struct, optional, ts, path⟩)
    (hheld : ∀ t ∈ ts, t.WellLaid) :
    WellLaid ⟨name, .struct, optional, renumber (inlineGroups ts), path⟩ where
  below := by
    intro c hc
    obtain ⟨f, hf, n, rfl, -⟩ := exists_of_mem_renumber hc
    obtain ⟨t, ht, ⟨rfl, -⟩ | ⟨hf, -⟩⟩ := exists_of_mem_inlineGroups hf
    · exact h.below f ht
    · obtain ⟨i, rest, hpath⟩ := h.below t ht
      obtain ⟨j, more, hpath'⟩ := (hheld t ht).below f hf
      exact ⟨i, rest ++ j :: more, by rw [hpath', hpath]; simp⟩
  areLeaves _ := by
    obtain ⟨l, r, htree⟩ := (h.areLeaves (.inl rfl)).exists_tree
    obtain ⟨l, r, htree⟩ := exists_waysFrom_inlineGroups h.isPrefix htree hheld
    show AreLeaves (waysFrom path.length (renumber (inlineGroups ts)))
    rw [waysFrom_renumber, htree]
    exact areLeaves_node l r
  takes := trivial
  flat := by simp

theorem ungrouped_inlineGroups (hheld : ∀ t ∈ ts, t.Ungrouped) :
    Ungrouped ⟨name, .struct, optional, renumber (inlineGroups ts), path⟩ := by
  intro _ c hc
  obtain ⟨f, hf, n, -, hgroup⟩ := exists_of_mem_renumber hc
  rw [hgroup]
  obtain ⟨t, ht, ⟨rfl, hf⟩ | ⟨hf, ht'⟩⟩ := exists_of_mem_inlineGroups hf
  · exact hf
  · exact hheld t ht (kind_of_isGroup ht') f hf

end Groups

/-- A node keeps what can be relied on when its components are replaced one by one. -/
theorem wellLaid_map_unfold {name : String} {kind : Kind} {optional : Bool} {ts : List Typedef}
    {path : List Nat} (h : WellLaid ⟨name, kind, optional, ts, path⟩) :
    WellLaid ⟨name, kind, optional, ts.map unfold, path⟩ where
  below := by simpa using h.below
  areLeaves := by simpa [pathFrom, Function.comp_def] using h.areLeaves
  takes := by simpa using h.takes
  flat := by simpa using h.flat

/-- What holds at the nodes of a field holds at those of the field under another name. -/
theorem forall_mem_nodes_rename {P : Typedef → Prop} {f : Typedef} {n : String}
    (hname : P f → P { f with name := n }) (h : ∀ d ∈ f.nodes, P d) :
    ∀ d ∈ ({ f with name := n } : Typedef).nodes, P d := by
  intro d hd
  rcases mem_nodes.mp hd with rfl | hd
  · exact hname (h f (mem_nodes.mpr (.inl rfl)))
  · exact h d (mem_nodes.mpr (.inr hd))

/-- **What unfolding brings about** holds at all nodes of the unfolded form, if it holds at a node
as soon as it holds at its unfolded components. -/
theorem forall_mem_nodes_unfold {P : Typedef → Prop}
    (hname : ∀ (f : Typedef) (n : String), P f → P { f with name := n }) (t : Typedef)
    (hnode : ∀ d ∈ t.nodes, (∀ c ∈ d.args.map unfold, P c) → P d.unfold) :
    ∀ d ∈ t.unfold.nodes, P d := by
  -- Induction on the typedef: what is listed at a struct are unfolded components and what those
  -- hold, so that nothing but the struct itself has to be looked at.
  induction t using args_induction with
  | node t ih =>
    obtain ⟨name, kind, optional, args, path⟩ := t
    have hparts : ∀ p ∈ args.map unfold, ∀ d ∈ p.nodes, P d := by
      rw [List.forall_mem_map]
      exact fun arg harg => ih arg harg fun d hd =>
        hnode d (mem_nodes.mpr (.inr ⟨arg, harg, hd⟩))
    have hroot := hnode _ (mem_nodes.mpr (.inl rfl)) fun c hc =>
      hparts c hc c (mem_nodes.mpr (.inl rfl))
    intro d hd
    rcases mem_nodes.mp hd with rfl | ⟨c, hc, hd⟩
    · exact hroot
    by_cases hkind : kind = .struct
    · subst hkind
      rw [unfold_struct] at hc
      obtain ⟨f, hf, n, rfl, -⟩ := exists_of_mem_renumber hc
      have hfield : ∀ d ∈ f.nodes, P d := by
        obtain ⟨p, hp, ⟨rfl, -⟩ | ⟨hf, -⟩⟩ := exists_of_mem_inlineGroups hf
        · exact hparts f hp
        · exact fun d hd => hparts p hp d (mem_nodes.mpr (.inr ⟨f, hf, hd⟩))
      exact forall_mem_nodes_rename (hname f n) hfield d hd
    · rw [unfold_of_ne hkind] at hc
      exact hparts c hc d hd

/-- **The unfolded form** can be relied on wherever the typedef can, and has no groups. -/
theorem wellLaid_unfold (t : Typedef) (h : ∀ d ∈ t.nodes, d.WellLaid) :
    ∀ d ∈ t.unfold.nodes, d.WellLaid ∧ d.Ungrouped := by
  refine forall_mem_nodes_unfold (fun f n h => ⟨h.1.congr rfl rfl rfl, h.2⟩) t ?_
  rintro ⟨name, kind, optional, args, path⟩ hd hparts
  have hroot := wellLaid_map_unfold (h _ hd)
  by_cases hkind : kind = .struct
  · subst hkind
    rw [unfold_struct]
    exact ⟨wellLaid_inlineGroups hroot fun p hp => (hparts p hp).1,
      ungrouped_inlineGroups fun p hp => (hparts p hp).2⟩
  · rw [unfold_of_ne hkind]
    exact ⟨hroot, fun hstruct => absurd hstruct hkind⟩

/-- **The layout of typedefs.** At every node of a derived typedef, the components lie beneath the
node, fields and branches at the leaves of a full binary tree, all other kinds have as many
components as are due to them, and no union has a mandatory union as a branch. The same holds at
every node of the unfolded form, and no struct there has a group as a field. -/
theorem wellLaid_of_mem_nodes (e : Expr) (name : String) (t : Typedef)
    (h : derive e name = .ok t) :
    (∀ d ∈ t.nodes, d.WellLaid) ∧ ∀ d ∈ t.unfold.nodes, d.WellLaid ∧ d.Ungrouped := by
  have hnodes : ∀ d ∈ t.nodes, d.WellLaid := by
    intro d hd
    obtain ⟨x, -, hx⟩ := (derives_of_build _ _ _ _ h).of_mem_nodes d hd
    exact hx.wellLaid
  exact ⟨hnodes, wellLaid_unfold t hnodes⟩

/-- A section of alternatives on two levels. One of them is a pair of pairs, of which one has a
name, and another is an option of alternatives. -/
def groupedSection : Expr :=
  .app (.keyword .parameter)
    [.app (.type .or)
      [.app (.type .or)
        [.app (.type .pair)
          [.app (.type .pair) [.plainType .nat, .plainType .int],
            .app (.type .pair) [.plainType .string, .plainType .bytes] ["%note"],
            .plainType .mutez]
          ["%put"],
          .app (.type .option) [.app (.type .or) [.plainType .unit, .plainType .address]]],
        .app (.type .lambda) [.plainType .nat, .plainType .nat] ["%run"]]]

/-- The pair of pairs has three fields, and four in the unfolded form. -/
theorem wellLaid_of_mem_nodes_grouped :
    ∃ t, derive groupedSection "main" = .ok t ∧
      (∃ d ∈ t.nodes, d.name = "put" ∧ d.args.map (·.pathFrom d) = [[0], [1, 0], [1, 1]] ∧
        d.WellLaid) ∧
      ∃ d ∈ t.unfold.nodes, d.name = "put" ∧
        d.args.map (·.pathFrom d) = [[0, 0], [0, 1], [1, 0], [1, 1]] ∧ d.WellLaid ∧
          d.Ungrouped := by
  refine ⟨_, rfl, ⟨_, List.mem_of_getElem? (i := 1) rfl, rfl, rfl, ?_⟩,
    _, List.mem_of_getElem? (i := 1) rfl, rfl, rfl, ?_⟩
  · exact (wellLaid_of_mem_nodes groupedSection "main" _ rfl).1 _
      (List.mem_of_getElem? (i := 1) rfl)
  · exact (wellLaid_of_mem_nodes groupedSection "main" _ rfl).2 _
      (List.mem_of_getElem? (i := 1) rfl)

end Typedef

end Michelson

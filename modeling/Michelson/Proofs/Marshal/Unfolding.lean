import Michelson.Proofs.Marshal.Grafting
import Michelson.Proofs.Marshal.Outline
import Michelson.Proofs.Marshal.Supplying
import Michelson.Proofs.Typedef.Inlining

/-!
# Values built with the unfolded form

A group in a struct reads the object that the struct reads, and the comb that is built for it is
part of the comb of the struct. So nothing changes when the group gives way to what it holds: the
same members are read in the same order, and the same comb is assembled from what is built for them.
This needs fields that are looked up under the same names on both sides, so that all of them but the
groups have names of their own, and objects without a member that a group would take for its own.

## Main definitions

* `Json.KeysNamed`, `Json.ReadByName`: host values without unnamed keys
* `Typedef.FieldsNamed`: structs whose fields have names of their own, but for groups
* `Typedef.Spreads`: two runs over fields, of which one gives combs and the other their fields

## Main results

* `Typedef.spreads_fields`: the fields of a struct, with groups and with what they hold
* `Typedef.marshal_unfold`: typedefs that are laid out well
* `Typedef.marshal_unfold_of_derive`: derived typedefs
-/

namespace Michelson

/-! ## Host values without unnamed keys -/

namespace Json

/-- **Whether no object in a value has a key that stands for no name.** -/
def KeysNamed (value : Json) : Prop :=
  ∀ members, value.Holds (.object members) → ∀ m ∈ members, isAnonymousName m.1 = false

/-- **Whether a struct can only read the value by names**: it is no array, and as an object it has
no key that stands for no name. -/
def ReadByName : Json → Prop
  | array _ => False
  | object members => ∀ m ∈ members, isAnonymousName m.1 = false
  | _ => True

end Json

namespace Typedef

/-! ## Names of fields -/

/-- **Whether the fields of a struct have names of their own**, but for groups. -/
def FieldsNamed (d : Typedef) : Prop :=
  d.kind = .struct → ∀ c ∈ d.args, c.isGroup = false → c.isAnonymous = false

@[simp] theorem isAnonymous_unfold (t : Typedef) : t.unfold.isAnonymous = t.isAnonymous := by
  rw [isAnonymous, isAnonymous, name_unfold]

/-- **In the unfolded form** the fields of a struct stand in place of groups, and none has to be
numbered. -/
theorem args_unfold_of_fieldsNamed {t : Typedef} (h : ∀ d ∈ t.nodes, d.FieldsNamed)
    (hkind : t.kind = .struct) :
    t.unfold.args = inlineGroups (t.args.map unfold) ∧
      ∀ c ∈ t.unfold.args, c.isAnonymous = false := by
  induction t using args_induction with
  | node t ih =>
    have hnames : ∀ c ∈ inlineGroups (t.args.map unfold), c.isAnonymous = false := by
      intro c hc
      obtain ⟨p, hp, ⟨rfl, hgroup⟩ | ⟨hc, hgroup⟩⟩ := exists_of_mem_inlineGroups hc
      all_goals
        obtain ⟨arg, harg, rfl⟩ := List.mem_map.mp hp
        rw [isGroup_unfold] at hgroup
      · rw [isAnonymous_unfold]
        exact h t (mem_nodes.mpr (.inl rfl)) hkind arg harg hgroup
      · exact (ih arg harg (fun d hd => h d (mem_nodes.mpr (.inr ⟨arg, harg, hd⟩)))
          (kind_of_isGroup hgroup)).2 c hc
    have hargs : t.unfold.args = inlineGroups (t.args.map unfold) := by
      obtain ⟨name, kind, optional, args, path⟩ := t
      cases hkind
      rw [unfold_struct]
      refine renumber_eq_self fun i c hc hpos => ?_
      have hnamed := hnames c (List.mem_of_getElem? hc)
      rw [isAnonymous, isAnonymousName_of_isPositionalName hpos] at hnamed
      cases hnamed
    rw [hargs]
    exact ⟨rfl, hnames⟩

/-! ## Fields of a struct -/

section Fields

variable {form : ScalarForm} {value : Json}

/-- A field under the same name and of the same kind reads the same. -/
theorem hostField_unfold (struct c : Typedef) (position : Nat) :
    struct.hostField value position c.unfold = struct.hostField value position c := by
  simp [hostField, isStruct]

theorem pathFrom_unfold (struct c : Typedef) : c.unfold.pathFrom struct = c.pathFrom struct := by
  rw [pathFrom, pathFrom, path_unfold]

/-- A struct of the same name at the same path has the same fields. -/
theorem marshalFields_congr {struct struct' : Typedef} (hname : struct'.name = struct.name)
    (hpath : struct'.path = struct.path) (position : Nat) (ts : List Typedef) :
    marshalFields form struct' value position ts = marshalFields form struct value position ts := by
  have hhost (position : Nat) (c : Typedef) :
      struct'.hostField value position c = struct.hostField value position c := by
    cases value <;> simp [hostField, misshapen, hname]
  induction ts generalizing position with
  | nil => rfl
  | cons t ts ih => rw [marshalFields, marshalFields, hhost, ih, pathFrom, pathFrom, hpath]

/-- What is built for the fields comes with their ways. -/
theorem map_fst_of_marshalFields {struct : Typedef} {position : Nat} {ts : List Typedef}
    {fields : List (List Nat × Expr)}
    (h : marshalFields form struct value position ts = .ok fields) :
    fields.map (·.1) = ts.map (·.pathFrom struct) := by
  have hbuilds := buildsFields_of_marshalFields h
  clear h
  induction hbuilds with
  | nil => rfl
  | cons hfield _ ih =>
    rw [List.map_cons, List.map_cons, hfield.1, ih]
    rfl

/-- The fields of a struct that lies at a leaf of another, read from the same object: they are those
that it reads itself, seen from further up. -/
theorem marshalFields_under {struct inner : Typedef} {way : List Nat} {ts : List Typedef}
    (hways : ∀ c ∈ ts, c.pathFrom struct = way ++ c.pathFrom inner)
    (members : List (String × Json)) (i j : Nat) :
    marshalFields form struct (.object members) i ts =
      (·.map (Expr.under way)) <$> marshalFields form inner (.object members) j ts := by
  induction ts generalizing i j with
  | nil => rfl
  | cons t ts ih =>
    rw [List.forall_mem_cons] at hways
    rw [marshalFields, marshalFields, ih hways.2 (i + 1) (j + 1), hways.1]
    have hhost : struct.hostField (.object members) i t =
        inner.hostField (.object members) j t := rfl
    rw [hhost]
    simp only [map_bind, bind_map_left, map_pure, List.map_cons, Expr.under]

section ByName

variable (hread : value.ReadByName) {struct : Typedef}

include hread

/-- Where fields are read by names, their positions do not matter. -/
theorem hostField_position (i j : Nat) (c : Typedef) :
    struct.hostField value i c = struct.hostField value j c := by
  cases value with
  | array items => exact hread.elim
  | _ => rfl

theorem marshalFields_position (i j : Nat) (ts : List Typedef) :
    marshalFields form struct value i ts = marshalFields form struct value j ts := by
  induction ts generalizing i j with
  | nil => rfl
  | cons t ts ih =>
    rw [marshalFields, marshalFields, hostField_position hread i j, ih (i + 1) (j + 1)]

theorem marshalFields_append (i : Nat) (ts us : List Typedef) :
    marshalFields form struct value i (ts ++ us) = (do
      let fs ← marshalFields form struct value i ts
      let gs ← marshalFields form struct value i us
      return fs ++ gs) := by
  induction ts generalizing i with
  | nil =>
    rw [List.nil_append, marshalFields]
    exact (bind_pure _).symm
  | cons t ts ih =>
    rw [List.cons_append, marshalFields, marshalFields, ih (i + 1),
      marshalFields_position hread (i + 1) i us]
    simp only [bind_assoc, pure_bind, List.cons_append]

end ByName

end Fields

/-! ## Groups -/

/-- Whether a run fails as another one does, or gives what stands for the fields that the other one
gives. -/
def Spreads {ε : Type} (run run' : Except ε (List (List Nat × Expr))) : Prop :=
  match run with
  | .ok fields =>
    ∃ pieces, List.Forall₂ Expr.StandsFor pieces fields ∧ run' = .ok pieces.flatten
  | .error e => run' = .error e

theorem spreads_self {ε : Type} (run : Except ε (List (List Nat × Expr))) : Spreads run run := by
  cases run with
  | error e => rfl
  | ok fields =>
    refine ⟨fields.map fun f => [f], ?_, ?_⟩
    · rw [List.forall₂_map_left_iff, List.forall₂_same]
      exact fun f _ => Expr.standsFor_self f
    · rw [← List.flatMap_def, List.flatMap_singleton']

theorem Spreads.append {ε : Type} {x x' y y' : Except ε (List (List Nat × Expr))}
    (hx : Spreads x x') (hy : Spreads y y') :
    Spreads (do let fs ← x; let gs ← y; return fs ++ gs)
      (do let fs ← x'; let gs ← y'; return fs ++ gs) := by
  cases x with
  | error e =>
    obtain rfl : x' = .error e := hx
    rfl
  | ok fs =>
    obtain ⟨pieces, hpieces, rfl⟩ := hx
    cases y with
    | error e =>
      obtain rfl : y' = .error e := hy
      rfl
    | ok gs =>
      obtain ⟨more, hmore, rfl⟩ := hy
      exact ⟨pieces ++ more, List.rel_append hpieces hmore,
        congrArg Except.ok List.flatten_append.symm⟩

section Structs

variable {form : ScalarForm} {t : Typedef} {value : Json}

theorem unwrapName_of_struct (hkind : t.kind = .struct) : t.unwrapName value = value := by
  unfold unwrapName
  split
  · rw [if_pos (by simp [isStruct, hkind])]
  · rfl

/-- A single field of a struct. -/
theorem marshalFields_singleton (i : Nat) (c : Typedef) :
    marshalFields form t value i [c] = t.hostField value i c >>= fun x =>
      c.marshal form x >>= fun e => pure [(c.pathFrom t, e)] := rfl

/-- The fields of a struct that is laid out well have a comb. -/
theorem exists_assembles_of_marshalFields (hkind : t.kind = .struct) (hlaid : t.WellLaid)
    {fields : List (List Nat × Expr)} (hfields : marshalFields form t value 0 t.args = .ok fields) :
    ∃ e, Expr.Assembles fields e := by
  obtain ⟨l, r, htree⟩ := (hlaid.areLeaves (.inl hkind)).exists_tree
  exact Expr.exists_assembles (.node l r) ((map_fst_of_marshalFields hfields).trans htree)

/-- What is built for a struct is the comb of its fields. -/
theorem marshalHeld_struct_ok (hkind : t.kind = .struct) {fields : List (List Nat × Expr)}
    {e : Expr} (hfields : marshalFields form t value 0 t.args = .ok fields)
    (he : Expr.Assembles fields e) : marshalHeld form t value = .ok e := by
  simp only [marshalHeld, hkind, hfields]
  refine bind_eq_ok_iff.mpr ⟨fields, rfl, ?_⟩
  rw [he.assemble?_eq]
  rfl

/-- Without its fields nothing is built for a struct. -/
theorem marshalHeld_struct_error (hkind : t.kind = .struct) {err : MarshalError}
    (hfields : marshalFields form t value 0 t.args = .error err) :
    marshalHeld form t value = .error err := by
  simp only [marshalHeld, hkind, hfields]
  rfl

variable {g : Typedef} (hgroup : g.isGroup = true)

include hgroup

theorem optional_of_isGroup : g.optional = false := by
  simp only [isGroup, Bool.and_eq_true, Bool.not_eq_true'] at hgroup
  exact hgroup.1.2

/-- A group reads the object that the struct reads. -/
theorem hostField_of_isGroup {members : List (String × Json)}
    (hread : Json.ReadByName (.object members)) (position : Nat) :
    t.hostField (.object members) position g = .ok (.object members) := by
  have hanonymous : isAnonymousName g.name = true := by
    simp only [isGroup, Bool.and_eq_true] at hgroup
    exact hgroup.2
  have hlookup : Json.lookup? g.name members = none := by
    rw [Json.lookup?, Option.map_eq_none_iff, List.find?_eq_none]
    intro m hm hname
    have hnamed := hread m hm
    rw [beq_iff_eq.mp hname, hanonymous] at hnamed
    cases hnamed
  rw [hostField, hlookup]
  simp only
  rw [optional_of_isGroup hgroup, isStruct, kind_of_isGroup hgroup, isAnonymous, hanonymous]
  rfl

theorem marshal_of_isGroup : g.marshal form value = marshalHeld form g value := by
  rw [marshal_eq, optional_of_isGroup hgroup, unwrapName_of_struct (kind_of_isGroup hgroup)]
  exact bind_pure _

/-- **A group and what it holds**, read as fields of a struct. -/
theorem spreads_group (hread : value.ReadByName) (hpath : t.path <+: g.path) (hlaid : g.WellLaid)
    (i : Nat) :
    Spreads (marshalFields form t value i [g]) (marshalFields form t value i g.args) := by
  have hstruct := kind_of_isGroup hgroup
  cases value with
  | array items => exact hread.elim
  | object members =>
    have hways : ∀ c ∈ g.args, c.pathFrom t = g.pathFrom t ++ c.pathFrom g := by
      intro c hc
      obtain ⟨rest, hrest⟩ := hlaid.isPrefix c hc
      obtain ⟨way, hway⟩ := hpath
      simp [pathFrom, ← hrest, ← hway]
    have hone : marshalFields form t (.object members) i [g] =
        marshalHeld form g (.object members) >>= fun e => pure [(g.pathFrom t, e)] := by
      rw [marshalFields_singleton, hostField_of_isGroup hgroup hread, ← marshal_of_isGroup hgroup]
      rfl
    rw [marshalFields_under hways members i 0, hone]
    cases hfields : marshalFields form g (.object members) 0 g.args with
    | error err =>
      rw [marshalHeld_struct_error hstruct hfields]
      rfl
    | ok fields =>
      obtain ⟨e, he⟩ := exists_assembles_of_marshalFields hstruct hlaid hfields
      rw [marshalHeld_struct_ok hstruct hfields he]
      refine ⟨[fields.map (Expr.under (g.pathFrom t))], .cons ⟨fields, he, rfl⟩ .nil, ?_⟩
      rw [List.flatten_singleton]
      rfl
  | _ =>
    obtain ⟨_, hmem, -⟩ := (hlaid.areLeaves (.inl hstruct)).complete [] (by simp)
    obtain ⟨c, hc, -⟩ := List.mem_map.mp hmem
    obtain ⟨c, cs, hargs⟩ := List.exists_cons_of_ne_nil (List.ne_nil_of_mem hc)
    rw [hargs]
    rfl

end Structs

/-! ## Unfolded forms -/

section Unfolded

variable {form : ScalarForm} {t : Typedef} {value : Json}

/-- **The fields of a struct**, with groups and with what they hold, where the unfolded form of each
field builds the same. -/
theorem spreads_fields (hread : value.ReadByName) {ts : List Typedef}
    (hpaths : ∀ c ∈ ts, t.path <+: c.path)
    (hlaid : ∀ c ∈ ts, c.unfold.WellLaid)
    (hsame : ∀ c ∈ ts, ∀ x, t.hostField value 0 c = .ok x →
      c.marshal form x = c.unfold.marshal form x) :
    Spreads (marshalFields form t value 0 ts)
      (marshalFields form t value 0 (inlineGroups (ts.map unfold))) := by
  induction ts with
  | nil => exact spreads_self _
  | cons c cs ih =>
    rw [List.forall_mem_cons] at hpaths hlaid hsame
    have hunfold : marshalFields form t value 0 [c] = marshalFields form t value 0 [c.unfold] := by
      rw [marshalFields_singleton, marshalFields_singleton, hostField_unfold, pathFrom_unfold]
      exact bind_congr_of_ok fun x hx => congrArg (· >>= _) (hsame.1 x hx)
    have hfirst : Spreads (marshalFields form t value 0 [c]) (marshalFields form t value 0
        (if c.unfold.isGroup then c.unfold.args else [c.unfold])) := by
      rw [hunfold]
      split
      next hgroup =>
        exact spreads_group hgroup hread (by rw [path_unfold]; exact hpaths.1) hlaid.1 0
      next => exact spreads_self _
    have happend := hfirst.append (ih hpaths.2 hlaid.2 hsame.2)
    rw [← marshalFields_append hread, ← marshalFields_append hread] at happend
    exact happend

theorem find?_map_unfold (name : String) (ts : List Typedef) :
    (ts.map unfold).find? (·.name == name) = (ts.find? (·.name == name)).map unfold := by
  have hname : ((·.name == name) ∘ unfold) = fun t => t.name == name :=
    funext fun t => by rw [Function.comp_apply, name_unfold]
  rw [List.find?_map, hname]

theorem unwrapName_unfold (t : Typedef) (value : Json) :
    t.unfold.unwrapName value = t.unwrapName value := by
  have hown : (t.unfold.isUnion && (t.unfold.child? t.name).isSome) =
      (t.isUnion && (t.child? t.name).isSome) := by
    obtain ⟨name, kind, optional, args, path⟩ := t
    by_cases hkind : kind = .struct
    · subst hkind
      rw [unfold_struct]
      rfl
    · rw [unfold_of_ne hkind, child?, child?, find?_map_unfold, Option.isSome_map]
      rfl
  unfold unwrapName
  rw [name_unfold, hown, isStruct, isStruct, kind_unfold]

theorem args_unfold_of_ne (hkind : t.kind ≠ .struct) : t.unfold.args = t.args.map unfold := by
  obtain ⟨name, kind, optional, args, path⟩ := t
  rw [unfold_of_ne hkind]

/-- Scalars have no components. -/
theorem scalar_unfold (t : Typedef) (c : TypeConstructor) (value : Json) :
    t.unfold.scalar c form value = t.scalar c form value := by
  obtain ⟨name, kind, optional, args, path⟩ := t
  rw [unfold]
  cases c <;> rfl

theorem hostBranch_unfold (hkind : t.kind ≠ .struct) (value : Json) :
    t.unfold.hostBranch value = (fun p => (p.1.unfold, p.2)) <$> t.hostBranch value := by
  unfold hostBranch
  split
  · rw [args_unfold_of_ne hkind, find?_map_unfold, name_unfold]
    cases t.args.find? _ <;> rfl
  · rw [name_unfold]
    rfl
  · rw [misshapen, misshapen, name_unfold]
    rfl

section Components

variable (hsame : ∀ c x, t.Passes value c x → c.marshal form x = c.unfold.marshal form x)

include hsame

/-- What is built for a struct and for its unfolded form. -/
theorem marshalHeld_unfold_struct (hkind : t.kind = .struct) (hlaid : ∀ d ∈ t.nodes, d.WellLaid)
    (hnamed : ∀ d ∈ t.nodes, d.FieldsNamed) (hread : value.ReadByName) :
    marshalHeld form t value = marshalHeld form t.unfold value := by
  have hroot := hlaid t (mem_nodes.mpr (.inl rfl))
  have hspreads : Spreads (marshalFields form t value 0 t.args)
      (marshalFields form t.unfold value 0 t.unfold.args) := by
    rw [marshalFields_congr (name_unfold t) (path_unfold t),
      (args_unfold_of_fieldsNamed hnamed hkind).1]
    refine spreads_fields hread hroot.isPrefix (fun c hc => ?_) fun c hc x hx => ?_
    · have hparts : ∀ d ∈ c.nodes, d.WellLaid :=
        fun d hd => hlaid d (mem_nodes.mpr (.inr ⟨c, hc, hd⟩))
      exact (wellLaid_unfold c hparts _ (mem_nodes.mpr (.inl rfl))).1
    · obtain ⟨i, hi⟩ := List.getElem?_of_mem hc
      rw [hostField_position hread 0 i] at hx
      refine hsame c x (.field hkind hi ?_)
      rw [unwrapName_of_struct hkind]
      exact hx
  have hkind' : t.unfold.kind = .struct := by rw [kind_unfold, hkind]
  cases hfields : marshalFields form t value 0 t.args with
  | error err =>
    rw [hfields] at hspreads
    rw [marshalHeld_struct_error hkind hfields, marshalHeld_struct_error hkind' hspreads]
  | ok fields =>
    rw [hfields] at hspreads
    obtain ⟨pieces, hpieces, hfields'⟩ := hspreads
    obtain ⟨e, he⟩ := exists_assembles_of_marshalFields hkind hroot hfields
    rw [marshalHeld_struct_ok hkind hfields he,
      marshalHeld_struct_ok hkind' hfields' (he.flatten hpieces)]

theorem marshalItems_unfold (hkind : t.kind.isType .list = true ∨ t.kind.isType .set = true) :
    marshalItems form t (t.unwrapName value) t.args =
      marshalItems form t.unfold (t.unwrapName value) (t.args.map unfold) := by
  have hhost (v : Json) : t.unfold.hostItems v = t.hostItems v := by
    cases v <;> simp [hostItems, misshapen]
  cases hargs : t.args with
  | nil => simp [marshalItems, unsupported]
  | cons c rest =>
    rw [List.map_cons, marshalItems, marshalItems, hhost]
    exact bind_congr_of_ok fun items hitems => mapM_congr_of_mem fun x hx =>
      hsame c x (.item hkind hargs hitems hx)

theorem marshalEntries_unfold (hkind : t.kind.isType .map = true ∨ t.kind.isType .bigMap = true) :
    marshalEntries form t (t.unwrapName value) t.args =
      marshalEntries form t.unfold (t.unwrapName value) (t.args.map unfold) := by
  have hhost (v : Json) : t.unfold.hostEntry v = t.hostEntry v := by
    cases v <;> simp [hostEntry, misshapen]
  rcases hargs : t.args with _ | ⟨c, _ | ⟨d, rest⟩⟩
  · simp [marshalEntries, unsupported]
  · simp [marshalEntries, unsupported]
  · have hentry {x y : Json} (hx : t.Enters (t.unwrapName value) x y) :
        c.marshal form x = c.unfold.marshal form x ∧ d.marshal form y = d.unfold.marshal form y :=
      ⟨hsame c x (.key hkind hargs hx), hsame d y (.value hkind hargs hx)⟩
    rw [List.map_cons, List.map_cons]
    revert hentry
    cases t.unwrapName value with
    | object members =>
      intro hentry
      refine mapM_congr_of_mem fun m hm => ?_
      simp only [hentry (.member hm)]
    | array items =>
      intro hentry
      refine mapM_congr_of_mem fun item hitem => ?_
      rw [hhost]
      refine bind_congr_of_ok fun host hread => ?_
      simp only [hentry (.item hitem hread)]
    | _ =>
      intro _
      simp [marshalEntries, misshapen]

theorem marshalBranch_unfold (hkind : t.kind = .union) :
    (t.hostBranch (t.unwrapName value) >>= fun p => marshalBranch form t p.1.name p.2 t.args) =
      t.unfold.hostBranch (t.unwrapName value) >>= fun p =>
        marshalBranch form t.unfold p.1.name p.2 t.unfold.args := by
  have hne : t.kind ≠ .struct := by
    rw [hkind]
    exact Kind.noConfusion
  rw [hostBranch_unfold hne, bind_map_left]
  refine bind_congr_of_ok fun ⟨b, inner⟩ hb => ?_
  have hfind : t.args.find? (·.name == b.name) = some b := find?_of_hostBranch hb
  have hfind' : t.unfold.args.find? (·.name == b.unfold.name) = some b.unfold := by
    rw [args_unfold_of_ne hne, find?_map_unfold, name_unfold, hfind]
    rfl
  rw [marshalBranch_eq, marshalBranch_eq, hfind, hfind', Option.elim_some, Option.elim_some,
    pathFrom_unfold, pathFrom, pathFrom, path_unfold, hsame b inner (.branch hkind hb)]

/-- Values of a type with a constructor of its own. -/
theorem marshalHeld_unfold_type {c : TypeConstructor} (hhead : t.kind.head? = some (.type c)) :
    marshalHeld form t (t.unwrapName value) = marshalHeld form t.unfold (t.unwrapName value) := by
  have hne : t.kind ≠ .struct := by
    rintro hkind
    rw [hkind] at hhead
    cases hhead
  have his := Kind.isType_iff.mpr hhead
  unfold marshalHeld
  rw [kind_unfold, args_unfold_of_ne hne]
  rcases Kind.head?_eq_type_iff.mp hhead with hkind | ⟨size, hkind⟩
  all_goals
    rw [hkind]
    cases c with
    | list =>
      simp only
      rw [marshalItems_unfold hsame (.inl his)]
    | set =>
      simp only
      rw [marshalItems_unfold hsame (.inr his)]
    | map =>
      simp only
      rw [marshalEntries_unfold hsame (.inl his)]
    | bigMap =>
      have hentries := marshalEntries_unfold hsame (.inr his)
      have hnumber (v : Json) : t.unfold.hostInteger false v = t.hostInteger false v :=
        @scalar_unfold form t .int v
      revert hentries
      cases t.unwrapName value with
      | number n => exact fun _ => (hnumber _).symm
      | _ =>
        intro hentries
        simp only
        rw [hentries]
    | _ => exact (scalar_unfold t _ _).symm

/-- The unfolded form of what is no struct builds the same if the unfolded forms of its components
do. -/
theorem marshalHeld_unfold_of_ne (hne : t.kind ≠ .struct) :
    marshalHeld form t (t.unwrapName value) = marshalHeld form t.unfold (t.unwrapName value) := by
  cases hkind : t.kind with
  | struct => exact absurd hkind hne
  | union =>
    unfold marshalHeld
    rw [kind_unfold, hkind]
    exact marshalBranch_unfold hsame hkind
  | type c => exact marshalHeld_unfold_type hsame (congrArg Kind.head? hkind)
  | sapling p size =>
    cases p with
    | type c => exact marshalHeld_unfold_type hsame (congrArg Kind.head? hkind)
    | _ =>
      unfold marshalHeld
      rw [kind_unfold, hkind]
      simp [unsupported]

end Components

/-- **The unfolded form** of a typedef that is laid out well builds the same, if all fields but
groups have names of their own and structs read by names. -/
theorem marshal_unfold (form : ScalarForm) (t : Typedef) (value : Json)
    (hlaid : ∀ d ∈ t.nodes, d.WellLaid) (hnamed : ∀ d ∈ t.nodes, d.FieldsNamed)
    (hread : ∀ d x, t.Supplies value d x → d.kind = .struct → x.ReadByName) :
    t.marshal form value = t.unfold.marshal form value := by
  induction t using args_induction generalizing value with
  | node t ih =>
    have hsame (c : Typedef) (x : Json) (hpass : t.Passes value c x) :
        c.marshal form x = c.unfold.marshal form x := by
      have hparts {d : Typedef} (hd : d ∈ c.nodes) : d ∈ t.nodes :=
        mem_nodes.mpr (.inr ⟨c, hpass.mem_args, hd⟩)
      exact ih c hpass.mem_args x (fun d hd => hlaid d (hparts hd))
        (fun d hd => hnamed d (hparts hd)) fun d y hy => hread d y (.part hpass hy)
    have hheld : marshalHeld form t (t.unwrapName value) =
        marshalHeld form t.unfold (t.unwrapName value) := by
      by_cases hkind : t.kind = .struct
      · rw [unwrapName_of_struct hkind]
        exact marshalHeld_unfold_struct hsame hkind hlaid hnamed
          (hread t value (.self t value) hkind)
      · exact marshalHeld_unfold_of_ne hsame hkind
    rw [marshal_eq, marshal_eq, optional_unfold, unwrapName_unfold]
    revert hheld
    cases t.unwrapName value <;> cases t.optional <;> intro hheld <;> simp only [hheld]

end Unfolded

/-- **Building through the unfolded form.** Let the fields of all structs in a derived typedef have
names of their own, but for the groups. Then its unfolded form builds the same values and fails in
the same ways for every host value in which no object has an unnamed key and no struct is given by
an array. In particular this is so if all structs are given by objects. -/
theorem marshal_unfold_of_derive (type : Expr) (name : String) (t : Typedef)
    (hderive : derive type name = .ok t) (hnamed : ∀ d ∈ t.nodes, d.FieldsNamed) (value : Json)
    (hkeys : value.KeysNamed)
    (harrays : ∀ d x, t.Supplies value d x → d.kind = .struct → ∀ items, x ≠ .array items)
    (form : ScalarForm) : t.marshal form value = t.unfold.marshal form value := by
  refine marshal_unfold form t value (wellLaid_of_mem_nodes type name t hderive).1 hnamed ?_
  intro d x hsupplies hkind
  cases x with
  | array items => exact absurd rfl (harrays d _ hsupplies hkind items)
  | object members =>
    rcases hsupplies.holds with hheld | hnull | ⟨s, hstring⟩
    · exact hkeys members hheld
    · cases hnull
    · cases hstring
  | _ => trivial

/-- A comb in which the first two fields are in a pair of their own. -/
def contactType : Expr :=
  .app (.type .pair)
    [.app (.type .pair) [.app (.type .string) [] ["%street"], .app (.type .nat) [] ["%number"]],
      .app (.type .string) [] ["%name"]]

/-- The typedef of the pair of their own. -/
def placeTypedef : Typedef :=
  ⟨"0", .struct, false,
    [⟨"street", .type .string, false, [], [0, 0]⟩, ⟨"number", .type .nat, false, [], [0, 1]⟩], [0]⟩

/-- The typedef of the comb. -/
def contactTypedef : Typedef :=
  ⟨"contact", .struct, false, [placeTypedef, ⟨"name", .type .string, false, [], [1]⟩], []⟩

/-- The members of a host value of the comb. -/
def contactMembers : List (String × Json) :=
  [("name", .string "bakery"), ("number", .number (.integer 12)), ("street", .string "Main")]

theorem marshal_unfold_of_derive_contact :
    derive contactType "contact" = .ok contactTypedef ∧
      contactTypedef.unfold.args.map (·.name) = ["street", "number", "name"] ∧
      (contactTypedef.marshal .readable (.object contactMembers)).isOk = true ∧
      contactTypedef.marshal .readable (.object contactMembers) =
        contactTypedef.unfold.marshal .readable (.object contactMembers) := by
  have hparts : ∀ part, Json.Holds (.object contactMembers) part →
      part = .object contactMembers ∨ (∃ s, part = .string s) ∨ ∃ n, part = .number n := by
    intro part hpart
    cases hpart with
    | self => exact .inl rfl
    | member hm h =>
      simp only [contactMembers, List.mem_cons, List.not_mem_nil, or_false] at hm
      rcases hm with rfl | rfl | rfl <;> cases h
      · exact .inr (.inl ⟨_, rfl⟩)
      · exact .inr (.inr ⟨_, rfl⟩)
      · exact .inr (.inl ⟨_, rfl⟩)
  have hnamed : ∀ d ∈ contactTypedef.nodes, d.FieldsNamed := by
    unfold FieldsNamed
    decide
  refine ⟨rfl, by decide, by decide +kernel,
    marshal_unfold_of_derive contactType "contact" contactTypedef rfl hnamed _ ?_ ?_ .readable⟩
  · intro members hheld
    rcases hparts _ hheld with heq | ⟨_, heq⟩ | ⟨_, heq⟩ <;> cases heq
    decide
  · rintro d _ hsupplies - items rfl
    rcases hsupplies.holds with hheld | heq | ⟨_, heq⟩
    · rcases hparts _ hheld with heq | ⟨_, heq⟩ | ⟨_, heq⟩ <;> cases heq
    · cases heq
    · cases heq

end Typedef

end Michelson

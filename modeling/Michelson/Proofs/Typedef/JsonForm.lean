import Michelson.Proofs.Expr.JsonForm
import Michelson.Proofs.Typedef.KindText
import Michelson.Proofs.Typedef.Layout
import Michelson.Typedef.Json

/-!
# Typedefs read back from their JSON form

The JSON value of a typedef leaves out what is taken for granted when it is read: no option, no
components. Kinds travel as text, in which the size of the memos of a sapling type stands in
parentheses behind a name that has none. Every member tells one part of the typedef, so that it does
not matter in which order the members stand. Paths are written with the steps `0` and `1` alone.

## Main definitions

* `Typedef.Tells`: members that tell a part of a typedef
* `Typedef.IsBinary`: paths without other steps than `0` and `1`

## Main results

* `Typedef.ofJson_toJson`: typedefs from their JSON values
* `Typedef.Derives.isBinary_of_mem_nodes`: the steps in the paths of a derived typedef
* `Typedef.json_round_trip_of_derive`: derived typedefs and their unfolded forms
-/

namespace Michelson

namespace Typedef

/-! ## Members -/

@[simp] theorem toJsonAll_eq_map (ts : List Typedef) : toJsonAll ts = ts.map toJson := by
  induction ts with
  | nil => rfl
  | cons t ts ih => rw [toJsonAll, ih, List.map_cons]

theorem ofJsonAll_eq_mapM (xs : List Json) : ofJsonAll xs = xs.mapM ofJson := by
  induction xs with
  | nil => rfl
  | cons x xs ih => rw [ofJsonAll, ih, List.mapM_cons]

/-- **Whether a member tells a part of a typedef**, in the way in which the part is read. -/
inductive Tells (t : Typedef) : String × Json → Prop
  | name {v} : nameOfJson v = .ok t.name → Tells t ("name", v)
  | kind {v} : kindOfJson v = .ok t.kind → Tells t ("type", v)
  | optional {v} : optionalOfJson v = .ok t.optional → Tells t ("optional", v)
  | args {items} : ofJsonAll items = .ok t.args → Tells t ("args", .array items)
  | path {v} : pathOfJson v = .ok t.path → Tells t ("path", v)

section Members

variable {t : Typedef} {members : List (String × Json)}

/-- **Members that tell parts of a typedef** are read as these parts, in any order and however often
they are told. -/
theorem ofMembers_of_tells (h : ∀ m ∈ members, t.Tells m) (draft : Draft) :
    ofMembers members draft = .ok
      { name := if "name" ∈ members.map Prod.fst then some t.name else draft.name
        kind := if "type" ∈ members.map Prod.fst then some t.kind else draft.kind
        optional := if "optional" ∈ members.map Prod.fst then t.optional else draft.optional
        args := if "args" ∈ members.map Prod.fst then t.args else draft.args
        path := if "path" ∈ members.map Prod.fst then t.path else draft.path } := by
  induction members generalizing draft with
  | nil => rfl
  | cons m members ih =>
    rw [List.forall_mem_cons] at h
    obtain ⟨hm, hmembers⟩ := h
    cases hm with
    | name hv | kind hv | optional hv | args hv | path hv =>
      simp only [ofMembers, hv, ih hmembers, bind, Except.bind, List.map_cons, List.mem_cons,
        String.reduceEq, reduceIte, false_or, true_or, ite_self]

/-- An object is read as the typedef that its members tell, if those that are not there are taken for
granted. -/
theorem ofJson_object_of_tells (h : ∀ m ∈ members, t.Tells m)
    (hname : "name" ∈ members.map Prod.fst) (hkind : "type" ∈ members.map Prod.fst)
    (hoptional : "optional" ∉ members.map Prod.fst → t.optional = false)
    (hargs : "args" ∉ members.map Prod.fst → t.args = [])
    (hpath : "path" ∉ members.map Prod.fst → t.path = []) :
    ofJson (.object members) = .ok t := by
  obtain ⟨name, kind, optional, args, path⟩ := t
  rw [ofJson, ofMembers_of_tells h]
  show Draft.finish _ = _
  simp only [Draft.finish, if_pos hname, if_pos hkind]
  congr 2
  · split
    · rfl
    · next hmem => exact (hoptional hmem).symm
  · split
    · rfl
    · next hmem => exact (hargs hmem).symm
  · split
    · rfl
    · next hmem => exact (hpath hmem).symm

end Members

/-! ## Reading typedefs back -/

/-- The members of the JSON value of a typedef, in the order in which they are written. -/
def jsonMembers (t : Typedef) : List (String × Json) :=
  [("name", .string t.name), ("type", .string t.kind.text)]
    ++ (if t.optional then [("optional", .bool true)] else [])
    ++ (if t.args.isEmpty then [] else [("args", .array (t.args.map toJson))])
    ++ [("path", .array (t.path.map fun (n : Nat) => .number (.integer n)))]

theorem toJson_eq (t : Typedef) : t.toJson = .object t.jsonMembers := by
  obtain ⟨name, kind, optional, args, path⟩ := t
  rw [toJson, toJsonAll_eq_map]
  rfl

theorem nodup_jsonMembers (t : Typedef) : (t.jsonMembers.map Prod.fst).Nodup := by
  unfold jsonMembers
  split <;> split <;> simp

/-- What is not written is what is taken for granted. -/
theorem of_notMem_jsonMembers (t : Typedef) :
    ("optional" ∉ t.jsonMembers.map Prod.fst → t.optional = false) ∧
      ("args" ∉ t.jsonMembers.map Prod.fst → t.args = []) := by
  unfold jsonMembers
  constructor
  · intro h
    by_contra hoptional
    simp [hoptional] at h
  · intro h
    by_contra hargs
    simp [hargs] at h

section Reordered

variable {f : Json → Json} (hf : Json.Reorders f)

include hf

theorem pathOfJson_reordered (path : List Nat) :
    pathOfJson (f (.array (path.map fun (n : Nat) => .number (.integer n)))) = .ok path := by
  have hsteps : ((path.map fun (n : Nat) => Json.number (.integer n)).map f).mapM stepOfJson? =
      some path := by
    induction path with
    | nil => rfl
    | cons i path ih =>
      have hstep : stepOfJson? (.number (.integer i)) = some i := by
        rw [stepOfJson?, if_pos (Int.natCast_nonneg i), Int.toNat_natCast]
      rw [List.map_cons, List.map_cons, List.mapM_cons, hf.number, hstep, ih]
      rfl
  rw [hf.array, pathOfJson, hsteps]

/-- The members that are written tell the typedef, if its components are read back. -/
theorem tells_of_mem_jsonMembers {t : Typedef}
    (h : ∀ arg ∈ t.args, ofJson (f arg.toJson) = .ok arg) :
    ∀ m ∈ t.jsonMembers.map (Prod.map id f), t.Tells m := by
  have hkind : kindOfJson (f (.string t.kind.text)) = .ok t.kind := by
    rw [hf.string, kindOfJson, Kind.ofText?_text]
  have hargs : ofJsonAll ((t.args.map toJson).map f) = .ok t.args := by
    rw [ofJsonAll_eq_mapM, mapM_eq_ok_iff, List.map_map, List.forall₂_map_left_iff,
      List.forall₂_same]
    exact h
  simp only [jsonMembers, List.map_append, List.forall_mem_append, List.map_cons, List.map_nil,
    List.forall_mem_cons, Prod.map_apply, id_eq]
  refine ⟨⟨⟨⟨.name ?_, .kind hkind, List.forall_mem_nil _⟩, ?_⟩, ?_⟩,
    .path (pathOfJson_reordered hf t.path), List.forall_mem_nil _⟩
  · rw [hf.string]
    rfl
  · split
    next hoptional =>
      refine List.forall_mem_singleton.mpr (.optional ?_)
      show optionalOfJson (f (.bool true)) = _
      rw [hf.bool, hoptional]
      rfl
    next => exact List.forall_mem_nil _
  · split
    next => exact List.forall_mem_nil _
    next =>
      refine List.forall_mem_singleton.mpr ?_
      show t.Tells ("args", f (.array (t.args.map toJson)))
      rw [hf.array]
      exact .args hargs

/-- **A typedef is read back** from its JSON value, in whatever order the members stand. -/
theorem ofJson_toJson (t : Typedef) : ofJson (f t.toJson) = .ok t := by
  induction t using args_induction with
  | node t ih =>
    obtain ⟨members, hmembers, hperm⟩ := hf.object _ (nodup_jsonMembers t)
    have hnames (name : String) :
        name ∈ members.map Prod.fst ↔ name ∈ t.jsonMembers.map Prod.fst := by
      rw [(hperm.map Prod.fst).mem_iff, List.map_map]
      rfl
    have htells : ∀ m ∈ members, t.Tells m := fun m hm =>
      tells_of_mem_jsonMembers hf ih m (hperm.mem_iff.mp hm)
    obtain ⟨hoptional, hargs⟩ := of_notMem_jsonMembers t
    rw [toJson_eq, hmembers]
    refine ofJson_object_of_tells htells ?_ ?_ ?_ ?_ ?_
    · rw [hnames]
      simp [jsonMembers]
    · rw [hnames]
      simp [jsonMembers]
    · rw [hnames]
      exact hoptional
    · rw [hnames]
      exact hargs
    · rw [hnames]
      simp [jsonMembers]

end Reordered

/-! ## Paths -/

/-- **Whether a path has no steps but `0` and `1`.** -/
def IsBinary (path : List Nat) : Prop := ∀ i ∈ path, i < 2

theorem IsBinary.step {path : List Nat} (h : IsBinary path) {i : Nat} (hi : i < 2) :
    IsBinary (path ++ [i]) :=
  List.forall_mem_append.mpr ⟨h, List.forall_mem_singleton.mpr hi⟩

mutual
/-- The components of a derived typedef are one or more such steps below it. -/
theorem Derives.isBinary_args {e : Expr} {fallback : String} {path : List Nat} {t : Typedef}
    (h : Derives e fallback path t) (hpath : IsBinary path) : ∀ c ∈ t.args, IsBinary c.path := by
  match h with
  | .struct hfields =>
    intro c hc
    obtain ⟨u, hu, i, rfl⟩ := exists_of_mem_numberFields hc
    rw [path_named]
    exact hfields.isBinary hpath u hu
  | .union hbranches => exact hbranches.isBinary hpath
  | .option hinner => exact hinner.isBinary_args hpath
  | .leaf _ => exact List.forall_mem_nil _
  | .unary _ hx =>
    rw [List.forall_mem_singleton, hx.path_eq]
    exact hpath.step Nat.zero_lt_two
  | .binary _ hx hy =>
    rw [List.forall_mem_cons, List.forall_mem_singleton, hx.path_eq, hy.path_eq]
    exact ⟨hpath.step Nat.zero_lt_two, hpath.step Nat.one_lt_two⟩
theorem DerivesFields.isBinary {args : List Expr} {path : List Nat} {ts : List Typedef}
    (h : DerivesFields args path ts) (hpath : IsBinary path) : ∀ c ∈ ts, IsBinary c.path := by
  match h with
  | .nest hx hs | .next hx hs =>
    rw [List.forall_mem_cons, hx.path_eq]
    exact ⟨hpath.step Nat.zero_lt_two, hs.isBinary (hpath.step Nat.one_lt_two)⟩
  | .last _ hx hy =>
    rw [List.forall_mem_cons, List.forall_mem_singleton, hx.path_eq, hy.path_eq]
    exact ⟨hpath.step Nat.zero_lt_two, hpath.step Nat.one_lt_two⟩
theorem DerivesBranches.isBinary {first : String} {args : List Expr} {path : List Nat}
    {ts : List Typedef} (h : DerivesBranches first args path ts) (hpath : IsBinary path) :
    ∀ c ∈ ts, IsBinary c.path := by
  match h with
  | .both hl hr =>
    exact List.forall_mem_append.mpr
      ⟨hl.isBinary (hpath.step Nat.zero_lt_two), hr.isBinary (hpath.step Nat.one_lt_two)⟩
theorem DerivesSide.isBinary {first : String} {e : Expr} {path : List Nat} {ts : List Typedef}
    (h : DerivesSide first e path ts) (hpath : IsBinary path) : ∀ c ∈ ts, IsBinary c.path := by
  match h with
  | .nest hs => exact hs.isBinary hpath
  | .one _ hx =>
    rw [List.forall_mem_singleton, hx.path_eq]
    exact hpath
end

/-- **The steps to a part of a derived typedef**, however deep. -/
theorem Derives.isBinary_of_mem_nodes {e : Expr} {fallback : String} {path : List Nat}
    {t : Typedef} (h : Derives e fallback path t) (hpath : IsBinary path) :
    ∀ d ∈ t.nodes, IsBinary d.path := by
  induction t using args_induction generalizing e fallback path with
  | node t ih =>
    intro d hd
    rcases mem_nodes.mp hd with rfl | ⟨c, hc, hd⟩
    · rw [h.path_eq]
      exact hpath
    · obtain ⟨x, -, hx⟩ := h.of_mem_args c hc
      exact ih c hc hx (h.isBinary_args hpath c hc) d hd

/-! ## Derived typedefs -/

/-- **The round trip of typedefs through JSON.** The typedef of a type, and its unfolded form, are
read back from their JSON values with every name, kind, option, component and path, whether the
members of the objects stand as they are written or sorted. Every kind in them is read back from its
text, memo sizes included, and the numbers in the JSON value are all `0` or `1`. -/
theorem json_round_trip_of_derive {e : Expr} {name : String} {t : Typedef}
    (h : derive e name = .ok t) (u : Typedef) (hu : u = t ∨ u = t.unfold) :
    ofJson u.toJson = .ok u ∧ ofJson u.toJson.sorted = .ok u ∧
      ∀ d ∈ u.nodes, Kind.ofText? d.kind.text = some d.kind ∧ IsBinary d.path := by
  have hpaths : ∀ d ∈ t.nodes, IsBinary d.path :=
    (derives_of_build _ _ _ _ h).isBinary_of_mem_nodes (List.forall_mem_nil _)
  have hpaths' : ∀ d ∈ u.nodes, IsBinary d.path := by
    rcases hu with rfl | rfl
    · exact hpaths
    · refine forall_mem_nodes_unfold (fun _ _ hpath => hpath) t fun d hd _ => ?_
      rw [path_unfold]
      exact hpaths d hd
  refine ⟨ofJson_toJson Json.reorders_id u, ofJson_toJson Json.reorders_sorted u, ?_⟩
  intro d hd
  exact ⟨Kind.ofText?_text d.kind, hpaths' d hd⟩

/-- The type of a wallet: a pair in a pair without a name, options, a sapling state whose memos have
the greatest size that there is, and a name that has to be escaped as text. -/
def walletType : Expr :=
  .app (.keyword .storage)
    [.app (.type .pair)
      [.app (.type .pair)
        [.app (.type .saplingState) [.int 18446744073709551615] ["%shielded"],
          .app (.type .option) [.app (.type .or) [.plainType .unit, .plainType .address]]],
        .app (.type .map) [.plainType .string, .app (.type .saplingTransaction) [.int 8] []]
          [":\"sent\"\n"]]]

theorem json_round_trip_of_derive_wallet :
    ∃ t, derive walletType "wallet" = .ok t ∧ t ≠ t.unfold ∧
      (∃ d ∈ t.nodes, d.name = "shielded" ∧ d.kind.text = "sapling_state(18446744073709551615)") ∧
      (ofJson t.toJson = .ok t ∧ ofJson t.toJson.sorted = .ok t ∧
        ∀ d ∈ t.nodes, Kind.ofText? d.kind.text = some d.kind ∧ IsBinary d.path) ∧
      ofJson t.unfold.toJson = .ok t.unfold ∧ ofJson t.unfold.toJson.sorted = .ok t.unfold ∧
        ∀ d ∈ t.unfold.nodes, Kind.ofText? d.kind.text = some d.kind ∧ IsBinary d.path := by
  refine ⟨_, rfl, ?_, ⟨_, List.mem_of_getElem? (i := 2) rfl, rfl, rfl⟩, ?_, ?_⟩
  · intro heq
    exact absurd (congrArg (fun t => t.args.length) heq) (by decide)
  · exact @json_round_trip_of_derive walletType "wallet" _ rfl _ (.inl rfl)
  · exact @json_round_trip_of_derive walletType "wallet" _ rfl _ (.inr rfl)

end Typedef

end Michelson

import Michelson.Marshal.Value
import Michelson.Proofs.Marshal.Combs
import Michelson.Proofs.Success

/-!
# The parts of what is built

What is built from a host value is put together from what is built for its parts: the fields of a
struct are assembled along their paths, the payload of a union is wrapped along the address of
its branch, items and entries are sorted, and only an option is written around the whole.

## Main definitions

* `Expr.under`: a field seen from further up
* `Typedef.marshalHeld`: what is built apart from options
* `Typedef.BuildsFields`: the values of the fields of a struct, with their paths

## Main results

* `Typedef.marshal_eq_ok`: what is built with an option and without
* `Expr.assemble?_append`: a comb assembled from the fields on either side
* `Expr.assemble?_cons`: a comb assembled from its first field and the others
-/

namespace Michelson

namespace Expr

/-- A field seen from further up, from where a way leads to the place at which it is seen. -/
def under (way : List Nat) (field : List Nat × Expr) : List Nat × Expr := (way ++ field.1, field.2)

/-- A field seen from one step further on its path. -/
def stepOn (field : List Nat × Expr) : List Nat × Expr := (field.1.tail, field.2)

theorem assemble?_singleton (e : Expr) : assemble? [([], e)] = some e := by
  rw [assemble?_eq, assembleWith?_singleton]

section Sides

variable (ls rs : List (List Nat × Expr))

theorem onSide_true_append : onSide true (ls.map (under [0]) ++ rs.map (under [1])) = ls := by
  simp [onSide, List.filter_map, Function.comp_def, under]

theorem onSide_false_append : onSide false (ls.map (under [0]) ++ rs.map (under [1])) = rs := by
  simp [onSide, List.filter_map, Function.comp_def, under]

/-- **Fields on both sides** make a pair of what is assembled on either side. -/
theorem assemble?_append :
    assemble? (ls.map (under [0]) ++ rs.map (under [1])) =
      (assemble? ls).bind fun l => (assemble? rs).bind fun r =>
        some (.app (.data .pair) [l, r]) := by
  have hsteps : (ls.map (under [0]) ++ rs.map (under [1])).any (·.1.isEmpty) = false := by
    simp [under]
  have hne (e : Expr) : ls.map (under [0]) ++ rs.map (under [1]) ≠ [([], e)] := by
    intro heq
    rw [heq] at hsteps
    cases hsteps
  rw [assemble?_eq, assemble?_eq, assemble?_eq, assembleWith?_of_ne _ hne, onSide_true_append,
    onSide_false_append, if_neg (by rw [hsteps]; exact Bool.false_ne_true)]
  split
  next hempty =>
    rcases hempty with hempty | hempty <;>
      rw [List.eq_nil_of_length_eq_zero hempty, assembleWith?_nil]
    · rfl
    · cases assembleWith? _ ls <;> rfl
  next => rfl

end Sides

/-- A field to the left and others to the right make a pair of it and the comb of the others. -/
theorem assemble?_cons {e comb : Expr} {rest : List (List Nat × Expr)}
    (hrest : ∀ f ∈ rest, ∃ path, f.1 = 1 :: path)
    (h : assemble? (([0], e) :: rest) = some comb) :
    ∃ r, assemble? (rest.map stepOn) = some r ∧ comb = .app (.data .pair) [e, r] := by
  have hunder : (rest.map stepOn).map (under [1]) = rest := by
    rw [List.map_map]
    refine (List.map_congr_left fun f hf => ?_).trans (List.map_id rest)
    obtain ⟨path, hpath⟩ := hrest f hf
    exact Prod.ext (by simp [under, stepOn, hpath]) rfl
  have happend := assemble?_append [([], e)] (rest.map stepOn)
  rw [hunder, assemble?_singleton, Option.bind_some] at happend
  obtain ⟨r, hr, hcomb⟩ := Option.bind_eq_some_iff.mp (happend.symm.trans h)
  exact ⟨r, hr, (Option.some.inj hcomb).symm⟩

end Expr

namespace Typedef

variable {form : ScalarForm} {t : Typedef} {value : Json} {p : Expr}

/-- What is built for a host value of a type, or for what an option of it holds. -/
def marshalHeld (form : ScalarForm) (t : Typedef) (value : Json) : Except MarshalError Expr :=
  match t.kind with
  | .struct => do
    match Expr.assemble? (← marshalFields form t value 0 t.args) with
    | some comb => return comb
    | none => t.unsupported
  | .union => do
    let (branch, inner) ← t.hostBranch value
    marshalBranch form t branch.name inner t.args
  | .type .list | .sapling (.type .list) _ => do
    return .seq (← marshalItems form t value t.args)
  | .type .set | .sapling (.type .set) _ => do
    sortedSequence (Expr.sortItems? (← marshalItems form t value t.args))
  | .type .map | .sapling (.type .map) _ => do
    sortedSequence (Expr.sortEntries? (← marshalEntries form t value t.args))
  | .type .bigMap | .sapling (.type .bigMap) _ => match value with
    | .number _ => t.hostInteger false value
    | value => do sortedSequence (Expr.sortEntries? (← marshalEntries form t value t.args))
  | .type c | .sapling (.type c) _ => t.scalar c form value
  | .sapling _ _ => t.unsupported

theorem sortedSequence_eq_ok_iff {sorted : Option (List Expr)} :
    sortedSequence sorted = .ok p ↔ ∃ xs, sorted = some xs ∧ p = .seq xs := by
  cases sorted with
  | none => exact ⟨nofun, nofun⟩
  | some xs =>
    refine ⟨fun h => ⟨xs, rfl, (Except.ok.inj h).symm⟩, fun ⟨_, hxs, hp⟩ => ?_⟩
    cases hxs
    rw [hp, sortedSequence]

/-- The values of a type that is no collection are its scalars. -/
theorem marshalHeld_eq_scalar {c : TypeConstructor} (hkind : t.kind.head? = some (.type c))
    (hc : c ∉ [.list, .set, .map, .bigMap]) :
    marshalHeld form t value = t.scalar c form value := by
  unfold marshalHeld
  rcases Kind.head?_eq_type_iff.mp hkind with hkind | ⟨size, hkind⟩
  all_goals
    rw [hkind]
    cases c <;> simp_all

/-- What is built is nothing for an option, or else it holds what the host value stands for. -/
theorem marshal_eq_ok (h : t.marshal form value = .ok p) :
    (t.optional = true ∧ p = .app (.data .none) []) ∨
      ∃ e, marshalHeld form t (t.unwrapName value) = .ok e ∧
        p = if t.optional then .app (.data .some) [e] else e := by
  obtain ⟨name, kind, optional, args, path⟩ := t
  rw [marshal.eq_def] at h
  simp only at h
  split at h
  next hnull =>
    cases h
    exact .inl ⟨rfl, rfl⟩
  next =>
    obtain ⟨e, he, hp⟩ := bind_eq_ok_iff.mp h
    cases hp
    exact .inr ⟨e, he, rfl⟩

/-- Whether these are values built for the fields of a struct, under whatever names, with their
paths behind a path of the given length. -/
def BuildsFields (form : ScalarForm) (depth : Nat) :
    List Typedef → List (List Nat × Expr) → Prop :=
  List.Forall₂ fun t f =>
    f.1 = t.path.drop depth ∧ ∃ name v, ({ t with name := name }).marshal form v = .ok f.2

theorem buildsFields_of_marshalFields {struct : Typedef} {position : Nat} {ts : List Typedef}
    {fields : List (List Nat × Expr)}
    (h : marshalFields form struct value position ts = .ok fields) :
    BuildsFields form struct.path.length ts fields := by
  induction ts generalizing position fields with
  | nil =>
    cases h
    exact .nil
  | cons t ts ih =>
    simp only [marshalFields, bind_eq_ok_iff, pure_eq_ok_iff] at h
    obtain ⟨v, -, e, he, rest, hrest, rfl⟩ := h
    obtain ⟨name, kind, optional, args, path⟩ := t
    exact .cons ⟨rfl, name, v, he⟩ (ih hrest)

/-- Names by position do not matter for what is built. -/
theorem buildsFields_of_mapIdx {depth : Nat} {rename : Nat → Typedef → Typedef}
    (hrename : ∀ i t, ∃ name, rename i t = { t with name := name }) {ts : List Typedef}
    {fields : List (List Nat × Expr)} (h : BuildsFields form depth (ts.mapIdx rename) fields) :
    BuildsFields form depth ts fields := by
  induction ts generalizing rename fields with
  | nil => exact h
  | cons t ts ih =>
    rw [List.mapIdx_cons] at h
    obtain ⟨f, fs, ⟨hpath, name, v, hv⟩, hfs, rfl⟩ := List.forall₂_cons_left_iff.mp h
    obtain ⟨name', hname'⟩ := hrename 0 t
    rw [hname'] at hpath hv
    exact .cons ⟨hpath, name, v, hv⟩ (ih (fun i u => hrename (i + 1) u) hfs)

/-- The branch of a name is the first one that has it. -/
theorem marshalBranch_eq (form : ScalarForm) (union : Typedef) (name : String) (inner : Json)
    (ts : List Typedef) :
    marshalBranch form union name inner ts =
      (ts.find? (·.name == name)).elim (.error (.noBranch union.name)) fun b => do
        return wrapBranch (b.pathFrom union) (← b.marshal form inner) := by
  induction ts with
  | nil => rfl
  | cons t ts ih =>
    rw [marshalBranch]
    by_cases hname : t.name = name
    · rw [if_pos hname, List.find?_cons_of_pos (by simpa using hname), Option.elim_some]
    · rw [if_neg hname, List.find?_cons_of_neg (by simpa using hname), ih]

/-- What is built for the branch of a name is the wrapped value of one of the branches. -/
theorem exists_of_marshalBranch {union : Typedef} {name : String} {ts : List Typedef}
    (h : marshalBranch form union name value ts = .ok p) :
    ∃ t ∈ ts, ∃ e, t.marshal form value = .ok e ∧ p = wrapBranch (t.pathFrom union) e := by
  rw [marshalBranch_eq] at h
  cases hfind : ts.find? (·.name == name) with
  | none =>
    rw [hfind] at h
    cases h
  | some b =>
    rw [hfind] at h
    obtain ⟨e, he, hp⟩ := bind_eq_ok_iff.mp h
    cases hp
    exact ⟨b, List.mem_of_find?_eq_some hfind, e, he, rfl⟩

/-- What is built for a struct is the comb of what is built for its fields. -/
theorem exists_of_marshalHeld_struct (hkind : t.kind = .struct)
    (h : marshalHeld form t value = .ok p) :
    ∃ fields, marshalFields form t value 0 t.args = .ok fields ∧
      Expr.assemble? fields = some p := by
  simp only [marshalHeld, hkind] at h
  obtain ⟨fields, hfields, h⟩ := bind_eq_ok_iff.mp h
  split at h
  next comb hcomb =>
    cases h
    exact ⟨fields, hfields, hcomb⟩
  next => cases h

/-- What is built for a union is the wrapped value of one of its branches. -/
theorem exists_of_marshalHeld_union (hkind : t.kind = .union)
    (h : marshalHeld form t value = .ok p) :
    ∃ branch ∈ t.args, ∃ inner e, branch.marshal form inner = .ok e ∧
      p = wrapBranch (branch.pathFrom t) e := by
  simp only [marshalHeld, hkind] at h
  obtain ⟨⟨branch, inner⟩, -, h⟩ := bind_eq_ok_iff.mp h
  obtain ⟨u, hu, e, he, hp⟩ := exists_of_marshalBranch h
  exact ⟨u, hu, inner, e, he, hp⟩

/-- The items of a list or set are built by the component of its type. -/
theorem exists_of_marshalItems {collection : Typedef} {ts : List Typedef} {xs : List Expr}
    (h : marshalItems form collection value (t :: ts) = .ok xs) :
    ∀ x ∈ xs, ∃ v, t.marshal form v = .ok x := by
  rw [marshalItems] at h
  obtain ⟨items, -, hitems⟩ := bind_eq_ok_iff.mp h
  exact exists_of_mapM_eq_ok hitems

/-- The entries of a map are built by the two components of its type. -/
theorem exists_of_marshalEntries {collection u : Typedef} {ts : List Typedef} {xs : List Expr}
    (h : marshalEntries form collection value (t :: u :: ts) = .ok xs) :
    ∀ x ∈ xs, ∃ v k v' w, t.marshal form v = .ok k ∧ u.marshal form v' = .ok w ∧
      x = .app (.data .elt) [k, w] := by
  intro x hx
  cases value with
  | object members =>
    obtain ⟨m, hm⟩ := exists_of_mapM_eq_ok h x hx
    simp only [bind_eq_ok_iff, pure_eq_ok_iff] at hm
    obtain ⟨k, hk, w, hw, rfl⟩ := hm
    exact ⟨_, k, m.2, w, hk, hw, rfl⟩
  | array items =>
    obtain ⟨item, hitem⟩ := exists_of_mapM_eq_ok h x hx
    simp only [bind_eq_ok_iff, pure_eq_ok_iff] at hitem
    obtain ⟨⟨v, v'⟩, -, k, hk, w, hw, rfl⟩ := hitem
    exact ⟨v, k, v', w, hk, hw, rfl⟩
  | _ => cases h

end Typedef

end Michelson

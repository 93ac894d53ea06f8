import Michelson.Proofs.Entrypoint.Leaves

/-!
# Names of entrypoints

The leaves are named from the left to the right, and each becomes an entrypoint under its name. A
field name is used only as long as it is free. A generated name is used without a look at the names
before it; if a leaf further left has this very name for its field, then the entrypoint of that
leaf is replaced. Names are told apart in any case, and that is the only way in which a leaf is left
without an entrypoint.

## Main definitions

* `Entrypoints.generatedName`: the name of a leaf that has no field name that is free
* `Entrypoints.IsFieldName`: whether one of the first leaves has a field name
* `Entrypoints.Named`: entrypoints of the first leaves, as far as they are named

## Main results

* `Entrypoints.Named.insert`: one more leaf is named
* `Entrypoints.named_of_addLeaves`: all leaves are named
* `Entrypoints.ids_of_discover`: the ids of the entrypoints, and when they are those of all leaves
-/

namespace Michelson

namespace Entrypoints

/-! ## The name of a leaf -/

/-- The name that is generated for a leaf. -/
def generatedName (hasDefault : Bool) (id : Nat) : String :=
  if id = 0 && !hasDefault then "default" else s!"@entrypoint_{id}"

theorem numbered_ne_default (id : Nat) : s!"@entrypoint_{id}" ≠ "default" := by
  intro h
  have hhead := congrArg (·.toList.head?) h
  simp only [String.toList_append, List.head?_append] at hhead
  cases hhead

/-- Leaves with different ids have different generated names. -/
theorem generatedName_injective {hasDefault : Bool} {id id' : Nat}
    (h : generatedName hasDefault id = generatedName hasDefault id') : id = id' := by
  unfold generatedName at h
  split at h
  next hzero =>
    split at h
    next hzero' =>
      simp only [Bool.and_eq_true, decide_eq_true_eq] at hzero hzero'
      exact hzero.1.trans hzero'.1.symm
    · exact absurd h.symm (numbered_ne_default id')
  · split at h
    · exact absurd h (numbered_ne_default id)
    · have hdigits : Nat.toDigits 10 id = Nat.toDigits 10 id' := by
        simpa using congrArg String.toList h
      have hvalues := congrArg (Nat.ofDigitChars 10 · 0) hdigits
      simpa using hvalues

/-- The name of a leaf is its field name, which is free, or else generated. -/
theorem nameLeaf_cases (es : Entrypoints) (hasDefault : Bool) (id : Nat) (leaf : Expr) :
    (leaf.annot? .field = some (es.nameLeaf hasDefault id leaf) ∧
      es.get? (es.nameLeaf hasDefault id leaf) = none) ∨
    es.nameLeaf hasDefault id leaf = generatedName hasDefault id := by
  unfold nameLeaf
  cases hname : leaf.annot? .field with
  | none => exact .inr rfl
  | some name =>
    dsimp only
    split
    next hfree => exact .inl ⟨rfl, Option.isNone_iff_eq_none.mp hfree⟩
    · exact .inr rfl

/-- A field name that is free is used. -/
theorem nameLeaf_of_free {es : Entrypoints} {hasDefault : Bool} {id : Nat} {leaf : Expr}
    {name : String} (hname : leaf.annot? .field = some name) (hfree : es.get? name = none) :
    es.nameLeaf hasDefault id leaf = name := by
  simp [nameLeaf, hname, hfree]

theorem get?_eq_none_iff {es : Entrypoints} {name : String} :
    es.get? name = none ↔ ∀ e ∈ es.entries, e.name ≠ name := by
  simp [get?]

/-- The entrypoint of a leaf holds what it is made from. -/
theorem fields_of_ofLeaf {id : Nat} {name : String} {branch : List Side} {leaf : Expr}
    {entry : Entrypoint} (h : ofLeaf id name branch leaf = .ok entry) :
    entry.id = id ∧ entry.name = name ∧ entry.branch = branch ∧ entry.leaf = leaf := by
  simp only [ofLeaf, bind_eq_ok_iff, pure_eq_ok_iff] at h
  obtain ⟨_, -, rfl⟩ := h
  exact ⟨rfl, rfl, rfl, rfl⟩

/-! ## One leaf after the other -/

/-- Whether one of the first leaves has a given field name. -/
def IsFieldName (types : List Expr) (count : Nat) (name : String) : Prop :=
  ∃ leaf ∈ types.take count, leaf.annot? .field = some name

/-- **Entrypoints of the first leaves**, in the order of the leaves and each under a name of its
own. A field name of one of these leaves is taken. As many leaves as there are have an entrypoint
just if no name of an entrypoint is a field name further left. -/
structure Named (hasDefault : Bool) (found : List (List Side × Expr)) (count : Nat)
    (es : Entrypoints) : Prop where
  ids : (es.entries.map (·.id)).Sublist (List.range count)
  names : (es.entries.map (·.name)).Nodup
  leaf : ∀ e ∈ es.entries, found[e.id]? = some (e.branch, e.leaf)
  origin : ∀ e ∈ es.entries,
    e.leaf.annot? .field = some e.name ∨ e.name = generatedName hasDefault e.id
  taken : ∀ name, IsFieldName (found.map Prod.snd) count name → ∃ e ∈ es.entries, e.name = name
  complete : es.entries.length = count ↔
    ∀ e ∈ es.entries, ¬IsFieldName (found.map Prod.snd) e.id e.name

namespace Named

variable {hasDefault : Bool} {found : List (List Side × Expr)} {count : Nat} {es : Entrypoints}

theorem nil : Named hasDefault found 0 ⟨[]⟩ where
  ids := .slnil
  names := .nil
  leaf e he := nomatch he
  origin e he := nomatch he
  taken name h := by
    obtain ⟨leaf, hleaf, -⟩ := h
    rw [List.take_zero] at hleaf
    cases hleaf
  complete := ⟨fun _ e he => (nomatch he), fun _ => rfl⟩

theorem id_lt (h : Named hasDefault found count es) {e : Entrypoint} (he : e ∈ es.entries) :
    e.id < count :=
  List.mem_range.mp (h.ids.subset (List.mem_map_of_mem he))

theorem length_le (h : Named hasDefault found count es) : es.entries.length ≤ count := by
  simpa using h.ids.length_le

/-- An entrypoint whose name a later leaf is given again has this name from its field: generated
names are told apart by the ids. -/
theorem isFieldName_of_eq (h : Named hasDefault found count es) {e : Entrypoint}
    (he : e ∈ es.entries) (hname : e.name = generatedName hasDefault count) :
    IsFieldName (found.map Prod.snd) count e.name := by
  have hlt := h.id_lt he
  rcases h.origin e he with hfield | hgenerated
  · refine ⟨e.leaf, ?_, hfield⟩
    rw [List.mem_take_iff_getElem]
    obtain ⟨hbound, hleaf⟩ := List.getElem?_eq_some_iff.mp (h.leaf e he)
    refine ⟨e.id, ?_, ?_⟩
    · rw [List.length_map]
      exact Nat.lt_min.mpr ⟨hlt, hbound⟩
    · rw [List.getElem_map, hleaf]
  · have hid := generatedName_injective (hgenerated.symm.trans hname)
    omega

/-- What an entrypoint replaces has the same name. -/
theorem name_mem_insert {e entry : Entrypoint} (he : e ∈ es.entries) :
    ∃ e' ∈ (es.insert entry).entries, e'.name = e.name := by
  by_cases hname : e.name = entry.name
  · exact ⟨entry, by simp [Entrypoints.insert], hname.symm⟩
  · exact ⟨e, by simp [Entrypoints.insert, he, hname], rfl⟩

/-- A name that was free belongs to no entrypoint, and to none is it the field name further left; a
name that was not free is a field name further left. -/
theorem complete_insert (h : Named hasDefault found count es) {entry : Entrypoint}
    (hid : entry.id = count)
    (hentry : es.get? entry.name = none ∨ entry.name = generatedName hasDefault count) :
    (es.insert entry).entries.length = count + 1 ↔
      ∀ e ∈ (es.insert entry).entries, ¬IsFieldName (found.map Prod.snd) e.id e.name := by
  by_cases hfree : es.get? entry.name = none
  · rw [get?_eq_none_iff] at hfree
    have hkept : es.entries.filter (·.name ≠ entry.name) = es.entries := by
      simpa using hfree
    have hnew : ¬IsFieldName (found.map Prod.snd) entry.id entry.name := by
      intro hfield
      rw [hid] at hfield
      obtain ⟨e, he, hname⟩ := h.taken _ hfield
      exact hfree e he hname
    rw [Entrypoints.insert, hkept, List.length_append, List.length_singleton,
      Nat.add_right_cancel_iff, h.complete, List.forall_mem_append, List.forall_mem_singleton]
    exact (and_iff_left hnew).symm
  · have hgenerated := hentry.resolve_left hfree
    obtain ⟨old, hold, hname⟩ : ∃ old ∈ es.entries, old.name = entry.name := by
      simpa [get?_eq_none_iff] using hfree
    have hfield := h.isFieldName_of_eq hold (hname.trans hgenerated)
    have hlt : (es.entries.filter (·.name ≠ entry.name)).length < es.entries.length :=
      List.length_filter_lt_length_iff_exists.mpr ⟨old, hold, by simpa using hname⟩
    have hle := h.length_le
    refine iff_of_false ?_ fun hall => ?_
    · rw [Entrypoints.insert, List.length_append, List.length_singleton]
      omega
    · refine hall entry (by simp [Entrypoints.insert]) ?_
      rwa [hid, ← hname]

/-- **One more leaf** is named, and its entrypoint inserted. -/
theorem insert (h : Named hasDefault found count es) {branch : List Side} {leaf : Expr}
    {entry : Entrypoint} (hfound : found[count]? = some (branch, leaf))
    (hentry : ofLeaf count (es.nameLeaf hasDefault count leaf) branch leaf = .ok entry) :
    Named hasDefault found (count + 1) (es.insert entry) := by
  obtain ⟨hid, hname, hbranch, hleaf⟩ := fields_of_ofLeaf hentry
  have hcases := nameLeaf_cases es hasDefault count leaf
  rw [← hname] at hcases
  have hkept : (es.entries.filter (·.name ≠ entry.name)).Sublist es.entries :=
    List.filter_sublist
  refine ⟨?_, ?_, ?_, ?_, ?_, h.complete_insert hid (hcases.imp_left And.right)⟩
  · rw [Entrypoints.insert, List.map_append, List.map_singleton, hid, List.range_succ]
    exact ((hkept.map _).trans h.ids).append (.refl _)
  · rw [Entrypoints.insert, List.map_append, List.map_singleton, List.nodup_append]
    refine ⟨h.names.sublist (hkept.map _), by simp, ?_⟩
    simp only [List.mem_map, List.mem_filter, List.mem_singleton, decide_eq_true_eq]
    rintro _ ⟨e, ⟨-, hne⟩, rfl⟩ _ rfl
    exact hne
  · intro e he
    rcases mem_entries_insert he with he | rfl
    · exact h.leaf e he
    · rw [hid, hfound, hbranch, hleaf]
  · intro e he
    rcases mem_entries_insert he with he | rfl
    · exact h.origin e he
    · rw [hleaf, hid]
      exact hcases.imp_left And.left
  · rintro name ⟨l, hl, hfield⟩
    rw [List.take_add_one, List.mem_append, List.getElem?_map, hfound] at hl
    rcases hl with hl | hl
    · obtain ⟨e, he, rfl⟩ := h.taken name ⟨l, hl, hfield⟩
      exact name_mem_insert he
    · obtain rfl : l = leaf := by simpa using hl
      cases hget : es.get? name with
      | none =>
        refine ⟨entry, by simp [Entrypoints.insert], ?_⟩
        rw [hname, nameLeaf_of_free hfield hget]
      | some e =>
        have he := List.mem_of_find?_eq_some hget
        obtain rfl : e.name = name := by simpa using List.find?_some hget
        exact name_mem_insert he

end Named

/-! ## All leaves -/

/-- **The leaves are named** one after the other. -/
theorem named_of_addLeaves {hasDefault : Bool} (done : List (List Side × Expr))
    {rest : List (List Side × Expr)} {es es' : Entrypoints}
    (h : es.addLeaves hasDefault done.length rest = .ok es')
    (hes : Named hasDefault (done ++ rest) done.length es) :
    Named hasDefault (done ++ rest) (done ++ rest).length es' := by
  induction rest generalizing done es with
  | nil =>
    cases h
    simpa using hes
  | cons first rest ih =>
    rw [addLeaves, bind_eq_ok_iff] at h
    obtain ⟨entry, hentry, hadd⟩ := h
    have hfound : (done ++ first :: rest)[done.length]? = some first := by simp
    have hnext := hes.insert hfound hentry
    have hlength : (done ++ [first]).length = done.length + 1 := by simp
    rw [← hlength] at hadd hnext
    rw [List.append_cons] at hnext ⊢
    exact ih _ hadd hnext

/-- The entrypoints of a parameter are those of its leaves. -/
theorem addLeaves_of_discover {parameter : Expr} {keep : List String} {es : Entrypoints}
    (h : discover parameter keep = .ok es) :
    ∃ hasDefault found, LeavesAt (keepsWhole keep) [] (parameterType parameter) found ∧
      addLeaves hasDefault ⟨[]⟩ 0 found = .ok es := by
  rw [discover, bind_eq_ok_iff] at h
  obtain ⟨found, hfound, hadd⟩ := h
  exact ⟨_, found, leavesAt_of_leaves hfound, hadd⟩

/-- **Entrypoints and leaves.** Entrypoints have different names and are listed by their ids. There
are as many as leaves, and their ids are all of those of the leaves, just if no entrypoint has for
its name the field name of a leaf further left. -/
theorem ids_of_discover (parameter : Expr) (keep : List String) (es : Entrypoints)
    (h : discover parameter keep = .ok es) :
    (es.entries.map (·.name)).Nodup ∧
      (es.entries.map (·.id)).Sublist (List.range (parameterLeaves parameter keep).length) ∧
      (es.entries.length = (parameterLeaves parameter keep).length ↔
        ∀ e ∈ es.entries, ¬IsFieldName (parameterLeaves parameter keep) e.id e.name) ∧
      (es.entries.map (·.id) = List.range (parameterLeaves parameter keep).length ↔
        ∀ e ∈ es.entries, ¬IsFieldName (parameterLeaves parameter keep) e.id e.name) := by
  obtain ⟨hasDefault, found, hleaves, hadd⟩ := addLeaves_of_discover h
  have hnamed : Named hasDefault found found.length es := named_of_addLeaves [] hadd .nil
  have htypes : found.map Prod.snd = parameterLeaves parameter keep := hleaves.map_snd
  have hlength : found.length = (parameterLeaves parameter keep).length := by
    rw [← htypes, List.length_map]
  have hids := hnamed.ids
  have hcomplete := hnamed.complete
  rw [hlength] at hids hcomplete
  rw [htypes] at hcomplete
  refine ⟨hnamed.names, hids, hcomplete, ?_⟩
  rw [← hcomplete]
  constructor
  · intro h
    simpa using congrArg List.length h
  · intro h
    exact hids.eq_of_length (by simpa using h)

/-- A parameter with two leaves of one name, one that is called `default`, and two without a
name. -/
def mintParameter : Expr :=
  .app (.keyword .parameter)
    [.app (.type .or)
      [.plainType .unit,
        .app (.type .or)
          [.app (.type .nat) [] ["%mint"],
            .app (.type .or)
              [.app (.type .int) [] ["%mint"],
                .app (.type .or) [.app (.type .string) [] ["%default"], .plainType .bytes]]]]]

theorem ids_of_discover_mint :
    ∃ es, discover mintParameter ["%keep"] = .ok es ∧ (es.entries.map (·.name)).Nodup ∧
      es.entries.length = (parameterLeaves mintParameter ["%keep"]).length := by
  have hrun : (discover mintParameter ["%keep"]).toOption.map (·.entries.map (·.id)) =
      some [0, 1, 2, 3, 4] := by
    decide +kernel
  obtain ⟨es, hes, hids⟩ := map_toOption_eq_some_iff.mp hrun
  obtain ⟨hnames, -, hlength, hrange⟩ := ids_of_discover mintParameter ["%keep"] es hes
  have hcount : (parameterLeaves mintParameter ["%keep"]).length = 5 := by decide +kernel
  have hall : es.entries.map (·.id) =
      List.range (parameterLeaves mintParameter ["%keep"]).length := by
    rw [hids, hcount]
    rfl
  exact ⟨es, hes, hnames, hlength.mpr (hrange.mp hall)⟩

/-- A leaf of the field name that is generated for the leaf after it has no entrypoint. -/
theorem length_entries_lt_of_collision :
    ∃ es, discover (.app (.type .or)
        [.app (.type .nat) [] ["%@entrypoint_1"], .plainType .int]) [] = .ok es ∧
      es.entries.length < (parameterLeaves (.app (.type .or)
        [.app (.type .nat) [] ["%@entrypoint_1"], .plainType .int]) []).length := by
  refine ⟨_, rfl, ?_⟩
  decide +kernel

end Entrypoints

end Michelson

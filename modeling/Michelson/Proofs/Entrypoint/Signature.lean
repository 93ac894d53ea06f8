import Michelson.Entrypoint.Discovery
import Michelson.Proofs.Typedef.Placement

/-!
# Signatures of entrypoints

An entrypoint keeps the typedef of its leaf as a list of arguments, and its signature is put
together from that list. All parts of the typedef come back, but the list of a struct does not
tell whether the struct was optional: the signature of an option around a pair is that of the pair.

## Main definitions

* `Expr.isOptionalPair`: whether a type is an option around a pair

## Main results

* `Typedef.Derives.optional_and_isStruct_eq`: the optional structs among derived typedefs
* `Entrypoints.ofLeaf_of_mem_discover`: every entrypoint that is found is that of its leaf
* `Entrypoints.signature_of_mem_discover`: its signature in terms of the typedef of its leaf
-/

namespace Michelson

/-- Whether a type is an option around a pair, with or without further options in between. -/
def Expr.isOptionalPair : Expr → Bool
  | .app (.type .option) [inner] _ _ => inner.withoutOptions.applies (.type .pair)
  | _ => false

namespace Typedef

/-! ## Structs -/

theorem not_isStruct_of_leafKind? {c : TypeConstructor} {args : List Expr} {kind : Kind}
    (h : leafKind? c args = some kind) : (kind == .struct) = false := by
  have hhead := head?_of_leafKind? h
  cases kind with
  | struct => cases hhead
  | union | type | sapling => rfl

/-- A struct, optional or not, has at least two fields. -/
theorem Derives.two_le_length_args {e : Expr} {fallback : String} {path : List Nat} {t : Typedef}
    (h : Derives e fallback path t) (hstruct : t.isStruct = true) : 2 ≤ t.args.length := by
  induction e using Expr.withoutOptions.induct generalizing fallback t with
  | case1 inner annots flag ih =>
    cases h with
    | option hinner =>
      have hlength := ih hinner
      exact hlength hstruct
    | leaf hkind => cases hkind
    | unary hc => cases hc
  | case2 e hne =>
    cases h with
    | struct hfields => simpa [numberFields] using hfields.two_le_length
    | option => exact (hne _ _ _ rfl).elim
    | leaf hkind => cases hstruct.symm.trans (not_isStruct_of_leafKind? hkind)
    | union | unary | binary => cases hstruct

/-- What is described as a struct is a pair, once the options around it are entered. -/
theorem Derives.isStruct_eq {e : Expr} {fallback : String} {path : List Nat} {t : Typedef}
    (h : Derives e fallback path t) :
    t.isStruct = e.withoutOptions.applies (.type .pair) := by
  match h with
  | .option hinner => exact hinner.isStruct_eq
  | .struct _ | .union _ => rfl
  | @Derives.leaf c args _ _ _ _ _ hkind =>
    refine (not_isStruct_of_leafKind? hkind).trans ?_
    cases c <;> cases args <;> first | rfl | cases hkind
  | @Derives.unary c _ _ _ _ _ _ _ hc _ => cases c <;> first | rfl | cases hc
  | @Derives.binary c _ _ _ _ _ _ _ _ _ _ hc _ _ => cases c <;> first | rfl | cases hc

/-- **The optional structs** describe the options around pairs. -/
theorem Derives.optional_and_isStruct_eq {e : Expr} {fallback : String} {path : List Nat}
    {t : Typedef} (h : Derives e fallback path t) :
    (t.optional && t.isStruct) = e.isOptionalPair := by
  cases h with
  | struct | union => rfl
  | option hinner => exact hinner.isStruct_eq
  | @leaf c args _ _ _ _ _ hkind => cases c <;> cases args <;> first | rfl | cases hkind
  | @unary c _ _ _ _ _ _ _ hc => cases c <;> first | rfl | cases hc
  | @binary c => cases c <;> rfl

end Typedef

/-! ## Signatures -/

namespace Entrypoint

/-- A list of arguments that is not a single one belongs to a struct. -/
theorem signature_of_two_le {entry : Entrypoint} (h : 2 ≤ entry.arguments.length) :
    entry.signature = ⟨entry.name, .struct, false, entry.arguments, []⟩ := by
  unfold signature
  split
  next hsingle =>
    rw [hsingle] at h
    cases h with
    | step h => cases h
  next => rfl

/-- The signature of the entrypoint of a leaf is the typedef of the leaf, named after the
entrypoint; of an optional struct only the struct. -/
theorem signature_of_ofLeaf {id : Nat} {name : String} {branch : List Side} {leaf : Expr}
    {entry : Entrypoint} (h : Entrypoints.ofLeaf id name branch leaf = .ok entry) :
    ∃ t, Typedef.Derives leaf name [] t ∧
      entry.signature = { t with name := name, optional := t.optional && !t.isStruct } := by
  simp only [Entrypoints.ofLeaf, bind_eq_ok_iff, pure_eq_ok_iff] at h
  obtain ⟨t, ht, rfl⟩ := h
  have hder := Typedef.derives_of_build _ _ _ _ ht
  have hpath := hder.path_eq
  have hlength := hder.two_le_length_args
  refine ⟨t, hder, ?_⟩
  obtain ⟨name', kind, optional, args, path⟩ := t
  subst hpath
  by_cases hkind : kind = .struct
  · subst hkind
    rw [signature_of_two_le (hlength rfl)]
    simp [Typedef.isStruct]
  · simp [signature, Typedef.isStruct, hkind]

end Entrypoint

namespace Entrypoints

/-! ## Entrypoints found -/

theorem mem_entries_insert {es : Entrypoints} {entry e : Entrypoint}
    (h : e ∈ (es.insert entry).entries) : e ∈ es.entries ∨ e = entry := by
  rw [insert, List.mem_append, List.mem_singleton] at h
  exact h.imp_left List.mem_of_mem_filter

/-- What holds of the entrypoint of every leaf holds of all entrypoints to which leaves are added,
whichever of them are replaced. -/
theorem forall_mem_addLeaves {P : Entrypoint → Prop}
    (hleaf : ∀ {id name branch leaf entry}, ofLeaf id name branch leaf = .ok entry → P entry)
    {hasDefault : Bool} {found : List (List Side × Expr)} {es es' : Entrypoints} {id : Nat}
    (h : es.addLeaves hasDefault id found = .ok es') (hes : ∀ entry ∈ es.entries, P entry) :
    ∀ entry ∈ es'.entries, P entry := by
  -- Induction on the leaves for any entrypoints before them: one more is that of its leaf, and the
  -- others are kept or dropped.
  induction found generalizing es id with
  | nil =>
    cases h
    exact hes
  | cons first rest ih =>
    rw [addLeaves, bind_eq_ok_iff] at h
    obtain ⟨entry, hentry, hrest⟩ := h
    refine ih hrest fun e he => ?_
    rcases mem_entries_insert he with he | rfl
    · exact hes e he
    · exact hleaf hentry

theorem ofLeaf_self {id : Nat} {name : String} {branch : List Side} {leaf : Expr}
    {entry : Entrypoint} (h : ofLeaf id name branch leaf = .ok entry) :
    ofLeaf entry.id entry.name entry.branch entry.leaf = .ok entry := by
  have h' := h
  simp only [ofLeaf, bind_eq_ok_iff, pure_eq_ok_iff] at h'
  obtain ⟨_, -, rfl⟩ := h'
  exact h

/-- **Every entrypoint that is found** is that of its leaf under its name. -/
theorem ofLeaf_of_mem_discover {parameter : Expr} {keep : List String} {es : Entrypoints}
    (h : discover parameter keep = .ok es) :
    ∀ entry ∈ es.entries, ofLeaf entry.id entry.name entry.branch entry.leaf = .ok entry := by
  rw [discover, bind_eq_ok_iff] at h
  obtain ⟨found, -, hadd⟩ := h
  refine forall_mem_addLeaves ofLeaf_self hadd fun entry hentry => ?_
  cases hentry

/-- **The signature of an entrypoint** is the typedef of its leaf, named after the entrypoint, just
if the leaf is no option around a pair. Of such an option it is the typedef without the mark that
it is optional. -/
theorem signature_of_mem_discover (parameter : Expr) (keep : List String) (es : Entrypoints)
    (h : discover parameter keep = .ok es) :
    ∀ entry ∈ es.entries, ∃ t, Typedef.build entry.leaf entry.name [] = .ok t ∧
      (entry.signature = { t with name := entry.name } ↔ entry.leaf.isOptionalPair = false) ∧
      (entry.leaf.isOptionalPair = true →
        t.optional = true ∧
          entry.signature = { t with name := entry.name, optional := false }) := by
  intro entry hentry
  obtain ⟨t, hder, hsignature⟩ :=
    Entrypoint.signature_of_ofLeaf (ofLeaf_of_mem_discover h entry hentry)
  refine ⟨t, hder.build_eq, ?_⟩
  rw [hsignature, ← hder.optional_and_isStruct_eq]
  obtain ⟨name, kind, optional, args, path⟩ := t
  cases optional <;> simp

/-- An offer of two numbers that may be left out, and the same offer for a seller. -/
def offerParameter : Expr :=
  .app (.keyword .parameter)
    [.app (.type .or)
      [.app (.type .option) [.app (.type .pair) [.plainType .nat, .plainType .mutez]] ["%offer"],
        .app (.type .pair)
          [.plainType .address, .app (.type .pair) [.plainType .nat, .plainType .mutez] ["%price"]]
          ["%sell"]]]

theorem signature_of_mem_discover_offer :
    ∃ es, discover offerParameter ["%keep"] = .ok es ∧
      ∃ offer sell, es.entries = [offer, sell] ∧
        (∃ t, Typedef.build offer.leaf offer.name [] = .ok t ∧ t.optional = true ∧
          offer.signature = { t with name := offer.name, optional := false }) ∧
        ∃ t, Typedef.build sell.leaf sell.name [] = .ok t ∧
          sell.signature = { t with name := sell.name } := by
  obtain ⟨es, hes⟩ : ∃ es, discover offerParameter ["%keep"] = .ok es := ⟨_, rfl⟩
  have hall := signature_of_mem_discover offerParameter ["%keep"] es hes
  cases hes
  refine ⟨_, rfl, _, _, rfl, ?_, ?_⟩
  · obtain ⟨t, ht, -, hopt⟩ := hall _ (.head _)
    exact ⟨t, ht, hopt rfl⟩
  · obtain ⟨t, ht, hiff, -⟩ := hall _ (.tail _ (.head _))
    exact ⟨t, ht, hiff.mpr rfl⟩

/-- The signature of an option around a pair is not its typedef. -/
theorem signature_ne_of_optional_pair :
    ∃ es, discover (.app (.type .option)
        [.app (.type .pair) [.plainType .nat, .plainType .int]]) [] = .ok es ∧
      ∃ entry ∈ es.entries, ∃ t, Typedef.build entry.leaf entry.name [] = .ok t ∧
        entry.signature ≠ { t with name := entry.name } := by
  refine ⟨_, rfl, _, .head _, _, rfl, fun h => ?_⟩
  cases congrArg Typedef.optional h

end Entrypoints

end Michelson

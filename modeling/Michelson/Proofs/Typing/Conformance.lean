import Mathlib.Data.List.Find
import Michelson.Proofs.Typedef.Derivation
import Michelson.Proofs.Typedef.Numbering
import Michelson.Proofs.Typing.Acceptance

/-!
# Conformance is typing

A typedef that is derived from a type accepts just the values of the type. The check finds fields
by their paths and branches by their addresses, the values of a type are read level by level; the
two agree since the parts of a derived typedef lie where the rules of derivation put them.

## Main definitions

* `Expr.payloadAt?`, `Typedef.HoldsSide`: one side of a nest of alternatives

## Main results

* `Typedef.Derives.accepts_iff`: a derived typedef and its type
* `Typedef.accepts_derive_iff`: the same for the section that declares the type
-/

namespace Michelson

namespace Expr

/-! ## Combs -/

section Combs

variable {v x y : Expr}

theorem isComb_iff : v.isComb = true ↔ ∃ x y, SplitsInto .checked v x y := by
  constructor
  · intro h
    unfold isComb at h
    split at h
    next rest _ _ =>
      cases rest with
      | nil => exact ⟨_, _, .pair⟩
      | cons z rest => exact ⟨_, _, .longerPair trivial⟩
    next rest _ =>
      cases rest with
      | nil => exact ⟨_, _, .items trivial⟩
      | cons z rest => exact ⟨_, _, .moreItems trivial⟩
    next => cases h
  · rintro ⟨x, y, h⟩
    cases h <;> rfl

/-- The field of a comb behind a step to the left. -/
theorem SplitsInto.combField?_left (h : SplitsInto .checked v x y) (path : List Nat) :
    v.combField? (0 :: path) = x.combField? path := by
  cases h <;> simp [combField?, isComb, combArg?, combItem?, Primitive.isPair]

/-- The field of a comb behind a step to the right. -/
theorem SplitsInto.combField?_right (h : SplitsInto .checked v x y) (path : List Nat) :
    v.combField? (1 :: path) = y.combField? path := by
  cases h <;> simp [combField?, isComb, combArg?, combItem?, Primitive.isPair]

end Combs

/-! ## Alternatives -/

/-- The payload at the address of a branch, where the value itself may be one. -/
def payloadAt? (isBranch : List Nat → Bool) (v : Expr) : Option (List Nat × Expr) :=
  if isBranch [] then some ([], v) else v.unwrap? isBranch

/-- The payload behind one more step. -/
def behind (step : Nat) (found : Option (List Nat × Expr)) : Option (List Nat × Expr) :=
  found.map fun (steps, x) => (step :: steps, x)

theorem unwrapFrom?_cons (isBranch : List Nat → Bool) (step : Nat) (taken : List Nat) (v : Expr) :
    v.unwrapFrom? isBranch (step :: taken) =
      behind step (v.unwrapFrom? (fun steps => isBranch (step :: steps)) taken) := by
  fun_induction unwrapFrom? (fun steps => isBranch (step :: steps)) taken v with
  | case1 _ _ _ _ _ hp | case3 _ _ _ _ _ hp =>
    rw [unwrapFrom?, List.cons_append, if_pos hp]
    rfl
  | case2 _ _ _ _ _ hp ih | case4 _ _ _ _ _ hp ih =>
    rw [unwrapFrom?, List.cons_append, if_neg hp]
    exact ih
  | case5 taken v hl hr =>
    rw [unwrapFrom?.eq_def]
    split
    · exact absurd rfl (hl _ _ _)
    · exact absurd rfl (hr _ _ _)
    · rfl

theorem unwrap?_left (isBranch : List Nat → Bool) (x : Expr) (annots : List String)
    (flag : Bool) :
    (app (.data .left) [x] annots flag).unwrap? isBranch =
      behind 0 (x.payloadAt? fun steps => isBranch (0 :: steps)) := by
  rw [unwrap?, unwrapFrom?, List.nil_append, payloadAt?]
  split
  · rfl
  · exact unwrapFrom?_cons isBranch 0 [] x

theorem unwrap?_right (isBranch : List Nat → Bool) (x : Expr) (annots : List String)
    (flag : Bool) :
    (app (.data .right) [x] annots flag).unwrap? isBranch =
      behind 1 (x.payloadAt? fun steps => isBranch (1 :: steps)) := by
  rw [unwrap?, unwrapFrom?, List.nil_append, payloadAt?]
  split
  · rfl
  · exact unwrapFrom?_cons isBranch 1 [] x

end Expr

namespace Typedef

/-- Whether the wrappers of a value lead to a branch that accepts the payload, where the value
itself may be the payload. -/
def HoldsSide (depth : Nat) (ts : List Typedef) (v : Expr) : Prop :=
  ∃ steps x t, v.payloadAt? (isBranch depth ts) = some (steps, x) ∧
    branchAt? depth ts steps = some t ∧ t.accepts x = true

section Branches

variable {path : List Nat} {ls rs : List Typedef}

theorem drop_beq_cons {t : Typedef} {i j : Nat} (h : path ++ [i] <+: t.path) (steps : List Nat) :
    (t.path.drop path.length == j :: steps) =
      (i == j && t.path.drop (path ++ [i]).length == steps) := by
  rw [drop_of_isPrefix h]
  rfl

/-- A step to the left leads to the branches on the left. -/
theorem branchAt?_left (hl : ∀ t ∈ ls, path ++ [0] <+: t.path)
    (hr : ∀ t ∈ rs, path ++ [1] <+: t.path) (steps : List Nat) :
    branchAt? path.length (ls ++ rs) (0 :: steps) = branchAt? (path ++ [0]).length ls steps := by
  have hleft : branchAt? path.length ls (0 :: steps) = branchAt? (path ++ [0]).length ls steps :=
    List.find?_congr fun t ht => by simp [drop_beq_cons (hl t ht)]
  have hright : branchAt? path.length rs (0 :: steps) = none :=
    List.find?_eq_none.mpr fun t ht => by simp [drop_beq_cons (hr t ht)]
  rw [branchAt?, List.find?_append, ← branchAt?, ← branchAt?, hleft, hright, Option.or_none]

/-- A step to the right leads to the branches on the right. -/
theorem branchAt?_right (hl : ∀ t ∈ ls, path ++ [0] <+: t.path)
    (hr : ∀ t ∈ rs, path ++ [1] <+: t.path) (steps : List Nat) :
    branchAt? path.length (ls ++ rs) (1 :: steps) = branchAt? (path ++ [1]).length rs steps := by
  have hleft : branchAt? path.length ls (1 :: steps) = none :=
    List.find?_eq_none.mpr fun t ht => by simp [drop_beq_cons (hl t ht)]
  have hright : branchAt? path.length rs (1 :: steps) = branchAt? (path ++ [1]).length rs steps :=
    List.find?_congr fun t ht => by simp [drop_beq_cons (hr t ht)]
  rw [branchAt?, List.find?_append, ← branchAt?, ← branchAt?, hleft, hright, Option.none_or]

theorem holdsBranch_of_step {ts us : List Typedef} {depth depth' step : Nat} {v x : Expr}
    (hv : ∀ isBranch, v.unwrap? isBranch =
      Expr.behind step (x.payloadAt? fun steps => isBranch (step :: steps)))
    (hts : ∀ steps, branchAt? depth ts (step :: steps) = branchAt? depth' us steps) :
    HoldsBranch depth ts v ↔ HoldsSide depth' us x := by
  have hbranch : (fun steps => isBranch depth ts (step :: steps)) = isBranch depth' us :=
    funext fun steps => congrArg Option.isSome (hts steps)
  rw [HoldsBranch, HoldsSide, hv, hbranch]
  constructor
  · rintro ⟨steps, payload, t, hpayload, ht, hacc⟩
    obtain ⟨⟨steps', payload'⟩, hfound, hsteps⟩ := Option.map_eq_some_iff.mp hpayload
    cases hsteps
    exact ⟨steps', payload, t, hfound, (hts steps').symm.trans ht, hacc⟩
  · rintro ⟨steps, payload, t, hfound, ht, hacc⟩
    exact ⟨step :: steps, payload, t, congrArg (Expr.behind step) hfound,
      (hts steps).trans ht, hacc⟩

/-- A nest of alternatives accepts what is wrapped for one of its sides. -/
theorem holdsBranch_append_iff (hl : ∀ t ∈ ls, path ++ [0] <+: t.path)
    (hr : ∀ t ∈ rs, path ++ [1] <+: t.path) (v : Expr) :
    HoldsBranch path.length (ls ++ rs) v ↔
      v.IsEitherOf (HoldsSide (path ++ [0]).length ls) (HoldsSide (path ++ [1]).length rs) := by
  constructor
  · intro h
    obtain ⟨steps, payload, t, hpayload, -⟩ := id h
    rw [Expr.unwrap?, Expr.unwrapFrom?.eq_def] at hpayload
    split at hpayload
    next x annots flag =>
      exact .left ((holdsBranch_of_step (Expr.unwrap?_left · x annots flag)
        (branchAt?_left hl hr)).mp h)
    next x annots flag =>
      exact .right ((holdsBranch_of_step (Expr.unwrap?_right · x annots flag)
        (branchAt?_right hl hr)).mp h)
    next => cases hpayload
  · intro h
    cases h with
    | left hx =>
      exact (holdsBranch_of_step (Expr.unwrap?_left · _ _ _) (branchAt?_left hl hr)).mpr hx
    | right hx =>
      exact (holdsBranch_of_step (Expr.unwrap?_right · _ _ _) (branchAt?_right hl hr)).mpr hx

/-- No branch of a nest lies at the path of the nest. -/
theorem branchAt?_append_nil (hl : ∀ t ∈ ls, path ++ [0] <+: t.path)
    (hr : ∀ t ∈ rs, path ++ [1] <+: t.path) : branchAt? path.length (ls ++ rs) [] = none := by
  refine List.find?_eq_none.mpr ?_
  rw [List.forall_mem_append]
  constructor
  · intro t ht
    simp [drop_of_isPrefix (hl t ht)]
  · intro t ht
    simp [drop_of_isPrefix (hr t ht)]

theorem branchAt?_singleton_nil {t : Typedef} (ht : t.path = path) :
    branchAt? path.length [t] [] = some t :=
  List.find?_cons_of_pos (by simp [ht])

/-- A side that is itself a nest goes on unwrapping. -/
theorem payloadAt?_append (hl : ∀ t ∈ ls, path ++ [0] <+: t.path)
    (hr : ∀ t ∈ rs, path ++ [1] <+: t.path) (v : Expr) :
    v.payloadAt? (isBranch path.length (ls ++ rs)) =
      v.unwrap? (isBranch path.length (ls ++ rs)) := by
  rw [Expr.payloadAt?, isBranch, branchAt?_append_nil hl hr, if_neg (by simp)]

/-- A side that is a single branch has the value itself for a payload. -/
theorem payloadAt?_singleton {t : Typedef} (ht : t.path = path) (v : Expr) :
    v.payloadAt? (isBranch path.length [t]) = some ([], v) := by
  rw [Expr.payloadAt?, isBranch, branchAt?_singleton_nil ht, if_pos Option.isSome_some]

theorem holdsSide_append_iff (hl : ∀ t ∈ ls, path ++ [0] <+: t.path)
    (hr : ∀ t ∈ rs, path ++ [1] <+: t.path) (v : Expr) :
    HoldsSide path.length (ls ++ rs) v ↔ HoldsBranch path.length (ls ++ rs) v := by
  rw [HoldsSide, HoldsBranch, payloadAt?_append hl hr]

/-- A side that is a single branch accepts the payload as it is. -/
theorem holdsSide_singleton_iff {t : Typedef} (ht : t.path = path) (v : Expr) :
    HoldsSide path.length [t] v ↔ t.accepts v = true := by
  rw [HoldsSide, payloadAt?_singleton ht]
  constructor
  · rintro ⟨steps, x, u, hx, hu, hacc⟩
    cases hx
    rw [branchAt?_singleton_nil ht] at hu
    cases hu
    exact hacc
  · intro hacc
    exact ⟨[], v, t, rfl, branchAt?_singleton_nil ht, hacc⟩

end Branches

section Fields

variable {path : List Nat} {t : Typedef} {ts : List Typedef}

/-- A comb holds its fields if its left side is accepted by the first of them, and its right side
holds the others. -/
theorem holdsFields_cons_iff (ht : t.path = path ++ [0]) (hts : ∀ u ∈ ts, path ++ [1] <+: u.path)
    (v : Expr) :
    HoldsFields path.length (t :: ts) v ↔
      v.IsPairOf .checked (fun x => t.accepts x = true) (HoldsFields (path ++ [1]).length ts) := by
  have hfirst : t.path.drop path.length = [0] := by simp [ht]
  rw [HoldsFields, List.forall_mem_cons, ← HoldsFields, hfirst]
  constructor
  · rintro ⟨⟨x, hx, hacc⟩, hrest⟩
    have hcomb : v.isComb = true := by
      rw [Expr.combField?, Option.ite_none_right_eq_some] at hx
      exact hx.1
    obtain ⟨left, right, hsplit⟩ := Expr.isComb_iff.mp hcomb
    have hleft : left = x := Option.some.inj ((hsplit.combField?_left []).symm.trans hx)
    refine ⟨left, right, hsplit, hleft ▸ hacc, ?_⟩
    intro u hu
    obtain ⟨y, hy, hyacc⟩ := hrest u hu
    rw [drop_of_isPrefix (hts u hu), hsplit.combField?_right] at hy
    exact ⟨y, hy, hyacc⟩
  · rintro ⟨x, y, hsplit, hacc, hrest⟩
    refine ⟨⟨x, hsplit.combField?_left [], hacc⟩, ?_⟩
    intro u hu
    obtain ⟨z, hz, hzacc⟩ := hrest u hu
    refine ⟨z, ?_, hzacc⟩
    rw [drop_of_isPrefix (hts u hu), hsplit.combField?_right]
    exact hz

theorem holdsFields_singleton_iff (ht : t.path = path) (v : Expr) :
    HoldsFields path.length [t] v ↔ t.accepts v = true := by
  rw [HoldsFields, List.forall_mem_singleton, ht, List.drop_length]
  simp [Expr.combField?]

/-- Names by position do not matter. -/
theorem holdsFields_numberFields_iff (depth : Nat) (v : Expr) :
    HoldsFields depth (numberFields ts) v ↔ HoldsFields depth ts v := by
  rw [numberFields_eq_mapIdx]
  exact holdsFields_mapIdx_iff exists_named_eq depth ts v

end Fields

section Constructors

variable {c : TypeConstructor} {args : List Expr} {annots : List String} {flag : Bool}
variable {name : String} {path : List Nat}

/-- A type without components accepts its values. -/
theorem accepts_leaf_iff {kind : Kind} (h : leafKind? c args = some kind) (v : Expr) :
    accepts ⟨name, kind, false, [], path⟩ v = true ↔
      (Expr.app (.type c) args annots flag).HasType .checked v := by
  rw [accepts_type (head?_of_leafKind? h)]
  by_cases hc : c = .list ∨ c = .set
  · rw [holdsComponents_items hc]
    rcases hc with rfl | rfl
    all_goals
      cases args with
      | nil => simp [Expr.HasType]
      | cons => cases h
  · have hmap : c ≠ .map ∧ c ≠ .bigMap := by
      constructor <;> (rintro rfl; cases h)
    rw [componentsOf_eq_whole (.inl (by simp_all)), HoldsComponents,
      TypeConstructor.takesWhole_iff]
    cases c with
    | list | set => simp at hc
    | pair | or | map | bigMap | contract | ticket => cases h
    | option =>
      cases args with
      | nil => simp [Expr.HasType, Expr.not_isScalarOf]
      | cons => cases h
    | lambda => simp [Expr.HasType, Expr.not_isScalarOf]
    | saplingState => simp [Expr.HasType, Expr.isScalarOf_iff_int, Reading.checked]
    | _ => simp [Expr.HasType]

/-- A type with one component accepts its values if the component does. -/
theorem accepts_unary_iff {x : Expr} {t : Typedef} {component : String}
    (hc : componentName? c = some component)
    (hx : ∀ v, t.accepts v = true ↔ x.HasType .checked v) (v : Expr) :
    accepts ⟨name, .type c, false, [t], path⟩ v = true ↔
      (Expr.app (.type c) [x] annots flag).HasType .checked v := by
  rw [accepts_type rfl]
  cases c with
  | list | set =>
    rw [holdsComponents_items (by simp)]
    simp [Expr.HasType, hx]
  | contract =>
    rw [componentsOf_eq_whole (.inl (by simp)), HoldsComponents, TypeConstructor.takesWhole_iff]
    simp [Expr.HasType]
  | ticket =>
    rw [componentsOf_eq_whole (.inl (by simp)), HoldsComponents, TypeConstructor.takesWhole_iff]
    simp [Expr.HasType, Expr.not_isScalarOf]
  | _ => cases hc

/-- A type with two components accepts its values if the components do. -/
theorem accepts_binary_iff {x y : Expr} {t u : Typedef} {components : String × String}
    (hc : componentNames? c = some components)
    (hx : ∀ v, t.accepts v = true ↔ x.HasType .checked v)
    (hy : ∀ v, u.accepts v = true ↔ y.HasType .checked v) (v : Expr) :
    accepts ⟨name, .type c, false, [t, u], path⟩ v = true ↔
      (Expr.app (.type c) [x, y] annots flag).HasType .checked v := by
  have hentry : HoldsEntry [t, u] = Expr.IsEntryOf (x.HasType .checked) (y.HasType .checked) := by
    funext item
    simp only [HoldsEntry, hx, hy]
  rw [accepts_type rfl]
  cases c with
  | map =>
    rw [holdsComponents_entries (by simp), hentry]
    simp [Expr.HasType, Expr.not_isScalarOf]
  | bigMap =>
    rw [holdsComponents_entries (by simp), hentry]
    simp [Expr.HasType, Expr.isScalarOf_iff_int]
  | lambda =>
    rw [componentsOf_eq_whole (.inl (by simp)), HoldsComponents, TypeConstructor.takesWhole_iff]
    simp [Expr.HasType, Expr.not_isScalarOf]
  | _ => cases hc

end Constructors

/-! ## Derived typedefs -/

mutual
/-- **A derived typedef accepts the values of its type.** -/
theorem Derives.accepts_iff {e : Expr} {fallback : String} {path : List Nat} {t : Typedef}
    (h : Derives e fallback path t) (v : Expr) : t.accepts v = true ↔ e.HasType .checked v := by
  match h with
  | .struct hfields =>
    rw [accepts_struct, holdsFields_numberFields_iff, Expr.HasType]
    exact hfields.holds_iff v
  | .union hbranches =>
    rw [accepts_union]
    exact hbranches.holds_iff v
  | .option hinner =>
    rw [accepts_optional, Expr.HasType]
    simp [Reading.checked]
  | .leaf hkind => exact accepts_leaf_iff hkind v
  | .unary hc hx => exact accepts_unary_iff hc hx.accepts_iff v
  | .binary hc hx hy => exact accepts_binary_iff hc hx.accepts_iff hy.accepts_iff v
/-- The fields of a comb are found in the values of the comb. -/
theorem DerivesFields.holds_iff {args : List Expr} {path : List Nat} {ts : List Typedef}
    (h : DerivesFields args path ts) (v : Expr) :
    HoldsFields path.length ts v ↔ Expr.HasCombType .checked args v := by
  match h with
  | .nest hx hs =>
    rw [holdsFields_cons_iff hx.path_eq hs.isPrefix, Expr.HasCombType]
    simp only [Expr.IsPairOf, hx.accepts_iff, hs.holds_iff, Expr.HasType]
  | .last _ hx hy =>
    rw [holdsFields_cons_iff hx.path_eq (by simp [hy.path_eq]), Expr.HasCombType]
    simp only [Expr.IsPairOf, hx.accepts_iff, holdsFields_singleton_iff hy.path_eq,
      hy.accepts_iff]
  | .next hx hs =>
    rw [holdsFields_cons_iff hx.path_eq hs.isPrefix, Expr.HasCombType]
    simp only [Expr.IsPairOf, hx.accepts_iff, hs.holds_iff]
/-- The branches of a nest lie behind the wrappers of its values. -/
theorem DerivesBranches.holds_iff {first : String} {args : List Expr} {path : List Nat}
    {ts : List Typedef} (h : DerivesBranches first args path ts) {annots : List String}
    {flag : Bool} (v : Expr) :
    HoldsBranch path.length ts v ↔
      (Expr.app (.type .or) args annots flag).HasType .checked v := by
  match h with
  | .both hl hr =>
    rw [holdsBranch_append_iff hl.isPrefix hr.isPrefix, Expr.HasType]
    simp only [Expr.isEitherOf_iff, hl.holds_iff, hr.holds_iff]
/-- The branches on one side of a nest lie behind the further wrappers of its payloads. -/
theorem DerivesSide.holds_iff {first : String} {e : Expr} {path : List Nat} {ts : List Typedef}
    (h : DerivesSide first e path ts) (v : Expr) :
    HoldsSide path.length ts v ↔ e.HasType .checked v := by
  match h with
  | .nest (.both hl hr) =>
    rw [holdsSide_append_iff hl.isPrefix hr.isPrefix]
    exact (DerivesBranches.both hl hr).holds_iff v
  | .one _ hx =>
    rw [holdsSide_singleton_iff hx.path_eq]
    exact hx.accepts_iff v
end

/-- **Conformance is typing.** The typedef that is derived from a type, or from the section that
declares it, accepts just the values of the type. -/
theorem accepts_derive_iff (type : Expr) (name : String) (t : Typedef)
    (h : derive type name = .ok t) (v : Expr) :
    t.accepts v = true ↔ (sectionType type).HasType .checked v :=
  (derives_of_build _ _ _ _ h).accepts_iff v

/-- A section that declares a comb of a list, a nest of alternatives and an option. -/
def combSection : Expr :=
  .app (.keyword .parameter) [.app (.type .pair)
    [.app (.type .list) [.plainType .nat] ["%counts"],
      .app (.type .or) [.app (.type .or) [.plainType .unit, .plainType .int], .plainType .string],
      .app (.type .option) [.plainType .bytes]]]

/-- A value of that comb, written as a sequence. -/
def combValue : Expr :=
  .seq [.seq [.int 1, .int 2], .app (.data .left) [.app (.data .right) [.int (-5)]],
    .app (.data .none) []]

theorem accepts_derive_iff_combSection :
    ∃ t, derive combSection "call" = .ok t ∧ t.accepts combValue = true ∧
      (sectionType combSection).HasType .checked combValue := by
  have haccepts : (derive combSection "call").map (·.accepts combValue) = .ok true := by
    decide +kernel
  obtain ⟨t, ht, hacc⟩ := map_eq_ok_iff.mp haccepts
  exact ⟨t, ht, hacc, (accepts_derive_iff combSection "call" t ht combValue).mp hacc⟩

end Typedef

end Michelson

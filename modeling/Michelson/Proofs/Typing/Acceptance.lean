import Michelson.Proofs.Success
import Michelson.Proofs.Typing.Relation

/-!
# What the check accepts

The check of each kind of typedef in terms of what it accepts, with the mismatches left aside. A
value is accepted as a struct if each field is found in it and accepted, as a union if the branch
that its wrappers lead to accepts the payload, and as a collection if the items are accepted.

## Main definitions

* `Typedef.HoldsFields`, `Typedef.HoldsBranch`: structs and unions
* `Typedef.HoldsItems`, `Typedef.HoldsEntry`, `Typedef.HoldsComponents`: collections and the rest
* `Typedef.Alike`: typedefs at one path that accept the same values

## Main results

* `Typedef.accepts_struct`, `Typedef.accepts_union`, `Typedef.accepts_sequence`,
  `Typedef.accepts_entries`: one statement for each kind
* `Typedef.accepts_rename`: names do not matter
* `Typedef.accepts_congr`: components that accept the same may stand for each other
-/

namespace Michelson

namespace Typedef

theorem accepts_iff {t : Typedef} {v : Expr} : t.accepts v = true ↔ t.check v = .ok () :=
  toBool_eq_true_iff

/-- Whether each of some fields is found in a comb and accepted, when the struct that they belong
to has a path of the given length. -/
def HoldsFields (depth : Nat) (ts : List Typedef) (v : Expr) : Prop :=
  ∀ t ∈ ts, ∃ x, v.combField? (t.path.drop depth) = some x ∧ t.accepts x = true

/-- The branch that steps from a path of the given length lead to. -/
def branchAt? (depth : Nat) (ts : List Typedef) (steps : List Nat) : Option Typedef :=
  ts.find? (·.path.drop depth == steps)

/-- Whether steps from a path of the given length lead to one of some branches. -/
def isBranch (depth : Nat) (ts : List Typedef) (steps : List Nat) : Bool :=
  (branchAt? depth ts steps).isSome

/-- Whether the items of a list or set are accepted, if the type of the items is known. -/
def HoldsItems (args : List Typedef) (items : List Expr) : Prop :=
  ∀ t ∈ args.head?, ∀ x ∈ items, t.accepts x = true

/-- Whether an item is an entry of a map, with key and value accepted. -/
def HoldsEntry : List Typedef → Expr → Prop
  | [keyType, valueType], x =>
    x.IsEntryOf (fun k => keyType.accepts k = true) (fun w => valueType.accepts w = true)
  | _, x => x.IsEntryOf (fun _ => True) fun _ => True

/-- Whether all there is to look at in a value is accepted. -/
def HoldsComponents (args : List Typedef) : Components → Prop
  | .items items => HoldsItems args items
  | .entries items => ∀ x ∈ items, HoldsEntry args x
  | .whole taken => taken = true

/-- Whether the wrappers of a value lead to a branch that accepts the payload. -/
def HoldsBranch (depth : Nat) (ts : List Typedef) (v : Expr) : Prop :=
  ∃ steps x t, v.unwrap? (isBranch depth ts) = some (steps, x) ∧
    branchAt? depth ts steps = some t ∧ t.accepts x = true

section Kinds

variable {name : String} {args : List Typedef} {path : List Nat} {v : Expr}

theorem isOptionValue_iff : isOptionValue v = true ↔ v.IsOptionOf fun _ => True := by
  constructor
  · intro h
    unfold isOptionValue at h
    split at h
    · exact .some trivial
    · exact .none
    · cases h
  · intro h
    cases h <;> rfl

theorem accepts_optional {kind : Kind} :
    accepts ⟨name, kind, true, args, path⟩ v = true ↔ v.IsOptionOf fun _ => True := by
  rw [accepts_iff, check.eq_def, ← isOptionValue_iff]
  cases isOptionValue v <;> simp

theorem checkFields_eq_ok_iff {depth : Nat} {ts : List Typedef} :
    checkFields depth ts v = .ok () ↔ HoldsFields depth ts v := by
  induction ts with
  | nil => simp [checkFields, HoldsFields]
  | cons t ts ih =>
    rw [HoldsFields, List.forall_mem_cons, ← HoldsFields, ← ih, checkFields]
    cases hx : v.combField? (t.path.drop depth) with
    | none => simp [bind, Except.bind]
    | some x =>
      simp only [bind_eq_ok_iff, Option.some.injEq, exists_eq_left', accepts_iff]
      constructor
      · rintro ⟨_, ht, hs⟩
        exact ⟨ht, hs⟩
      · rintro ⟨ht, hs⟩
        exact ⟨(), ht, hs⟩

/-- A struct is accepted field by field. -/
theorem accepts_struct :
    accepts ⟨name, .struct, false, args, path⟩ v = true ↔ HoldsFields path.length args v := by
  rw [accepts_iff, check.eq_def]
  exact checkFields_eq_ok_iff

theorem checkBranch_eq_ok_iff {depth : Nat} {steps : List Nat} {ts : List Typedef}
    (h : isBranch depth ts steps = true) :
    checkBranch depth steps ts v = .ok () ↔
      ∃ t, branchAt? depth ts steps = some t ∧ t.accepts v = true := by
  induction ts with
  | nil => cases h
  | cons t ts ih =>
    rw [isBranch, branchAt?, List.find?_cons] at h
    rw [checkBranch, branchAt?, List.find?_cons]
    cases ht : t.path.drop depth == steps with
    | true => simp [accepts_iff]
    | false =>
      rw [ht] at h
      exact ih h

/-- The steps that are taken to a payload are the address of a branch. -/
theorem isBranch_of_unwrapFrom? {p : List Nat → Bool} {v x : Expr} {taken steps : List Nat}
    (h : v.unwrapFrom? p taken = some (steps, x)) : p steps = true := by
  fun_induction Expr.unwrapFrom? p taken v with
  | case1 _ _ _ _ _ hp | case3 _ _ _ _ _ hp =>
    obtain ⟨rfl, -⟩ := Prod.mk.inj (Option.some.inj h)
    exact hp
  | case2 _ _ _ _ _ _ ih | case4 _ _ _ _ _ _ ih => exact ih h
  | case5 => cases h

theorem check_union :
    check ⟨name, .union, false, args, path⟩ v =
      match v.unwrap? (isBranch path.length args) with
      | some (steps, x) => checkBranch path.length steps args x
      | none => .error ⟨⟨name, .union, false, args, path⟩, v, some .writeUnion⟩ := by
  have hbranch : isBranch path.length args =
      fun steps => args.any (·.path.drop path.length == steps) :=
    funext fun _ => List.isSome_find?
  rw [check.eq_def, hbranch]
  rfl

/-- A union is accepted by the branch that its wrappers lead to. -/
theorem accepts_union :
    accepts ⟨name, .union, false, args, path⟩ v = true ↔ HoldsBranch path.length args v := by
  rw [accepts_iff, check_union, HoldsBranch]
  cases hx : v.unwrap? (isBranch path.length args) with
  | none => simp
  | some found =>
    obtain ⟨steps, x⟩ := found
    simp only [Option.some.injEq, Prod.mk.injEq, exists_and_left, and_assoc, exists_eq_left',
      checkBranch_eq_ok_iff (isBranch_of_unwrapFrom? hx)]

theorem checkItems_eq_ok_iff {items : List Expr} :
    checkItems args items = .ok () ↔ HoldsItems args items := by
  cases args with
  | nil => simp [checkItems, HoldsItems]
  | cons t ts =>
    rw [checkItems, forM_eq_ok_iff]
    simp [HoldsItems, accepts_iff]

theorem entryParts_eq_ok_iff {mapType : Typedef} {x k w : Expr} :
    entryParts mapType x = .ok (k, w) ↔
      ∃ annots flag, x = .app (.data .elt) [k, w] annots flag := by
  constructor
  · intro h
    unfold entryParts at h
    split at h
    next key value hx =>
      split at h
      next helt =>
        obtain ⟨xs, annots, flag, rfl⟩ := Expr.applies_iff.mp helt
        cases h
        exact ⟨annots, flag, congrArg (Expr.app _ · annots flag) hx⟩
      next => cases h
    next => cases h
  · rintro ⟨annots, flag, rfl⟩
    rfl

theorem checkEntries_eq_ok_iff {mapType : Typedef} {items : List Expr} :
    checkEntries mapType args items = .ok () ↔ ∀ x ∈ items, HoldsEntry args x := by
  rw [checkEntries.eq_def]
  split
  next keyType valueType =>
    rw [forM_eq_ok_iff]
    refine forall₂_congr fun x _ => ?_
    simp only [bind_eq_ok_iff, HoldsEntry]
    constructor
    · rintro ⟨⟨k, w⟩, hx, _, hk, hw⟩
      obtain ⟨annots, flag, rfl⟩ := entryParts_eq_ok_iff.mp hx
      exact .elt (accepts_iff.mpr hk) (accepts_iff.mpr hw)
    · intro h
      cases h with
      | elt hk hw => exact ⟨(_, _), rfl, (), accepts_iff.mp hk, accepts_iff.mp hw⟩
  next hargs =>
    rw [forM_eq_ok_iff]
    refine forall₂_congr fun x _ => ?_
    rw [map_eq_ok_iff, HoldsEntry.eq_def]
    constructor
    · rintro ⟨⟨k, w⟩, hx, -⟩
      obtain ⟨annots, flag, rfl⟩ := entryParts_eq_ok_iff.mp hx
      split
      · exact absurd rfl (hargs _ _)
      · exact .elt trivial trivial
    · intro h
      split at h
      · exact absurd rfl (hargs _ _)
      · cases h
        exact ⟨(_, _), rfl, rfl⟩

/-- A type of another constructor is accepted by what there is to look at in the value, whether or
not its kind has a memo size. -/
theorem accepts_type {kind : Kind} {c : TypeConstructor} (h : kind.head? = some (.type c)) :
    accepts ⟨name, kind, false, args, path⟩ v = true ↔
      HoldsComponents args (componentsOf c v) := by
  rw [accepts_iff, check.eq_def]
  rcases Kind.head?_eq_type_iff.mp h with rfl | ⟨size, rfl⟩
  all_goals
    simp only [Bool.false_eq_true, if_false]
    cases componentsOf c v with
    | items items => exact checkItems_eq_ok_iff
    | entries items => exact checkEntries_eq_ok_iff
    | whole taken => cases taken <;> simp [HoldsComponents]

theorem accepts_rename (t : Typedef) (n : String) (v : Expr) :
    ({ t with name := n } : Typedef).accepts v = t.accepts v := by
  obtain ⟨name, kind, optional, args, path⟩ := t
  rw [Bool.eq_iff_iff]
  cases optional with
  | true => rw [accepts_optional, accepts_optional]
  | false =>
    cases kind with
    | struct => rw [accepts_struct, accepts_struct]
    | union => rw [accepts_union, accepts_union]
    | type c => rw [accepts_type rfl, accepts_type rfl]
    | sapling p size =>
      cases p with
      | type c => rw [accepts_type rfl, accepts_type rfl]
      | data | instruction | keyword => simp [accepts_iff, check.eq_def]

end Kinds

/-! ## Components that accept the same -/

/-- Whether two typedefs lie at one path and accept the same values. -/
structure Alike (t u : Typedef) : Prop where
  path_eq : t.path = u.path
  accepts_eq : ∀ v, t.accepts v = u.accepts v

theorem alike_rename (t : Typedef) (n : String) : Alike { t with name := n } t :=
  ⟨rfl, accepts_rename t n⟩

section Alike

variable {ts us : List Typedef} {v : Expr}

theorem holdsFields_congr (h : List.Forall₂ Alike ts us) (depth : Nat) (v : Expr) :
    HoldsFields depth ts v ↔ HoldsFields depth us v := by
  induction h with
  | nil => exact Iff.rfl
  | cons ht _ ih =>
    rw [HoldsFields, HoldsFields, List.forall_mem_cons, List.forall_mem_cons, ← HoldsFields,
      ← HoldsFields, ih, ht.path_eq]
    simp only [ht.accepts_eq]

/-- Names by position do not matter. -/
theorem holdsFields_mapIdx_iff {f : Nat → Typedef → Typedef}
    (hf : ∀ i t, ∃ n, f i t = { t with name := n }) (depth : Nat) (ts : List Typedef) (v : Expr) :
    HoldsFields depth (ts.mapIdx f) v ↔ HoldsFields depth ts v := by
  refine holdsFields_congr (List.forall₂_iff_get.mpr ⟨List.length_mapIdx, ?_⟩) depth v
  intro i hi hi'
  obtain ⟨n, hn⟩ := hf i ts[i]
  rw [List.get_eq_getElem, List.getElem_mapIdx, hn]
  exact alike_rename _ n

/-- Steps lead to branches that accept the same, or to none in either list. -/
theorem branchAt?_congr (h : List.Forall₂ Alike ts us) (depth : Nat) (steps : List Nat) :
    (branchAt? depth ts steps).map accepts = (branchAt? depth us steps).map accepts := by
  induction h with
  | nil => rfl
  | @cons t u ts us ht _ ih =>
    rw [branchAt?, branchAt?, List.find?_cons, List.find?_cons, ht.path_eq]
    cases u.path.drop depth == steps with
    | true => exact congrArg some (funext ht.accepts_eq)
    | false => exact ih

theorem holdsBranch_congr (h : List.Forall₂ Alike ts us) (depth : Nat) (v : Expr) :
    HoldsBranch depth ts v ↔ HoldsBranch depth us v := by
  have hbranch : isBranch depth ts = isBranch depth us := by
    funext steps
    have hsome := congrArg Option.isSome (branchAt?_congr h depth steps)
    rwa [Option.isSome_map, Option.isSome_map] at hsome
  have htaken (steps : List Nat) (x : Expr) (ts : List Typedef) :
      (∃ t, branchAt? depth ts steps = some t ∧ t.accepts x = true) ↔
        ∃ taken, (branchAt? depth ts steps).map accepts = some taken ∧ taken x = true := by
    simp
  simp only [HoldsBranch, hbranch, exists_and_left, htaken, branchAt?_congr h]

theorem holdsItems_congr (h : List.Forall₂ Alike ts us) (items : List Expr) :
    HoldsItems ts items ↔ HoldsItems us items := by
  cases h with
  | nil => exact Iff.rfl
  | cons ht _ => simp [HoldsItems, ht.accepts_eq]

theorem holdsEntry_congr (h : List.Forall₂ Alike ts us) (v : Expr) :
    HoldsEntry ts v ↔ HoldsEntry us v := by
  rcases h with _ | ⟨hk, _ | ⟨hw, _ | ⟨hx, h⟩⟩⟩
  · exact Iff.rfl
  · exact Iff.rfl
  · simp only [HoldsEntry, hk.accepts_eq, hw.accepts_eq]
  · exact Iff.rfl

theorem holdsComponents_congr (h : List.Forall₂ Alike ts us) (parts : Components) :
    HoldsComponents ts parts ↔ HoldsComponents us parts := by
  cases parts with
  | items items => exact holdsItems_congr h items
  | entries items => exact forall₂_congr fun x _ => holdsEntry_congr h x
  | whole taken => exact Iff.rfl

/-- **Components may be replaced** by others at their paths that accept the same values. -/
theorem accepts_congr (h : List.Forall₂ Alike ts us) (name : String) (kind : Kind)
    (optional : Bool) (path : List Nat) (v : Expr) :
    accepts ⟨name, kind, optional, ts, path⟩ v = accepts ⟨name, kind, optional, us, path⟩ v := by
  rw [Bool.eq_iff_iff]
  cases optional with
  | true => rw [accepts_optional, accepts_optional]
  | false =>
    cases kind with
    | struct =>
      rw [accepts_struct, accepts_struct]
      exact holdsFields_congr h _ v
    | union =>
      rw [accepts_union, accepts_union]
      exact holdsBranch_congr h _ v
    | type c =>
      rw [accepts_type rfl, accepts_type rfl]
      exact holdsComponents_congr h _
    | sapling p size =>
      cases p with
      | type c =>
        rw [accepts_type rfl, accepts_type rfl]
        exact holdsComponents_congr h _
      | data | instruction | keyword => simp [accepts_iff, check.eq_def]

end Alike

end Typedef

/-! ## Components -/

section Components

variable {c : TypeConstructor} {v : Expr}

/-- The types whose values are never literals, truth values or units. -/
theorem Expr.not_isScalarOf (hc : c ∈ [.list, .set, .map, .option, .lambda, .ticket]) :
    ¬ v.IsScalarOf c := by
  rw [isScalarOf_iff]
  cases c <;> simp_all [TypeConstructor.takesInt, TypeConstructor.takesText,
    TypeConstructor.takesBytes]

/-- The big maps and sapling states that are no sequences are integers. -/
theorem Expr.isScalarOf_iff_int (hc : c = .bigMap ∨ c = .saplingState) :
    v.IsScalarOf c ↔ ∃ n annots, v = .int n annots := by
  rw [isScalarOf_iff]
  rcases hc with rfl | rfl <;> simp [TypeConstructor.takesInt, TypeConstructor.takesText,
    TypeConstructor.takesBytes]

/-- What is taken without a look at its components. -/
theorem TypeConstructor.takesWhole_iff :
    c.takesWhole v = true ↔
      v.IsScalarOf c ∨
      (c = .lambda ∧ (v.IsSequenceOf (fun _ => True) ∨ v.applies (.data .lambdaRec) = true)) ∨
      (c = .saplingState ∧ v.IsSequenceOf fun _ => True) ∨
      (c = .option ∧ v.IsOptionOf fun _ => True) ∨
      (c = .ticket ∧
        ∃ x y rest annots flag, v = .app (.data .pair) (x :: y :: rest) annots flag) := by
  unfold takesWhole
  split
  all_goals simp_all [Expr.isScalarOf_iff, Expr.isSequenceOf_iff, Expr.isOptionOf_iff,
    Expr.applies, Expr.head?]

namespace Typedef

theorem componentsOf_eq_whole
    (h : c ∉ [.list, .set, .map, .bigMap] ∨ ∀ items annots, v ≠ .seq items annots) :
    componentsOf c v = .whole (c.takesWhole v) := by
  unfold componentsOf
  split
  all_goals first
    | rfl
    | simp at h

/-- Lists and sets take the sequences of accepted items. -/
theorem holdsComponents_items (hc : c = .list ∨ c = .set) (args : List Typedef) :
    HoldsComponents args (componentsOf c v) ↔
      v.IsSequenceOf fun x => ∀ t ∈ args.head?, t.accepts x = true := by
  cases v with
  | seq items annots =>
    have hitems : componentsOf c (.seq items annots) = .items items := by
      rcases hc with rfl | rfl <;> rfl
    rw [hitems, Expr.isSequenceOf_iff]
    simp only [HoldsComponents, HoldsItems, Expr.seq.injEq]
    constructor
    · intro h
      exact ⟨items, annots, fun x hx t ht => h t ht x hx, rfl, rfl⟩
    · rintro ⟨_, _, h, rfl, rfl⟩ t ht x hx
      exact h x hx t ht
  | int | string | bytes | app =>
    rw [componentsOf_eq_whole (.inr (by simp)), HoldsComponents, TypeConstructor.takesWhole_iff]
    rcases hc with rfl | rfl <;> simp [Expr.not_isScalarOf, Expr.isSequenceOf_iff]

/-- Maps take the sequences of accepted entries, and what else stands for a big map. -/
theorem holdsComponents_entries (hc : c = .map ∨ c = .bigMap) (args : List Typedef) :
    HoldsComponents args (componentsOf c v) ↔
      v.IsScalarOf c ∨ v.IsSequenceOf (HoldsEntry args) := by
  cases v with
  | seq items annots =>
    have hentries : componentsOf c (.seq items annots) = .entries items := by
      rcases hc with rfl | rfl <;> rfl
    rw [hentries]
    simp [HoldsComponents, Expr.isSequenceOf_iff, Expr.isScalarOf_iff]
  | int | string | bytes | app =>
    rw [componentsOf_eq_whole (.inr (by simp)), HoldsComponents, TypeConstructor.takesWhole_iff]
    rcases hc with rfl | rfl <;> simp [Expr.isSequenceOf_iff]

end Typedef

end Components

end Michelson

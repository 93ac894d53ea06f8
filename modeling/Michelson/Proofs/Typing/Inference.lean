import Michelson.Proofs.Typedef.Derivability
import Michelson.Proofs.Typing.Conformance
import Michelson.Typing.Inference

/-!
# Values conform to their inferred types

The type that is guessed for a value has a typedef, and the typedef accepts the value again. This
takes a value that is written in one of the usual forms, with every part of it written so. The
guess for a sequence is never at odds with its items: code may hold anything, the items of a set
are literals of one kind, and no entry is a value of its own.

## Main definitions

* `Expr.IsLike`: a value of the type that is inferred from another
* `Expr.IsInferable`: the values in the usual forms
* `Expr.IsInferred`: a value of its own type

## Main results

* `Expr.isInferred_pair`, `Expr.isInferred_items`, `Expr.isInferred_entries`: pairs and sequences
* `Expr.isInferred_of_isInferable`: all values in the usual forms
* `Typedef.exists_infer_accepts`: the typedef that is inferred accepts the value
-/

namespace Michelson

/-- Whether a type stands without arguments, and takes just single values. -/
structure TypeConstructor.IsScalar (c : TypeConstructor) : Prop where
  leafKind : Typedef.leafKind? c [] = some (.type c)
  hasType_iff : ∀ v, (Expr.plainType c).HasType .checked v ↔ v.IsScalarOf c

namespace Expr

/-- Whether a value conforms to the typedef that is inferred from another one. -/
def IsLike (first v : Expr) : Prop :=
  ∃ name t, Typedef.infer first name = .ok t ∧ t.accepts v = true

/-- **The values in the usual forms**: literals, truth values and the unit, options and
alternatives, pairs, recursive lambdas, sequences of such values, and sequences of entries of which
the later ones are like the first. -/
inductive IsInferable : Expr → Prop
  | int {n annots} : IsInferable (.int n annots)
  | string {s annots} : IsInferable (.string s annots)
  | bytes {b annots} : IsInferable (.bytes b annots)
  | true {annots flag} : IsInferable (.app (.data .true) [] annots flag)
  | false {annots flag} : IsInferable (.app (.data .false) [] annots flag)
  | unit {annots flag} : IsInferable (.app (.data .unit) [] annots flag)
  | none {annots flag} : IsInferable (.app (.data .none) [] annots flag)
  | lambdaRec {args annots flag} : IsInferable (.app (.data .lambdaRec) args annots flag)
  | some {x annots flag} : IsInferable x → IsInferable (.app (.data .some) [x] annots flag)
  | left {x annots flag} : IsInferable x → IsInferable (.app (.data .left) [x] annots flag)
  | right {x annots flag} : IsInferable x → IsInferable (.app (.data .right) [x] annots flag)
  | pair {xs annots flag} : 2 ≤ xs.length → (∀ x ∈ xs, IsInferable x) →
    IsInferable (.app (.data .pair) xs annots flag)
  | items {xs annots} : (∀ x ∈ xs, IsInferable x) → IsInferable (.seq xs annots)
  | entries {k v annots flag rest annots'} : IsInferable k → IsInferable v →
    (∀ x ∈ rest, ∀ y ∈ x.children, IsInferable y) →
    (∀ x ∈ rest, x.IsEntryOf k.IsLike v.IsLike) →
    IsInferable (.seq (.app (.data .elt) [k, v] annots flag :: rest) annots')

/-- **A value of its own type**: the type that it seems to have has a typedef, and the value is one
of that type. -/
structure IsInferred (v : Expr) : Prop where
  hasTypedef : v.inferType.HasTypedef
  hasType : v.inferType.HasType .checked v

variable {v x y : Expr} {xs : List Expr} {annots : List String} {flag : Bool}
variable {c : TypeConstructor}

theorem inferTypes_eq_map (xs : List Expr) : inferTypes xs = xs.map inferType := by
  induction xs with
  | nil => rfl
  | cons x xs ih => rw [inferTypes, ih, List.map_cons]

theorem isInferred_of_eq (type : Expr) (h : v.inferType = type) (hder : type.HasTypedef)
    (hv : type.HasType .checked v) : v.IsInferred :=
  ⟨h ▸ hder, h ▸ hv⟩

/-- A value is accepted by the typedef that is inferred from another just if it is of that type. -/
theorem IsInferred.isLike_iff (h : x.IsInferred) :
    x.IsLike y ↔ x.inferType.HasType .checked y := by
  constructor
  · rintro ⟨name, t, ht, hy⟩
    rw [Typedef.infer, Typedef.derive, h.hasTypedef.sectionType_eq] at ht
    exact ((Typedef.derives_of_build _ _ _ _ ht).accepts_iff y).mp hy
  · intro hy
    obtain ⟨t, ht, hder⟩ := h.hasTypedef.exists_derive ""
    exact ⟨"", t, ht, (hder.accepts_iff y).mpr hy⟩

/-! ## Literals -/

theorem isScalar_of_mem (h : c ∈ [.int, .string, .bytes, .timestamp, .signature, .address,
    .txRollupL2Address]) : c.IsScalar := by
  simp only [List.mem_cons, List.not_mem_nil, or_false] at h
  rcases h with rfl | rfl | rfl | rfl | rfl | rfl | rfl
  all_goals
    refine ⟨rfl, fun v => ?_⟩
    rw [plainType]
    simp [HasType]

theorem IsScalarOf.isInferred (hv : v.IsScalarOf c) (hc : c.IsScalar)
    (h : v.inferType = plainType c) : v.IsInferred :=
  isInferred_of_eq _ h (hasTypedef_leaf hc.leafKind) ((hc.hasType_iff v).mpr hv)

theorem typeOfAddress_cases (address : Address) :
    typeOfAddress address = plainType .txRollupL2Address ∨
      typeOfAddress address = plainType .address := by
  unfold typeOfAddress
  split
  · exact .inl rfl
  · exact .inr rfl

/-- Whatever a text seems to be, it may be written as a text. -/
theorem exists_typeOfText_eq (s : String) :
    ∃ c : TypeConstructor, typeOfText s = plainType c ∧ c.IsScalar ∧ c.takesText = true := by
  unfold typeOfText
  split
  · exact ⟨.timestamp, rfl, isScalar_of_mem (by simp), rfl⟩
  · split
    next address _ =>
      rcases typeOfAddress_cases address with h | h
      · exact ⟨_, h, isScalar_of_mem (by simp), rfl⟩
      · exact ⟨_, h, isScalar_of_mem (by simp), rfl⟩
    next =>
      split
      · exact ⟨.signature, rfl, isScalar_of_mem (by simp), rfl⟩
      · exact ⟨.string, rfl, isScalar_of_mem (by simp), rfl⟩

/-- Whatever bytes seem to be, they may be written as bytes. -/
theorem exists_typeOfBytes_eq (b : List UInt8) :
    ∃ c : TypeConstructor, typeOfBytes b = plainType c ∧ c.IsScalar ∧ c.takesBytes = true := by
  unfold typeOfBytes
  split
  next address _ =>
    rcases typeOfAddress_cases address with h | h
    · exact ⟨_, h, isScalar_of_mem (by simp), rfl⟩
    · exact ⟨_, h, isScalar_of_mem (by simp), rfl⟩
  next => exact ⟨.bytes, rfl, isScalar_of_mem (by simp), rfl⟩

/-- **The type of a literal** takes single values only, and the literal is one of them. -/
theorem exists_inferType_of_isLiteral (h : v.isLiteral = true) :
    ∃ c : TypeConstructor, v.inferType = plainType c ∧ c.IsScalar ∧ v.IsScalarOf c := by
  cases v with
  | int n annots => exact ⟨.int, rfl, isScalar_of_mem (by simp), .int rfl⟩
  | string s annots =>
    obtain ⟨c, htype, hc, htakes⟩ := exists_typeOfText_eq s
    exact ⟨c, htype, hc, .string htakes⟩
  | bytes b annots =>
    obtain ⟨c, htype, hc, htakes⟩ := exists_typeOfBytes_eq b
    exact ⟨c, htype, hc, .bytes htakes⟩
  | seq | app => cases h

theorem isInferred_of_isLiteral (h : v.isLiteral = true) : v.IsInferred := by
  obtain ⟨c, htype, hc, hv⟩ := exists_inferType_of_isLiteral h
  exact hv.isInferred hc htype

/-! ## Sets -/

/-- Only literals of one kind are compared, and a type takes all literals of a kind or none. -/
theorem isScalarOf_of_compareLiterals? {order : Ordering}
    (h : compareLiterals? x y = some order) (hx : x.IsScalarOf c) : y.IsScalarOf c := by
  unfold compareLiterals? at h
  split at h
  · cases hx with
    | int htakes => exact .int htakes
  · cases hx with
    | string htakes => exact .string htakes
  · cases hx with
    | bytes htakes => exact .bytes htakes
  · cases h

theorem isLiteral_of_compareLiterals? {order : Ordering}
    (h : compareLiterals? x y = some order) : x.isLiteral = true := by
  unfold compareLiterals? at h
  split at h
  · rfl
  · rfl
  · rfl
  · cases h

/-- Ascending literals are all of the type of the first. -/
theorem isScalarOf_of_isAscending (h : isAscending (x :: xs) = true) (hx : x.IsScalarOf c) :
    ∀ y ∈ x :: xs, y.IsScalarOf c := by
  induction xs generalizing x with
  | nil => exact List.forall_mem_singleton.mpr hx
  | cons y rest ih =>
    rw [isAscending, Bool.and_eq_true, beq_iff_eq] at h
    exact List.forall_mem_cons.mpr ⟨hx, ih h.2 (isScalarOf_of_compareLiterals? h.1 hx)⟩

/-- What looks like a set is one of the type of its first item. -/
theorem isInferred_set (h : isSet (.seq xs annots) = true)
    (htype : (seq xs annots).inferType = .app (.type .set) (inferFirst xs)) :
    (seq xs annots).IsInferred := by
  match xs, h with
  | x :: y :: rest, h =>
    rw [isSet, Bool.and_eq_true] at h
    have hascending := h.2
    rw [isAscending, Bool.and_eq_true, beq_iff_eq] at hascending
    obtain ⟨c, hfirst, hc, hx⟩ :=
      exists_inferType_of_isLiteral (isLiteral_of_compareLiterals? hascending.1)
    have hall := isScalarOf_of_isAscending h.2 hx
    rw [inferFirst, hfirst] at htype
    refine isInferred_of_eq _ htype (.unary rfl (hasTypedef_leaf hc.leafKind)) ?_
    rw [HasType]
    exact .seq fun z hz => (hc.hasType_iff z).mpr (hall z hz)

/-! ## Pairs -/

/-- A comb of values is of the comb of their types, whether it is written as a pair or as a
sequence. -/
theorem hasCombType_of_forall₂ {types values : List Expr} (hlength : 2 ≤ types.length)
    (h : List.Forall₂ (fun type v => HasType .checked type v) types values) :
    (∀ annots flag, HasCombType .checked types (.app (.data .pair) values annots flag)) ∧
      ∀ annots, HasCombType .checked types (.seq values annots) := by
  induction h with
  | nil => cases hlength
  | @cons type v types values hv hrest ih =>
    match types, values, hrest with
    | [], _, _ => simp at hlength
    | [_], [_], .cons hw .nil =>
      simp only [HasCombType]
      exact ⟨fun _ _ => ⟨_, _, .pair, hv, hw⟩, fun _ => ⟨_, _, .items trivial, hv, hw⟩⟩
    | _ :: _ :: _, _ :: _ :: _, _ =>
      obtain ⟨hpair, hseq⟩ := ih (by simp)
      simp only [HasCombType]
      exact ⟨fun _ _ => ⟨_, _, .longerPair trivial, hv, hpair _ _⟩,
        fun _ => ⟨_, _, .moreItems trivial, hv, hseq _⟩⟩

/-- The comb of the types of values has a typedef, and their combs are of that type. -/
theorem hasTypedef_inferTypes (hlength : 2 ≤ xs.length) (h : ∀ x ∈ xs, x.IsInferred) :
    (app (.type .pair) (inferTypes xs)).HasTypedef ∧
      (∀ annots flag, (app (.type .pair) (inferTypes xs)).HasType .checked
        (.app (.data .pair) xs annots flag)) ∧
      ∀ annots, (app (.type .pair) (inferTypes xs)).HasType .checked (.seq xs annots) := by
  have hlength' : 2 ≤ (inferTypes xs).length := by
    rw [inferTypes_eq_map, List.length_map]
    exact hlength
  simp only [HasType]
  refine ⟨hasTypedef_pair hlength' ?_, hasCombType_of_forall₂ hlength' ?_⟩
  · rw [inferTypes_eq_map, List.forall_mem_map]
    exact fun x hx => (h x hx).hasTypedef
  · rw [inferTypes_eq_map, List.forall₂_map_left_iff, List.forall₂_same]
    exact fun x hx => (h x hx).hasType

theorem isInferred_pair (hlength : 2 ≤ xs.length) (h : ∀ x ∈ xs, x.IsInferred) :
    (app (.data .pair) xs annots flag).IsInferred := by
  obtain ⟨hder, hpair, -⟩ := hasTypedef_inferTypes hlength h
  refine isInferred_of_eq _ ?_ hder (hpair annots flag)
  match xs, hlength with
  | x :: y :: rest, _ => rw [inferType]

/-! ## Sequences -/

/-- Any sequence is accepted as code. -/
theorem isInferred_code (h : isCode (.seq xs annots) = true) : (seq xs annots).IsInferred := by
  refine isInferred_of_eq (plainType .lambda) ?_ (hasTypedef_leaf rfl) ?_
  · rw [inferType.eq_def]
    exact if_pos h
  · rw [plainType, HasType]
    exact .inl (.seq fun _ _ => trivial)

/-- **A sequence** whose items are of their own types and are no entries is of its own type. -/
theorem isInferred_items (h : ∀ x ∈ xs, x.IsInferred) (hentry : ∀ x ∈ xs, x.isEntry = false) :
    (seq xs annots).IsInferred := by
  -- The cases are those of the guess. Only for code and for a set does it not follow the items.
  have hmap : ¬ isMap (.seq xs annots) = true := by
    cases xs with
    | nil => simp [isMap]
    | cons x rest => simp [isMap, hentry x (.head _)]
  by_cases hcode : isCode (.seq xs annots) = true
  · exact isInferred_code hcode
  by_cases hset : isSet (.seq xs annots) = true
  · refine isInferred_set hset ?_
    rw [inferType.eq_def]
    exact ((if_neg hcode).trans (if_neg hmap)).trans (if_pos hset)
  match xs with
  | [] =>
    refine isInferred_of_eq (plainType .list) rfl (hasTypedef_leaf rfl) ?_
    rw [plainType, HasType]
    exact .seq fun _ _ => trivial
  | [x] =>
    have hx : x.IsInferred := h x (.head _)
    refine isInferred_of_eq (.app (.type .list) [inferType x]) ?_ (.unary rfl hx.hasTypedef) ?_
    · rw [inferType.eq_def]
      exact ((if_neg hcode).trans (if_neg hmap)).trans (if_neg hset)
    · rw [HasType]
      exact .seq (List.forall_mem_singleton.mpr hx.hasType)
  | x :: y :: rest =>
    obtain ⟨hder, -, hseq⟩ := hasTypedef_inferTypes (by simp) h
    refine isInferred_of_eq _ ?_ hder (hseq annots)
    rw [inferType.eq_def]
    exact ((if_neg hcode).trans (if_neg hmap)).trans (if_neg hset)

/-- **A sequence of entries** like the first is of its own type. -/
theorem isInferred_entries {k w : Expr} {rest : List Expr} {annots' : List String}
    (hk : k.IsInferred) (hw : w.IsInferred) (h : ∀ x ∈ rest, x.IsEntryOf k.IsLike w.IsLike) :
    (seq (.app (.data .elt) [k, w] annots flag :: rest) annots').IsInferred := by
  have hcode : ¬ isCode (.seq (.app (.data .elt) [k, w] annots flag :: rest) annots') = true := by
    simp [isCode, isCodeItem, Primitive.isInstruction]
  have hmap : isMap (.seq (.app (.data .elt) [k, w] annots flag :: rest) annots') = true := by
    rw [isMap, List.all_cons, Bool.and_eq_true, List.all_eq_true]
    refine ⟨rfl, fun x hx => ?_⟩
    cases h x hx
    rfl
  refine isInferred_of_eq (.app (.type .map) [inferType k, inferType w]) ?_
    (.binary rfl hk.hasTypedef hw.hasTypedef) ?_
  · rw [inferType.eq_def]
    exact (if_neg hcode).trans (if_pos hmap)
  · rw [HasType]
    refine .seq (List.forall_mem_cons.mpr ⟨.elt hk.hasType hw.hasType, fun x hx => ?_⟩)
    exact (h x hx).imp (fun _ => hk.isLike_iff.mp) fun _ => hw.isLike_iff.mp

/-! ## Values in the usual forms -/

/-- No entry is a value in one of the usual forms. -/
theorem isEntry_of_isInferable (h : v.IsInferable) : v.isEntry = false := by
  cases h <;> rfl

/-- **A value in one of the usual forms** is of its own type. -/
theorem isInferred_of_isInferable (h : v.IsInferable) : v.IsInferred := by
  induction h with
  | int | string | bytes => exact isInferred_of_isLiteral rfl
  | true | false =>
    refine isInferred_of_eq (plainType .bool) rfl (hasTypedef_leaf rfl) ?_
    simp [plainType, HasType, isScalarOf_iff]
  | unit =>
    refine isInferred_of_eq (plainType .unit) rfl (hasTypedef_leaf rfl) ?_
    simp [plainType, HasType, isScalarOf_iff]
  | none =>
    refine isInferred_of_eq (plainType .option) rfl (hasTypedef_leaf rfl) ?_
    rw [plainType, HasType]
    exact .none
  | lambdaRec =>
    refine isInferred_of_eq (plainType .lambda) ?_ (hasTypedef_leaf rfl) ?_
    · rw [inferType]
    · rw [plainType, HasType]
      exact .inr rfl
  | @some x annots flag _ ih =>
    refine isInferred_of_eq (.app (.type .option) [inferType x]) rfl ih.hasTypedef.option ?_
    rw [HasType]
    exact .some fun _ => ih.hasType
  | @left x annots flag _ ih =>
    refine isInferred_of_eq (.app (.type .or) [inferType x, inferType x]) rfl
      (ih.hasTypedef.or ih.hasTypedef) ?_
    rw [HasType]
    exact .left ih.hasType
  | @right x annots flag _ ih =>
    refine isInferred_of_eq (.app (.type .or) [inferType x, inferType x]) rfl
      (ih.hasTypedef.or ih.hasTypedef) ?_
    rw [HasType]
    exact .right ih.hasType
  | pair hlength _ ih => exact isInferred_pair hlength ih
  | items h ih => exact isInferred_items ih fun x hx => isEntry_of_isInferable (h x hx)
  | entries _ _ _ h ihk ihw _ =>
    exact isInferred_entries ihk ihw h

end Expr

/-- **Values conform to their inferred types.** For every value in one of the usual forms there is a
typedef to be inferred, under any name, and it accepts the value. -/
theorem Typedef.exists_infer_accepts (v : Expr) (h : v.IsInferable) (name : String) :
    ∃ t, infer v name = .ok t ∧ t.accepts v = true := by
  have hv := Expr.isInferred_of_isInferable h
  obtain ⟨t, ht, hder⟩ := hv.hasTypedef.exists_derive name
  exact ⟨t, ht, (hder.accepts_iff v).mpr hv.hasType⟩

/-- A comb of a map from numbers to marked texts, ascending numbers, blocks without instructions
and an alternative. -/
def ledgerValue : Expr :=
  .app (.data .pair)
    [.seq [.app (.data .elt) [.int 1, .app (.data .some) [.string "one"]],
        .app (.data .elt) [.int 2, .app (.data .none) []] ["%gap"]],
      .seq [.int 2, .int 3, .int 5], .seq [.seq [], .seq []],
      .app (.data .right) [.seq [.bytes [0x05], .app (.data .true) []]]]

theorem isInferable_ledgerValue : ledgerValue.IsInferable := by
  have hkey : (Typedef.infer (.int 1) "key").toOption.map (·.accepts (.int 2)) = some true := by
    decide +kernel
  have hvalue : (Typedef.infer (.app (.data .some) [.string "one"]) "value").toOption.map
      (·.accepts (.app (.data .none) [])) = some true := by
    decide +kernel
  refine .pair (by decide) ?_
  simp only [List.forall_mem_cons, List.not_mem_nil, false_implies, implies_true, and_true]
  refine ⟨.entries .int (.some .string) ?_ ?_, .items ?_, .items ?_, .right (.items ?_)⟩
  · simp [Expr.children, Expr.IsInferable.int, Expr.IsInferable.none]
  · rw [List.forall_mem_singleton]
    exact .elt ⟨_, map_toOption_eq_some_iff.mp hkey⟩ ⟨_, map_toOption_eq_some_iff.mp hvalue⟩
  · simp [Expr.IsInferable.int]
  · simpa using Expr.IsInferable.items (by simp)
  · simp [Expr.IsInferable.bytes, Expr.IsInferable.true]

theorem Typedef.exists_infer_accepts_ledgerValue :
    ledgerValue.IsInferable ∧
      ∃ t, infer ledgerValue "ledger" = .ok t ∧ t.accepts ledgerValue = true :=
  ⟨isInferable_ledgerValue, exists_infer_accepts ledgerValue isInferable_ledgerValue "ledger"⟩

end Michelson

import Michelson.Proofs.Marshal.Parts
import Michelson.Proofs.Marshal.Scalar
import Michelson.Proofs.Typing.Acceptance
import Michelson.Typedef.Derive

/-!
# Leaves pass the check

One table tells which literal is written for a host value, and another which literals the check
takes. For typedefs without components the two agree, in either form. Lambdas are apart: a host
value is read as any expression at all, and the check then takes the code among them, which is a
sequence or a recursive lambda. Sapling transactions of the old kind are left out here: they are
written as bytes, but the table of the check has no entry for them.

## Main definitions

* `Typedef.IsLeaf`: typedefs whose components take no part in what is built

## Main results

* `Typedef.accepts_of_isScalarOf`, `Typedef.accepts_lambda_iff`: the check of leaves
* `Typedef.accepts_of_scalar`: the scalars that are written
* `Typedef.accepts_iff_of_marshal_isLeaf`: what is built for a leaf
-/

namespace Michelson

namespace Typedef

variable {c : TypeConstructor} {kind : Kind} {name : String} {args : List Typedef}
variable {path : List Nat} {t : Typedef} {form : ScalarForm} {value : Json} {p : Expr}

/-! ## The check of leaves -/

/-- The check takes the scalars of a type. -/
theorem accepts_of_isScalarOf (hkind : kind.head? = some (.type c)) (hp : p.IsScalarOf c) :
    accepts ⟨name, kind, false, args, path⟩ p = true := by
  have hseq : ∀ items annots, p ≠ .seq items annots := by
    rintro items annots rfl
    cases hp
  rw [accepts_type hkind, componentsOf_eq_whole (.inr hseq), HoldsComponents,
    TypeConstructor.takesWhole_iff]
  exact .inl hp

/-- The check takes code for a lambda, without a look into it. -/
theorem accepts_lambda_iff (hkind : kind.head? = some (.type .lambda)) :
    accepts ⟨name, kind, false, args, path⟩ p = true ↔
      p.IsSequenceOf (fun _ => True) ∨ p.applies (.data .lambdaRec) = true := by
  rw [accepts_type hkind, componentsOf_eq_whole (.inl (by simp)), HoldsComponents,
    TypeConstructor.takesWhole_iff]
  simp [Expr.not_isScalarOf]

/-! ## What is built for leaves -/

/-- Whether a typedef is neither a struct nor a union, and its components, if it has any, take no
part in what is built. -/
structure IsLeaf (t : Typedef) : Prop where
  ne_struct : t.kind ≠ .struct
  ne_union : t.kind ≠ .union
  args_eq : t.args = [] ∨ t.kind.isType .lambda = true ∨ t.kind.isType .contract = true

/-- No value is built for a leaf of a primitive that is no type. -/
theorem exists_head_of_marshalHeld (hleaf : t.IsLeaf) (hp : marshalHeld form t value = .ok p) :
    ∃ c, t.kind.head? = some (.type c) := by
  obtain ⟨name, kind, optional, args, path⟩ := t
  cases kind with
  | struct => exact absurd rfl hleaf.ne_struct
  | union => exact absurd rfl hleaf.ne_union
  | type c => exact ⟨c, rfl⟩
  | sapling q size =>
    cases q with
    | type c => exact ⟨c, rfl⟩
    | data | instruction | keyword => cases hp

/-- Without the types of its items a collection is not built, but for the big maps that are named
by a number. -/
theorem isScalarOf_of_marshalHeld_collection (hkind : t.kind.head? = some (.type c))
    (hc : c ∈ [.list, .set, .map, .bigMap]) (hargs : t.args = [])
    (hp : marshalHeld form t value = .ok p) : p.IsScalarOf c := by
  obtain ⟨name, kind, optional, args, path⟩ := t
  cases hargs
  rcases Kind.head?_eq_type_iff.mp hkind with rfl | ⟨size, rfl⟩
  all_goals
    cases c with
    | list | set | map => cases hp
    | bigMap =>
      cases value with
      | number =>
        obtain ⟨n, rfl⟩ := hostInteger_eq_ok hp
        exact .int rfl
      | _ => cases hp
    | _ => simp at hc

/-- The check takes the scalars that are written, of whatever shape they are, but for the two types
left out. -/
theorem accepts_of_scalar (hkind : kind.head? = some (.type c))
    (hc : c ∉ [.list, .set, .map, .bigMap]) (hlambda : c ≠ .lambda)
    (hold : c ≠ .saplingTransactionDeprecated) (hp : t.scalar c form value = .ok p) :
    accepts ⟨name, kind, false, args, path⟩ p = true := by
  by_cases hshaped : hasShapedScalars c = true
  · rw [accepts_type hkind, componentsOf_eq_whole (.inl hc), HoldsComponents,
      TypeConstructor.takesWhole_iff]
    cases c with
    | option =>
      cases scalar_option hp
      exact .inr (.inr (.inr (.inl ⟨rfl, .none⟩)))
    | saplingState =>
      rcases scalar_saplingState hp with ⟨n, annots, rfl⟩ | rfl
      · exact .inl (.int rfl)
      · exact .inr (.inr (.inl ⟨rfl, .seq fun _ _ => trivial⟩))
    | lambda => exact absurd rfl hlambda
    | saplingTransactionDeprecated => exact absurd rfl hold
    | _ => cases hshaped
  · exact accepts_of_isScalarOf hkind
      (isScalarOf_of_scalar (Bool.eq_false_iff.mpr hshaped) hp)

/-- The check takes what is built for a leaf, options aside. -/
theorem accepts_iff_of_marshalHeld (hleaf : IsLeaf ⟨name, kind, false, args, path⟩)
    (hold : kind.isType .saplingTransactionDeprecated = false)
    (hp : marshalHeld form ⟨name, kind, false, args, path⟩ value = .ok p) :
    accepts ⟨name, kind, false, args, path⟩ p = true ↔
      (kind.isType .lambda = true →
        p.IsSequenceOf (fun _ => True) ∨ p.applies (.data .lambdaRec) = true) := by
  obtain ⟨c, hkind⟩ := exists_head_of_marshalHeld hleaf hp
  have his {d : TypeConstructor} : kind.isType d = true ↔ c = d := by
    rw [Kind.isType_iff, hkind]
    simp
  rw [Bool.eq_false_iff, ne_eq, his] at hold
  rw [his]
  by_cases hlambda : c = .lambda
  · rw [hlambda] at hkind
    rw [accepts_lambda_iff hkind, forall_prop_of_true hlambda]
  · refine iff_of_true ?_ fun h => absurd h hlambda
    by_cases hcoll : c ∈ [.list, .set, .map, .bigMap]
    · have hcontract : c ≠ .contract := by
        rintro rfl
        simp at hcoll
      have hargs : args = [] := by
        rcases hleaf.args_eq with h | h | h
        · exact h
        · exact absurd (his.mp h) hlambda
        · exact absurd (his.mp h) hcontract
      exact accepts_of_isScalarOf hkind
        (isScalarOf_of_marshalHeld_collection hkind hcoll hargs hp)
    · rw [marshalHeld_eq_scalar hkind hcoll] at hp
      exact accepts_of_scalar hkind hcoll hlambda hold hp

/-- **The check takes what is built for leaves.** Whatever host value a typedef without components
is given, or a lambda or a contract, and in whichever form, the check takes what is built of it;
only where that is the value of a lambda, it has to be a sequence or a recursive lambda. -/
theorem accepts_iff_of_marshal_isLeaf (t : Typedef) (hleaf : t.IsLeaf)
    (hold : t.kind.isType .saplingTransactionDeprecated = true → t.optional = true)
    (form : ScalarForm) (value : Json) (p : Expr) (hp : t.marshal form value = .ok p) :
    t.accepts p = true ↔
      (t.optional = false → t.kind.isType .lambda = true →
        p.IsSequenceOf (fun _ => True) ∨ p.applies (.data .lambdaRec) = true) := by
  obtain ⟨name, kind, optional, args, path⟩ := t
  cases optional with
  | true =>
    refine iff_of_true ?_ fun h => nomatch h
    rw [accepts_optional]
    rcases marshal_eq_ok hp with ⟨-, rfl⟩ | ⟨e, -, rfl⟩
    · exact .none
    · exact .some trivial
  | false =>
    rcases marshal_eq_ok hp with ⟨hopt, -⟩ | ⟨e, he, rfl⟩
    · cases hopt
    · have hnew : kind.isType .saplingTransactionDeprecated = false :=
        Bool.eq_false_iff.mpr fun h => nomatch hold h
      rw [forall_prop_of_true rfl]
      exact accepts_iff_of_marshalHeld hleaf hnew he

/-- A type of code. -/
def codeType : Expr := .app (.type .lambda) [.plainType .nat, .plainType .nat] ["%run"]

/-- The code that drops an item and takes a copy of another, as a host value. -/
def codeHost : Json :=
  .array [.object [("prim", .string "DROP")], .object [("prim", .string "DUP")]]

theorem accepts_iff_of_marshal_isLeaf_code :
    ∃ t p, derive codeType "main" = .ok t ∧ t.IsLeaf ∧ t.kind.isType .lambda = true ∧
      t.marshal .optimized codeHost = .ok p ∧ t.accepts p = true := by
  have hleaf : IsLeaf ⟨"run", .type .lambda, false,
      [⟨"@param", .type .nat, false, [], [0]⟩, ⟨"@return", .type .nat, false, [], [1]⟩], []⟩ :=
    ⟨nofun, nofun, .inr (.inl rfl)⟩
  refine ⟨_, _, rfl, hleaf, rfl, rfl, ?_⟩
  refine (accepts_iff_of_marshal_isLeaf _ hleaf nofun .optimized codeHost _ rfl).mpr ?_
  exact fun _ _ => .inl (.seq fun _ _ => trivial)

/-- **Leaves that the check refuses.** A number is read as code, and bytes as a sapling transaction
of the old kind; the check takes neither. -/
theorem exists_marshal_isLeaf_refused :
    (∃ t, derive codeType "main" = .ok t ∧ t.kind = .type .lambda ∧
      t.marshal .readable (.object [("int", .string "1")]) = .ok (.int 1) ∧
      t.accepts (.int 1) = false) ∧
    ∃ t, derive (.app (.type .saplingTransactionDeprecated) [.int 8]) "main" = .ok t ∧
      t.args = [] ∧ t.marshal .readable (.string "0x00") = .ok (.bytes [0]) ∧
      t.accepts (.bytes [0]) = false :=
  ⟨⟨_, rfl, rfl, rfl, rfl⟩, _, rfl, rfl, rfl, rfl⟩

end Typedef

end Michelson

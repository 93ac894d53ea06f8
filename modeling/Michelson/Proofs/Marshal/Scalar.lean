import Michelson.Marshal.Scalar
import Michelson.Proofs.Success
import Michelson.Proofs.Typing.Relation

/-!
# Scalars are values of their types

A scalar that is built from a host value is a literal of a kind that its type takes, in either
form, or the one value that stands for truth, for the unit or for a sapling state. In one form all
scalars of a type are of one sort.

## Main definitions

* `ScalarSort`: the sorts of scalars
* `ScalarForm.sortOf`: the sort of the scalars of a type in a form

## Main results

* `Typedef.has_of_scalar`: the sorts of scalars
* `Typedef.isScalarOf_of_scalar`: scalars of the types without further shapes
* `Typedef.scalar_saplingState`, `Typedef.scalar_option`: those of the two other types
-/

namespace Michelson

/-! ## Sorts of scalars -/

/-- The sorts of literals and constructors that scalars are written as. -/
inductive ScalarSort where
  | integer | text | bytes | truth | unit

/-- Whether a value is of the sort. -/
def ScalarSort.Has : ScalarSort → Expr → Prop
  | integer, v => ∃ n, v = .int n
  | text, v => ∃ s, v = .string s
  | bytes, v => ∃ b, v = .bytes b
  | truth, v => ∃ flag, v = boolExpr flag
  | unit, v => v = .app (.data .unit) []

/-- The sort of what has a text and bytes. -/
def ScalarForm.identifierSort : ScalarForm → ScalarSort
  | readable => .text
  | optimized => .bytes

/-- **The sort of the scalars** of a type. Those with two forms are texts in the readable one, and
in the other moments are integers and identifiers are bytes. -/
def ScalarForm.sortOf (form : ScalarForm) : TypeConstructor → ScalarSort
  | .int | .nat | .mutez => .integer
  | .string => .text
  | .bool => .truth
  | .unit => .unit
  | .timestamp => match form with
    | readable => .text
    | optimized => .integer
  | .address | .contract | .txRollupL2Address | .keyHash | .key | .signature | .chainId =>
    form.identifierSort
  | _ => .bytes

theorem ScalarForm.has_pick (form : ScalarForm) (bytes : List UInt8) (text : String) :
    form.identifierSort.Has (form.pick bytes text) := by
  cases form with
  | readable => exact ⟨text, rfl⟩
  | optimized => exact ⟨bytes, rfl⟩

namespace Typedef

variable {t : Typedef} {form : ScalarForm} {value : Json} {p : Expr}

theorem hostInteger_eq_ok {natural : Bool} (h : t.hostInteger natural value = .ok p) :
    ∃ n, p = .int n [] := by
  unfold hostInteger at h
  obtain ⟨n, -, hn⟩ := bind_eq_ok_iff.mp h
  split at hn
  · cases hn
  · cases hn
    exact ⟨n, rfl⟩

theorem has_of_hostTimestamp (h : t.hostTimestamp form value = .ok p) :
    (form.sortOf .timestamp).Has p := by
  unfold hostTimestamp at h
  obtain ⟨seconds, -, hseconds⟩ := bind_eq_ok_iff.mp h
  split at hseconds
  · cases hseconds
    exact ⟨seconds, rfl⟩
  · split at hseconds
    · cases hseconds
      exact ⟨_, rfl⟩
    · cases hseconds

theorem has_of_hostAddress (h : t.hostAddress form value = .ok p) :
    form.identifierSort.Has p := by
  unfold hostAddress at h
  obtain ⟨text, -, htarget⟩ := bind_eq_ok_iff.mp h
  split at htarget
  split at htarget
  · cases htarget
  · split at htarget
    · cases htarget
      exact form.has_pick _ _
    · simp only at htarget
      split at htarget
      · cases htarget
      · cases htarget
        exact form.has_pick _ _

theorem hostBytes_eq_ok (h : t.hostBytes value = .ok p) : ∃ b, p = .bytes b [] := by
  unfold hostBytes at h
  obtain ⟨text, -, hdigits⟩ := bind_eq_ok_iff.mp h
  simp only at hdigits
  generalize Text.Hex.decode _ = decoded at hdigits
  cases decoded with
  | ok bytes =>
    cases hdigits
    exact ⟨bytes, rfl⟩
  | error cause => cases hdigits

/-- The types whose scalars are not told by the kinds of their literals. -/
def hasShapedScalars (c : TypeConstructor) : Bool :=
  c ∈ [.lambda, .option, .saplingState, .saplingTransactionDeprecated]

/-- **The scalars of a type** are of one sort in one form, but for the types with scalars of other
shapes. -/
theorem has_of_scalar {c : TypeConstructor} (hc : hasShapedScalars c = false)
    (h : t.scalar c form value = .ok p) : (form.sortOf c).Has p := by
  cases c with
  | lambda | option | saplingState | saplingTransactionDeprecated => cases hc
  | list | set | map | bigMap | or | pair | operation | never | ticket => cases h
  | int | nat | mutez => exact hostInteger_eq_ok h
  | timestamp => exact has_of_hostTimestamp h
  | address | contract => exact has_of_hostAddress h
  | bytes | bls12381G1 | bls12381G2 | bls12381Fr | chest | chestKey | saplingTransaction =>
    exact hostBytes_eq_ok h
  | unit =>
    cases h
    rfl
  | bool =>
    simp only [scalar] at h
    split at h
    · cases h
      exact ⟨_, rfl⟩
    · cases h
      exact ⟨_, rfl⟩
    · cases h
      exact ⟨_, rfl⟩
    · cases h
  | string =>
    obtain ⟨s, -, hs⟩ := bind_eq_ok_iff.mp h
    cases hs
    exact ⟨s, rfl⟩
  | key | signature | chainId =>
    obtain ⟨x, -, hx⟩ := bind_eq_ok_iff.mp h
    cases hx
    exact form.has_pick _ _
  | txRollupL2Address | keyHash =>
    obtain ⟨address, -, haddress⟩ := bind_eq_ok_iff.mp h
    split at haddress
    · cases haddress
      exact form.has_pick _ _
    · cases haddress

theorem isScalarOf_of_identifierSort {c : TypeConstructor} (htext : c.takesText)
    (hbytes : c.takesBytes) (h : form.identifierSort.Has p) : p.IsScalarOf c := by
  cases form with
  | readable =>
    obtain ⟨s, rfl⟩ := h
    exact .string htext
  | optimized =>
    obtain ⟨b, rfl⟩ := h
    exact .bytes hbytes

/-- **A scalar is a value of its type**, but for the types with scalars of other shapes. -/
theorem isScalarOf_of_scalar {c : TypeConstructor} (hc : hasShapedScalars c = false)
    (h : t.scalar c form value = .ok p) : p.IsScalarOf c := by
  have hsort := has_of_scalar hc h
  cases c with
  | lambda | option | saplingState | saplingTransactionDeprecated => cases hc
  | list | set | map | bigMap | or | pair | operation | never | ticket => cases h
  | int | nat | mutez =>
    obtain ⟨n, rfl⟩ := hsort
    exact .int rfl
  | string =>
    obtain ⟨s, rfl⟩ := hsort
    exact .string rfl
  | bytes | bls12381G1 | bls12381G2 | bls12381Fr | chest | chestKey | saplingTransaction =>
    obtain ⟨b, rfl⟩ := hsort
    exact .bytes rfl
  | unit =>
    cases hsort
    exact .unit rfl
  | bool =>
    obtain ⟨flag, rfl⟩ := hsort
    cases flag with
    | true => exact .true rfl
    | false => exact .false rfl
  | timestamp =>
    cases form with
    | readable =>
      obtain ⟨s, rfl⟩ := hsort
      exact .string rfl
    | optimized =>
      obtain ⟨n, rfl⟩ := hsort
      exact .int rfl
  | address | contract | txRollupL2Address | keyHash | key | signature | chainId =>
    exact isScalarOf_of_identifierSort rfl rfl hsort

/-- A scalar that stands for a sapling state is an integer or has no items. -/
theorem scalar_saplingState (h : t.scalar .saplingState form value = .ok p) :
    (∃ n annots, p = .int n annots) ∨ p = .seq [] := by
  simp only [scalar] at h
  split at h
  · cases h
    exact .inr rfl
  · obtain ⟨n, rfl⟩ := hostInteger_eq_ok h
    exact .inl ⟨n, [], rfl⟩

/-- A scalar that stands for an option of nothing known holds nothing. -/
theorem scalar_option (h : t.scalar .option form value = .ok p) : p = .app (.data .none) [] := by
  simp only [scalar] at h
  split at h
  · cases h
    rfl
  · cases h

end Typedef

end Michelson

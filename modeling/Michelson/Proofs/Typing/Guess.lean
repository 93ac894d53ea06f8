import Michelson.Expr.Walk
import Michelson.Proofs.Typedef.Formation
import Michelson.Proofs.Typing.Inference

/-!
# Guesses that are types

The type that a value seems to have is put together from those of its parts, with the right number
of arguments for each constructor. Only a type constructor that stands alone in the value is taken
over as it is, and then its arguments are missing if it is one that needs them. So a typedef can be
inferred just if no such constructor is taken over.

## Main definitions

* `TypeConstructor.compound`: the constructors that do not stand alone
* `Expr.HasAlone`: a constructor that stands alone somewhere in a value
* `Expr.IsGuess`: types that are put together by guessing

## Main results

* `Expr.isGuess_inferType`: how the type is made that a value seems to have
* `Expr.IsGuess.isType_iff`: which of these are types
* `Typedef.exists_infer_iff`: when a typedef is inferred
-/

namespace Michelson

/-- The constructors that do not stand alone, since they take arguments. -/
def TypeConstructor.compound : List TypeConstructor :=
  [.pair, .or, .map, .bigMap, .contract, .ticket]

theorem TypeConstructor.mem_compound_iff {c : TypeConstructor} :
    c ∈ compound ↔ c.takes 0 = false := by
  cases c <;> decide

namespace Expr

/-- Whether a type constructor stands alone somewhere in an expression. -/
def HasAlone (e : Expr) (c : TypeConstructor) : Prop :=
  ∃ annots flag, app (.type c) [] annots flag ∈ e.nodes

/-- **Types that are put together by guessing.** A constructor has the arguments that it takes,
unless it is one of those that are taken over as they stand. -/
inductive IsGuess (taken : TypeConstructor → Prop) : Expr → Prop
  | alone {c} : c.takes 0 = true ∨ taken c → IsGuess taken (plainType c)
  | app {c x xs} : c.takes (x :: xs).length = true → (∀ y ∈ x :: xs, IsGuess taken y) →
    IsGuess taken (.app (.type c) (x :: xs))

variable {taken taken' : TypeConstructor → Prop} {e x y : Expr} {xs : List Expr}
variable {annots : List String} {c : TypeConstructor}

theorem IsGuess.mono (h : ∀ c, taken c → taken' c) (he : IsGuess taken e) : IsGuess taken' e := by
  induction he with
  | alone hc => exact .alone (hc.imp_right (h _))
  | app htakes _ ih => exact .app htakes ih

/-- What stands alone in a child does so in the node. -/
theorem HasAlone.of_mem_children (hx : x ∈ e.children) (h : x.HasAlone c) : e.HasAlone c := by
  obtain ⟨annots, flag, hmem⟩ := h
  exact ⟨annots, flag, mem_nodes_of_mem_children hx hmem⟩

/-! ## Guessing -/

theorem isGuess_plainType (h : c.takes 0 = true) : IsGuess taken (plainType c) := .alone (.inl h)

theorem isGuess_of_isScalar (h : c.IsScalar) : IsGuess taken (plainType c) := by
  have htype : (plainType c).IsType := isType_of_leafKind? h.leafKind
  exact isGuess_plainType (isType_alone_iff.mp htype)

theorem isGuess_one (hc : c.takes 1 = true) (hx : IsGuess taken x) :
    IsGuess taken (app (.type c) [x]) :=
  .app hc (List.forall_mem_singleton.mpr hx)

theorem isGuess_two (hc : c.takes 2 = true) (hx : IsGuess taken x) (hy : IsGuess taken y) :
    IsGuess taken (app (.type c) [x, y]) := by
  refine .app hc ?_
  simpa using ⟨hx, hy⟩

section Guess

variable (h : ∀ x ∈ xs, IsGuess taken x.inferType)

include h

theorem isGuess_inferTypes (hlength : 2 ≤ xs.length) :
    IsGuess taken (app (.type .pair) (inferTypes xs)) := by
  match xs, hlength with
  | x :: y :: rest, _ =>
    rw [inferTypes_eq_map]
    refine .app (by simp [TypeConstructor.takes]) ?_
    exact List.forall_mem_map.mpr h

/-- The type of a sequence is put together from those of its items. The type of a map is that of
its first entry. -/
theorem isGuess_seq : IsGuess taken (seq xs annots).inferType := by
  rw [inferType.eq_def]
  dsimp only
  split
  · exact isGuess_plainType rfl
  split
  next hmap =>
    cases xs with
    | nil => exact absurd hmap (by simp [isMap])
    | cons x rest =>
      rw [isMap, List.all_cons, Bool.and_eq_true] at hmap
      have hentry := hmap.1
      unfold isEntry at hentry
      split at hentry
      next k v as flag =>
        have hfirst := h _ List.mem_cons_self
        simpa only [inferType, inferEntryType] using hfirst
      next => cases hentry
  split
  next hset =>
    cases xs with
    | nil => exact absurd hset (by simp [isSet])
    | cons x rest => exact isGuess_one rfl (h x List.mem_cons_self)
  split
  · exact isGuess_plainType rfl
  · exact isGuess_one rfl (h _ List.mem_cons_self)
  next hnil hone =>
    refine isGuess_inferTypes h ?_
    rcases xs with _ | ⟨x, _ | ⟨y, rest⟩⟩
    · exact absurd rfl hnil
    · exact absurd rfl (hone x)
    · simp

/-- The type of an application is put together from those of its arguments, unless it is a type
constructor that stands alone. -/
theorem isGuess_app {p : Primitive} {flag : Bool}
    (halone : ∀ c, p = .type c → xs = [] → taken c) :
    IsGuess taken (app p xs annots flag).inferType := by
  rw [inferType.eq_def]
  dsimp only
  split
  case h_1 | h_2 | h_3 | h_4 | h_5 | h_6 => exact isGuess_plainType rfl
  case h_7 c => exact .alone (.inr (halone c rfl rfl))
  case h_8 x | h_11 x => exact isGuess_one rfl (h x List.mem_cons_self)
  case h_9 x | h_10 x => exact isGuess_two rfl (h x List.mem_cons_self) (h x List.mem_cons_self)
  case h_12 k v => exact isGuess_two rfl (h k List.mem_cons_self) (h v (by simp))
  case h_13 => exact isGuess_inferTypes h (by simp)
  case h_14 => exact isGuess_inferTypes h (by simp)
  case h_15 => exact isGuess_plainType rfl

end Guess

/-- **The type that a value seems to have** is put together by guessing, and a constructor that is
taken over stands alone in the value. -/
theorem isGuess_inferType (v : Expr) : IsGuess v.HasAlone v.inferType := by
  induction v with
  | int => exact isGuess_of_isScalar (isScalar_of_mem (by simp))
  | string s annots =>
    obtain ⟨c, htype, hc, -⟩ := exists_typeOfText_eq s
    rw [inferType, htype]
    exact isGuess_of_isScalar hc
  | bytes b annots =>
    obtain ⟨c, htype, hc, -⟩ := exists_typeOfBytes_eq b
    rw [inferType, htype]
    exact isGuess_of_isScalar hc
  | seq xs annots ih =>
    exact isGuess_seq fun x hx => (ih x hx).mono fun c => .of_mem_children hx
  | app p xs annots flag ih =>
    refine isGuess_app (fun x hx => (ih x hx).mono fun c => .of_mem_children hx) ?_
    rintro c rfl rfl
    exact ⟨annots, flag, List.mem_cons_self⟩

/-! ## Guesses that are types -/

/-- A constructor with arguments stands alone in none of its nodes but those of the arguments. -/
theorem plainType_mem_nodes_iff {d : TypeConstructor} :
    plainType c ∈ (app (.type d) (x :: xs)).nodes ↔ ∃ y ∈ x :: xs, plainType c ∈ y.nodes := by
  rw [nodes_app, List.mem_cons, List.mem_flatMap]
  simp [plainType]

/-- A constructor that stands alone in a guess, though it takes arguments, is one that is taken
over. -/
theorem IsGuess.taken_of_mem_nodes (h : IsGuess taken e) (hc : c ∈ TypeConstructor.compound)
    (hmem : plainType c ∈ e.nodes) : taken c := by
  induction h with
  | @alone d hd =>
    have heq : c = d := by simpa [plainType] using hmem
    subst heq
    exact hd.resolve_left (by simp [TypeConstructor.mem_compound_iff.mp hc])
  | app _ _ ih =>
    obtain ⟨y, hy, hmem⟩ := plainType_mem_nodes_iff.mp hmem
    exact ih y hy hmem

/-- **A guess is a type** just if no constructor stands alone in it that takes arguments. -/
theorem IsGuess.isType_iff (h : IsGuess taken e) :
    e.IsType ↔ ∀ c ∈ TypeConstructor.compound, plainType c ∉ e.nodes := by
  induction h with
  | @alone d _ =>
    rw [plainType, isType_alone_iff, ← Bool.not_eq_false, ← TypeConstructor.mem_compound_iff]
    simp only [plainType, nodes_app, List.flatMap_nil, List.mem_singleton, app.injEq,
      Primitive.type.injEq, and_true]
    exact ⟨fun hd c hc heq => hd (heq ▸ hc), fun halone hd => halone d hd rfl⟩
  | @app d x xs htakes _ ih =>
    rw [isType_app_iff (not_isSapling_of_takes htakes)]
    simp only [plainType_mem_nodes_iff, htakes, true_and]
    constructor
    · rintro hargs c hc ⟨y, hy, hmem⟩
      exact (ih y hy).mp (hargs y hy) c hc hmem
    · intro halone y hy
      exact (ih y hy).mpr fun c hc hmem => halone c hc ⟨y, hy, hmem⟩

/-- No guess is a section. -/
theorem IsGuess.sectionType_eq (h : IsGuess taken e) : Typedef.sectionType e = e := by
  cases h <;> rfl

end Expr

namespace Typedef

/-- **When a typedef is inferred.** A value has a typedef, under any name, just if none of the
constructors stands alone in its type that take arguments: `pair`, `or`, `map`, `big_map`,
`contract` and `ticket`. One that stands alone in the type does so in the value, too. -/
theorem exists_infer_iff (v : Expr) (name : String) :
    ((∃ t, infer v name = .ok t) ↔
      ∀ c ∈ TypeConstructor.compound, Expr.plainType c ∉ v.inferType.nodes) ∧
    ∀ c ∈ TypeConstructor.compound, Expr.plainType c ∈ v.inferType.nodes → v.HasAlone c := by
  have hguess := Expr.isGuess_inferType v
  refine ⟨?_, fun c hc hmem => hguess.taken_of_mem_nodes hc hmem⟩
  rw [← hguess.isType_iff, ← Expr.hasTypedef_iff_isType]
  constructor
  · rintro ⟨t, ht⟩
    rw [infer, derive, hguess.sectionType_eq] at ht
    exact ⟨name, [], t, derives_of_build _ _ _ _ ht⟩
  · intro htypedef
    obtain ⟨t, ht, -⟩ := htypedef.exists_derive name
    exact ⟨t, ht⟩

/-- A bare `pair` is taken for a type with no arguments, which is none. -/
theorem infer_plainType_pair :
    infer (Expr.plainType .pair) "value" = .error (.arity .pair 2 0) ∧
      ¬ ∀ v name, ∃ t, infer v name = .ok t := by
  have hfails : infer (Expr.plainType .pair) "value" = .error (.arity .pair 2 0) := by rfl
  refine ⟨hfails, fun hall => ?_⟩
  obtain ⟨t, ht⟩ := hall (Expr.plainType .pair) "value"
  rw [hfails] at ht
  cases ht

end Typedef

end Michelson

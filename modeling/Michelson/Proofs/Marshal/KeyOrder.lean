import Michelson.Proofs.Expr.ValueOrder
import Michelson.Proofs.Marshal.Combs
import Michelson.Proofs.Marshal.Parts
import Michelson.Proofs.Marshal.Scalar
import Michelson.Proofs.Sorting.Stable
import Michelson.Proofs.Typedef.Placement

/-!
# The order of keys

Of any two values that are built in one form for one comparable type one comes before the other,
unless they are the same. A comparison that takes values without an order for equal ones thus never
does so with the keys of a collection.

## Main definitions

* `Expr.Ranked`: values that are ordered, and level only if they are the same
* `Expr.KeptByConstructors`: relations that hold between values if they do between their components
* `Typedef.RelatesValues`, `Typedef.RanksValues`: typedefs whose values are related, or ordered
* `Typedef.AtLeaves`: what holds of all leaves of a typedef

## Main results

* `Expr.ordersStrictly_of_ranked`: the order by which items with such keys are sorted
* `Typedef.Derives.relatesValues`: a relation between the values of the leaves
* `Typedef.Derives.ranksValues`: the typedefs of comparable types
-/

namespace Michelson

namespace Expr

/-! ## Values that are ordered -/

/-- **Whether two values are ordered** and are the same if neither comes before the other. -/
def Ranked (v w : Expr) : Prop := ∃ o, v.compareValues? w = some o ∧ (o = .eq → v = w)

section Ranked

variable {p q : Primitive} {xs ys : List Expr}

theorem ranked_int (m n : Int) : (int m).Ranked (int n) :=
  ⟨compare m n, rfl, fun h => by rw [Std.LawfulEqOrd.eq_of_compare h]⟩

theorem ranked_string (s t : String) : (string s).Ranked (string t) :=
  ⟨compare s t, rfl, fun h => by rw [Std.LawfulEqOrd.eq_of_compare h]⟩

theorem ranked_bytes (s t : List UInt8) : (bytes s).Ranked (bytes t) :=
  ⟨compare s t, rfl, fun h => by rw [Std.LawfulEqOrd.eq_of_compare h]⟩

theorem compareFields?_of_ranked (h : List.Forall₂ Ranked xs ys) :
    ∃ o, compareFields? xs ys = some o ∧ (o = .eq → xs = ys) := by
  induction h with
  | nil => exact ⟨_, compareFields?_nil_left [], fun _ => rfl⟩
  | cons hxy _ ih =>
    obtain ⟨o, ho, heq⟩ := hxy
    cases o with
    | eq =>
      obtain ⟨o', ho', heq'⟩ := ih
      exact ⟨o', compareFields?_cons_eq_some.mpr (.inr ⟨ho, ho'⟩), fun h => by
        rw [heq rfl, heq' h]⟩
    | lt | gt => exact ⟨_, compareFields?_cons_eq_some.mpr (.inl ⟨ho, nofun⟩), nofun⟩

/-- Values of one constructor are ordered if their components are. -/
theorem ranked_app (hp : p.rank?.isSome = true) (h : List.Forall₂ Ranked xs ys) :
    (app p xs).Ranked (app p ys) := by
  obtain ⟨⟨family, i⟩, hplace⟩ := Option.isSome_iff_exists.mp hp
  obtain ⟨o, ho, heq⟩ := compareFields?_of_ranked h
  exact ⟨o, compareValues?_app_eq_some.mpr ⟨family, i, i, hplace, hplace, .inr ⟨rfl, ho⟩⟩,
    fun h => by rw [heq h]⟩

/-- Values of two constructors of one family are ordered by these. -/
theorem ranked_app_of_ne {family i j : Nat} (hp : p.rank? = some (family, i))
    (hq : q.rank? = some (family, j)) (hne : i ≠ j) (xs ys : List Expr) :
    (app p xs).Ranked (app q ys) :=
  ⟨compare i j, compareValues?_app_eq_some.mpr ⟨family, i, j, hp, hq, .inl ⟨hne, rfl⟩⟩,
    fun h => absurd (Nat.compare_eq_eq.mp h) hne⟩

theorem ranked_boolExpr (a b : Bool) : (boolExpr a).Ranked (boolExpr b) := by
  cases a <;> cases b
  · exact ranked_app rfl .nil
  · exact ranked_app_of_ne rfl rfl (by decide) _ _
  · exact ranked_app_of_ne rfl rfl (by decide) _ _
  · exact ranked_app rfl .nil

end Ranked

/-- **Whether a relation between values is kept by constructors**: it holds between values of one
constructor if it does between their components, and between any values of two constructors of one
family. -/
structure KeptByConstructors (R : Expr → Expr → Prop) : Prop where
  alike {p : Primitive} {xs ys : List Expr} :
    p.rank?.isSome = true → List.Forall₂ R xs ys → R (app p xs) (app p ys)
  apart {p q : Primitive} {family i j : Nat} :
    p.rank? = some (family, i) → q.rank? = some (family, j) → i ≠ j → ∀ xs ys,
      R (app p xs) (app q ys)

theorem keptByConstructors_ranked : KeptByConstructors Ranked :=
  ⟨ranked_app, ranked_app_of_ne⟩

section Branches

open Typedef (wrapBranch)

variable {R : Expr → Expr → Prop} (hR : KeptByConstructors R)

include hR

/-- Values of one branch are related as what is wrapped. -/
theorem KeptByConstructors.within_branch {v w : Expr} (h : R v w) (steps : List Nat) :
    R (wrapBranch steps v) (wrapBranch steps w) := by
  induction steps with
  | nil => exact h
  | cons step steps ih =>
    refine hR.alike ?_ (.cons ih .nil)
    split <;> rfl

/-- Values of two branches part at the first step that differs. -/
theorem KeptByConstructors.across_branches (front rest rest' : List Nat) (v w : Expr) :
    R (wrapBranch (front ++ 0 :: rest) v) (wrapBranch (front ++ 1 :: rest') w) ∧
      R (wrapBranch (front ++ 1 :: rest') w) (wrapBranch (front ++ 0 :: rest) v) := by
  simp only [wrapBranch, List.foldr_append]
  exact ⟨hR.within_branch (hR.apart rfl rfl (by decide) _ _) front,
    hR.within_branch (hR.apart rfl rfl (by decide) _ _) front⟩

end Branches

/-! ## The order of sorted items -/

section Sorted

variable {v w k : Expr}

theorem Ranked.precedes_eq_false_iff (h : v.Ranked w) :
    v.precedes w = false ↔ w.compareValues? v = some .lt ∨ w.compareValues? v = some .eq := by
  obtain ⟨o, ho, -⟩ := h
  rw [precedes, compareValues?_swap v w, ho]
  cases o <;> decide

theorem Ranked.eq_of_precedes_eq_false (h : v.Ranked w) (hvw : v.precedes w = false)
    (hwv : w.precedes v = false) : v = w := by
  obtain ⟨o, ho, heq⟩ := h
  rw [precedes, compareValues?_swap v w, ho] at hwv
  rw [precedes, ho] at hvw
  cases o with
  | eq => exact heq rfl
  | lt => cases hvw
  | gt => cases hwv

theorem precedes_eq_false_of_lt (h : v.compareValues? w = some .lt) : w.precedes v = false := by
  rw [precedes, compareValues?_swap v w, h]
  rfl

/-- No value comes before itself. -/
theorem compareValues?_self_ne_lt (v : Expr) : v.compareValues? v ≠ some .lt := by
  intro h
  have hback := compareValues?_swap v v
  rw [h] at hback
  cases hback

/-- Of two values that are level with a third neither comes before the other. -/
theorem precedes_eq_false_of_level (hv : k.compareValues? v = some .eq)
    (hw : k.compareValues? w = some .eq) : v.precedes w = false := by
  have hback : v.compareValues? k = some .eq := by rw [compareValues?_swap k v, hv]; rfl
  rw [precedes, compareValues?_then v k w .eq .eq hback hw rfl rfl]
  rfl

/-- A value that is not after a second, which is not after a third, is not after the third. -/
theorem compareValues?_notAfter_trans {a b c : Expr}
    (hab : a.compareValues? b = some .lt ∨ a.compareValues? b = some .eq)
    (hbc : b.compareValues? c = some .lt ∨ b.compareValues? c = some .eq) :
    a.compareValues? c = some .lt ∨ a.compareValues? c = some .eq := by
  rcases hab with hab | hab
  · rcases hbc with hbc | hbc
    all_goals exact .inl (compareValues?_then a b c _ _ hab hbc rfl rfl)
  · rcases hbc with hbc | hbc
    · exact .inl (compareValues?_then a b c _ _ hab hbc rfl rfl)
    · exact .inr (compareValues?_then a b c _ _ hab hbc rfl rfl)

/-- **Items whose keys are ordered** are ordered strictly by their keys. -/
theorem ordersStrictly_of_ranked {α : Type} {key : α → Expr} {xs : List α}
    (h : ∀ x ∈ xs, ∀ y ∈ xs, (key x).Ranked (key y)) :
    OrdersStrictly (fun x y => (key x).precedes (key y)) xs where
  asymm x _ y _ hxy := precedes_eq_false_of_lt (by simpa [precedes] using hxy)
  trans x hx y hy z hz hxy hyz := by
    rw [(h x hx y hy).precedes_eq_false_iff] at hxy
    rw [(h y hy z hz).precedes_eq_false_iff] at hyz
    exact (h x hx z hz).precedes_eq_false_iff.mpr (compareValues?_notAfter_trans hyz hxy)

end Sorted

/-! ## Parts of comparable types -/

section Comparable

variable {e x : Expr}

theorem IsComparable.withoutOptions (h : e.IsComparable) : e.withoutOptions.IsComparable := by
  induction h with
  | scalar hc =>
    rw [Expr.withoutOptions]
    · exact .scalar hc
    · simp
  | option _ ih => exact ih
  | or hl hr => exact .or hl hr
  | pair hlength hargs => exact .pair hlength hargs

/-- What one step leads to is a component, or the comb of those after the first. -/
theorem IsComparable.of_combArg? (h : e.IsComparable) {i : Nat} (hx : e.combArg? i = some x) :
    x.IsComparable := by
  cases h with
  | scalar hc => simp [combArg?, combItem?] at hx
  | option h =>
    have hmem := List.mem_of_getElem? (show [_][i]? = some x from hx)
    exact List.mem_singleton.mp hmem ▸ h
  | or hl hr =>
    have hmem := List.mem_of_getElem? (show [_, _][i]? = some x from hx)
    rcases List.mem_pair.mp hmem with rfl | rfl
    · exact hl
    · exact hr
  | pair hlength hargs =>
    replace hx : combItem? (app (.type .pair) ·) _ i = some x := hx
    unfold combItem? at hx
    split at hx <;> cases hx
    · exact hargs _ List.mem_cons_self
    · exact hargs _ (by simp)
    · exact .pair (by simp) (List.forall_mem_cons.mp hargs).2

theorem IsComparable.of_reachesBelow (h : e.IsComparable) {path path' : List Nat}
    (hx : e.ReachesBelow path x path') : x.IsComparable := by
  obtain ⟨i, y, hy, steps, -, hsteps⟩ := hx
  replace h := h.withoutOptions.of_combArg? hy
  clear hy
  induction steps generalizing y with
  | nil =>
    cases hsteps
    exact h
  | cons i steps ih =>
    obtain ⟨z, hz, hsteps⟩ := Option.bind_eq_some_iff.mp hsteps
    exact ih z hsteps (h.withoutOptions.of_combArg? hz)

end Comparable

end Expr

/-! ## Scalars -/

/-- Scalars of one sort are ordered. -/
theorem ScalarSort.ranked {sort : ScalarSort} {v w : Expr} (hv : sort.Has v) (hw : sort.Has w) :
    v.Ranked w := by
  cases sort with
  | integer =>
    obtain ⟨m, rfl⟩ := hv
    obtain ⟨n, rfl⟩ := hw
    exact Expr.ranked_int m n
  | text =>
    obtain ⟨s, rfl⟩ := hv
    obtain ⟨t, rfl⟩ := hw
    exact Expr.ranked_string s t
  | bytes =>
    obtain ⟨s, rfl⟩ := hv
    obtain ⟨t, rfl⟩ := hw
    exact Expr.ranked_bytes s t
  | truth =>
    obtain ⟨a, rfl⟩ := hv
    obtain ⟨b, rfl⟩ := hw
    exact Expr.ranked_boolExpr a b
  | unit =>
    cases hv
    cases hw
    exact Expr.ranked_app rfl .nil

namespace Typedef

variable {form : ScalarForm} {t : Typedef} {value : Json} {p : Expr}

/-! ## Typedefs of comparable types -/

/-- **Whether any two values** that are built for a typedef in one form are ordered. -/
def RanksValues (form : ScalarForm) (t : Typedef) : Prop :=
  ∀ value value' v w, t.marshal form value = .ok v → t.marshal form value' = .ok w → v.Ranked w

theorem leafKind?_of_comparable {c : TypeConstructor} (hc : c ∈ Expr.comparableScalars) :
    leafKind? c [] = some (.type c) := by
  cases c <;> first | rfl | simp [Expr.comparableScalars] at hc

/-- The typedef of a comparable type is one of a struct, of a union or of a scalar, optional or
not. -/
theorem Derives.kind_of_isComparable {e : Expr} {fallback : String} {path : List Nat} {t : Typedef}
    (h : Derives e fallback path t) (he : e.IsComparable) :
    t.kind = .struct ∨ t.kind = .union ∨ ∃ c ∈ Expr.comparableScalars, t.kind = .type c := by
  match h with
  | .struct _ => exact .inl rfl
  | .union _ => exact .inr (.inl rfl)
  | .option hinner =>
    cases he with
    | option he => exact hinner.kind_of_isComparable he
  | .leaf hkind =>
    cases he with
    | scalar hc =>
      rw [leafKind?_of_comparable hc] at hkind
      exact .inr (.inr ⟨_, hc, (Option.some.inj hkind).symm⟩)
    | _ => cases hkind
  | .unary hc _ => cases he <;> cases hc
  | .binary hc _ _ => cases he <;> cases hc

/-- Whether a property holds of all that is no struct and no union among a typedef and its
components. -/
inductive AtLeaves (P : Typedef → Prop) : Typedef → Prop
  | parts {t : Typedef} : t.kind = .struct ∨ t.kind = .union → (∀ arg ∈ t.args, AtLeaves P arg) →
    AtLeaves P t
  | leaf {t : Typedef} : P t → AtLeaves P t

theorem AtLeaves.mono {P Q : Typedef → Prop} (h : t.AtLeaves P) (hPQ : ∀ t, P t → Q t) :
    t.AtLeaves Q := by
  induction h with
  | parts hkind _ ih => exact .parts hkind ih
  | leaf hleaf => exact .leaf (hPQ _ hleaf)

/-- Whether any two values that are built for a typedef in one form are related. -/
def RelatesValues (R : Expr → Expr → Prop) (form : ScalarForm) (t : Typedef) : Prop :=
  ∀ value value' v w, t.marshal form value = .ok v → t.marshal form value' = .ok w → R v w

/-- The same of what is built apart from options. -/
def RelatesHeld (R : Expr → Expr → Prop) (form : ScalarForm) (t : Typedef) : Prop :=
  ∀ value value' v w, marshalHeld form t value = .ok v → marshalHeld form t value' = .ok w → R v w

section Related

variable {R : Expr → Expr → Prop} (hR : Expr.KeptByConstructors R)

theorem related_of_marshalFields {struct : Typedef} {ts : List Typedef}
    (hts : ∀ t ∈ ts, RelatesValues R form t) {value' : Json} {position : Nat}
    {fields fields' : List (List Nat × Expr)}
    (h : marshalFields form struct value position ts = .ok fields)
    (h' : marshalFields form struct value' position ts = .ok fields') :
    RelatedParts R fields fields' := by
  induction ts generalizing position fields fields' with
  | nil =>
    cases h
    cases h'
    exact .nil
  | cons t ts ih =>
    rw [List.forall_mem_cons] at hts
    simp only [marshalFields, bind_eq_ok_iff, pure_eq_ok_iff] at h h'
    obtain ⟨v, -, e, he, rest, hrest, rfl⟩ := h
    obtain ⟨v', -, e', he', rest', hrest', rfl⟩ := h'
    exact .cons ⟨rfl, hts.1 v v' e e' he he'⟩ (ih hts.2 hrest hrest')

section Held

include hR

theorem related_of_assemble? {fields fields' : List (List Nat × Expr)} {v w : Expr}
    (h : RelatedParts R fields fields') (hv : Expr.assemble? fields = some v)
    (hw : Expr.assemble? fields' = some w) : R v w := by
  have hpair (a b a' b' : Expr) (hab : R a b) (hab' : R a' b') :
      R (.app (.data .pair) [a, a']) (.app (.data .pair) [b, b']) :=
    hR.alike rfl (.cons hab (.cons hab' .nil))
  have hrel := rel_assembleWith? hpair h
  rw [← Expr.assemble?_eq, ← Expr.assemble?_eq, hv, hw] at hrel
  cases hrel with
  | some hvw => exact hvw

theorem relatesHeld_struct (hargs : ∀ arg ∈ t.args, RelatesValues R form arg)
    (hkind : t.kind = .struct) : RelatesHeld R form t := by
  intro value value' v w hv hw
  obtain ⟨fields, hfields, hv⟩ := exists_of_marshalHeld_struct hkind hv
  obtain ⟨fields', hfields', hw⟩ := exists_of_marshalHeld_struct hkind hw
  exact related_of_assemble? hR (related_of_marshalFields hargs hfields hfields') hv hw

theorem relatesHeld_union (hargs : ∀ arg ∈ t.args, RelatesValues R form arg)
    (hkind : t.kind = .union) (hparts : t.BranchesPart) : RelatesHeld R form t := by
  intro value value' v w hv hw
  obtain ⟨a, ha, inner, x, hx, rfl⟩ := exists_of_marshalHeld_union hkind hv
  obtain ⟨b, hb, inner', y, hy, rfl⟩ := exists_of_marshalHeld_union hkind hw
  have hbranches : ∀ a ∈ t.args, ∀ b ∈ t.args, ∀ inner inner' x y,
      a.marshal form inner = .ok x → b.marshal form inner' = .ok y →
        R (wrapBranch (a.pathFrom t) x) (wrapBranch (b.pathFrom t) y) := by
    refine hparts.forall_mem_args hkind ?_ ?_
    · intro a ha inner inner' x y hx hy
      exact hR.within_branch (hargs a ha inner inner' x y hx hy) _
    · intro a b front rest rest' ha hb
      rw [ha, hb]
      exact ⟨fun _ _ x y _ _ => (hR.across_branches front rest rest' x y).1,
        fun _ _ x y _ _ => (hR.across_branches front rest rest' y x).2⟩
  exact hbranches a ha b hb inner inner' x y hx hy

/-- **What holds between the values of the leaves** holds between those of the whole, if
constructors keep it. -/
theorem Derives.relatesValues {e : Expr} {fallback : String} {path : List Nat} {t : Typedef}
    (h : Derives e fallback path t) (ht : t.AtLeaves (RelatesHeld R form)) :
    RelatesValues R form t := by
  induction t using args_induction generalizing e fallback path with
  | node t ih =>
    have hheld : RelatesHeld R form t := by
      cases ht with
      | leaf hleaf => exact hleaf
      | parts hkind hleaves =>
        have hargs : ∀ arg ∈ t.args, RelatesValues R form arg := by
          intro arg harg
          obtain ⟨x, -, hx⟩ := h.of_mem_args arg harg
          exact ih arg harg hx (hleaves arg harg)
        rcases hkind with hkind | hkind
        · exact relatesHeld_struct hR hargs hkind
        · exact relatesHeld_union hR hargs hkind h.branchesPart
    intro value value' v w hv hw
    rcases marshal_eq_ok hv with ⟨hsome, rfl⟩ | ⟨x, hx, rfl⟩
    · rcases marshal_eq_ok hw with ⟨-, rfl⟩ | ⟨y, -, rfl⟩
      · exact hR.alike rfl .nil
      · rw [if_pos hsome]
        exact hR.apart rfl rfl (by decide) _ _
    · rcases marshal_eq_ok hw with ⟨hsome, rfl⟩ | ⟨y, hy, rfl⟩
      · rw [if_pos hsome]
        exact hR.apart rfl rfl (by decide) _ _
      · split
        · exact hR.alike rfl (.cons (hheld _ _ x y hx hy) .nil)
        · exact hheld _ _ x y hx hy

end Held

end Related

/-- The scalars of a comparable type are ordered. -/
theorem relatesHeld_of_comparable {c : TypeConstructor} (hc : c ∈ Expr.comparableScalars)
    (hkind : t.kind = .type c) : RelatesHeld Expr.Ranked form t := by
  have hscalar : ∀ c ∈ Expr.comparableScalars,
      c ∉ [.list, .set, .map, .bigMap] ∧ hasShapedScalars c = false := by decide
  obtain ⟨hcollection, hshape⟩ := hscalar c hc
  intro value value' v w hv hw
  rw [marshalHeld_eq_scalar (congrArg Kind.head? hkind) hcollection] at hv hw
  exact ScalarSort.ranked (has_of_scalar hshape hv) (has_of_scalar hshape hw)

/-- **The typedefs of comparable types.** Any two values that are built for one in one form are
ordered, and the same if neither comes before the other. -/
theorem Derives.ranksValues {e : Expr} {fallback : String} {path : List Nat} {t : Typedef}
    (h : Derives e fallback path t) (he : e.IsComparable) (form : ScalarForm) :
    RanksValues form t := by
  refine h.relatesValues Expr.keptByConstructors_ranked ?_
  -- Induction on the typedef for every type it may be derived from: the types of its components are
  -- parts of that type, and so comparable.
  induction t using args_induction generalizing e fallback path with
  | node t ih =>
    have hargs : ∀ arg ∈ t.args, arg.AtLeaves (RelatesHeld Expr.Ranked form) := by
      intro arg harg
      obtain ⟨x, hreach, hx⟩ := h.of_mem_args arg harg
      exact ih arg harg hx (he.of_reachesBelow hreach)
    rcases h.kind_of_isComparable he with hkind | hkind | ⟨c, hc, hkind⟩
    · exact .parts (.inl hkind) hargs
    · exact .parts (.inr hkind) hargs
    · exact .leaf (relatesHeld_of_comparable hc hkind)

end Typedef

end Michelson

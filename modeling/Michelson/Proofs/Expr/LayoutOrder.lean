import Michelson.Proofs.Expr.ValueOrder
import Michelson.Proofs.Typing.Nesting

/-!
# The order of values and the layout of combs

Values are compared by the arguments of their pairs as they are written, and not by the combs that
the pairs stand for. As long as the comparison comes to pairs of the same length, this is the order
of the normal forms, in which all pairs are nested to the right. Where it comes to the last argument
of one pair and to an argument of the other that is not the last, the two go on differently: values
of one comparable type then have no order at all, though their normal forms have one.

## Main definitions

* `Expr.ComesTo`: what of two lists is still to be compared after equal components
* `Expr.MeetsUnevenly`: values of which the comparison comes to pairs of different lengths
* `Expr.restComb`: what remains of a pair without its first component

## Main results

* `Expr.compareValues?_nestPairs_or`: other values are compared as their normal forms
* `Expr.compareValues?_eq_none_of_meetsUnevenly`: those of one comparable type are not compared
* `Expr.compareValues?_nestPairs`: both together
-/

namespace Michelson

namespace Expr

/-! ## The way of the comparison -/

/-- What of two lists is still to be compared after some equal components. -/
inductive ComesTo : List Expr → List Expr → List Expr → List Expr → Prop
  | start {xs ys} : ComesTo xs ys xs ys
  | next {x y xs ys rest rest'} : x.compareValues? y = some .eq → ComesTo xs ys rest rest' →
    ComesTo (x :: xs) (y :: ys) rest rest'

/-- **Whether the comparison of two values meets an uneven pair**: after equal components, the one
that is to be compared next is the last one of a pair in one of the values only. -/
inductive MeetsUnevenly : Expr → Expr → Prop
  | within {p xs ys as bs flag flag' x y rest rest'} : p.rank?.isSome = true →
    ComesTo xs ys (x :: rest) (y :: rest') → MeetsUnevenly x y →
    MeetsUnevenly (.app p xs as flag) (.app p ys bs flag')
  | here {x xs y ys as bs flag flag' x' y' rest rest'} : x.compareValues? y = some .eq →
    ComesTo xs ys (x' :: rest) (y' :: rest') → (rest = [] ↔ rest' ≠ []) →
    MeetsUnevenly (.app (.data .pair) (x :: xs) as flag) (.app (.data .pair) (y :: ys) bs flag')

section Ways

variable {p q : Primitive} {x y : Expr} {xs ys rest rest' : List Expr} {as bs : List String}
variable {flag flag' : Bool}

theorem compareFields?_of_comesTo (h : ComesTo xs ys rest rest') :
    compareFields? xs ys = compareFields? rest rest' := by
  induction h with
  | start => rfl
  | next hxy _ ih => rw [compareFields?, hxy, ih]

/-- Where something is still to be compared, there was something to compare from the start. -/
theorem ComesTo.exists_cons (h : ComesTo xs ys (x :: rest) (y :: rest')) :
    ∃ x' xs' y' ys', xs = x' :: xs' ∧ ys = y' :: ys' := by
  cases h with
  | start => exact ⟨x, rest, y, rest', rfl, rfl⟩
  | next => exact ⟨_, _, _, _, rfl, rfl⟩

/-- Components that have no order end the comparison. -/
theorem compareFields?_eq_none (h : ComesTo xs ys (x :: rest) (y :: rest'))
    (hxy : x.compareValues? y = none) : compareFields? xs ys = none := by
  rw [compareFields?_of_comesTo h, compareFields?, hxy]

theorem compareFields?_singleton (x y : Expr) :
    compareFields? [x] [y] = x.compareValues? y := by
  rw [compareFields?]
  cases x.compareValues? y with
  | none => rfl
  | some o => cases o <;> rfl

/-- Values of one constructor are compared by their components. -/
theorem compareValues?_app_self (hp : p.rank?.isSome = true) (xs ys : List Expr) :
    (app p xs as flag).compareValues? (app p ys bs flag') = compareFields? xs ys := by
  obtain ⟨⟨family, i⟩, hplace⟩ := Option.isSome_iff_exists.mp hp
  simp [compareValues?, hplace]

/-- Of values of different constructors, the components do not matter. -/
theorem compareValues?_app_congr (hpq : p ≠ q) (xs ys xs' ys' : List Expr) :
    (app p xs as flag).compareValues? (app q ys bs flag') =
      (app p xs' as flag).compareValues? (app q ys' bs flag') := by
  rw [compareValues?, compareValues?]
  cases hp : p.rank? with
  | none => rfl
  | some place =>
    cases hq : q.rank? with
    | none => rfl
    | some place' =>
      obtain ⟨family, i⟩ := place
      obtain ⟨family', j⟩ := place'
      have hne : family ≠ family' ∨ i ≠ j := by
        by_contra! hsame
        obtain ⟨rfl, rfl⟩ := hsame
        exact hpq (Primitive.rank?_injective hp hq)
      rcases hne with hne | hne <;> simp [hne]

/-- A constructor without a place is not compared. -/
theorem compareValues?_app_of_rank?_eq_none (hp : p.rank? = none) (xs : List Expr) (w : Expr) :
    (app p xs as flag).compareValues? w = none := by
  cases w with
  | app q ys bs flag' => rw [compareValues?, hp]
  | int | string | bytes | seq => rfl

/-- Pairs are compared with pairs only. -/
theorem exists_pair_of_compareValues? {w : Expr} {o : Ordering}
    (h : (app (.data .pair) xs as flag).compareValues? w = some o) :
    ∃ ys bs flag', w = app (.data .pair) ys bs flag' := by
  obtain ⟨q, ys, bs, flag', rfl⟩ := exists_app_of_compareValues? h
  obtain ⟨family, i, j, hp, hq, -⟩ := compareValues?_app_eq_some.mp h
  cases hp
  have hpair : q = .data .pair := by
    unfold Primitive.rank? at hq
    split at hq <;> simp_all
  exact ⟨ys, bs, flag', by rw [hpair]⟩

end Ways

/-! ## Normal forms -/

/-- **What remains of a pair** without its first component: nothing, the other component or a pair
of the others. -/
def restComb : List Expr → List Expr
  | [] => []
  | [x] => [x]
  | xs => [.app (.data .pair) xs]

section NormalForms

variable {x y : Expr} {xs ys zs zs' : List Expr} {as bs : List String} {flag flag' : Bool}

/-- The normal form of a pair, from its first component and what remains. -/
theorem nestPairs_pair_cons (x : Expr) (xs : List Expr) :
    (app (.data .pair) (x :: xs) as flag).nestPairs =
      app (.data .pair) (x.nestPairs :: (restComb xs).map nestPairs) as flag := by
  rcases xs with _ | ⟨y, _ | ⟨z, rest⟩⟩
  · exact nestPairs_pair as flag [x]
  · exact nestPairs_pair as flag [x, y]
  · exact nestPairs_longerPair as flag x y z rest

/-- Whether the comparison of two values is that of their normal forms. -/
def ComparedAsNested (v w : Expr) : Prop :=
  v.compareValues? w = v.nestPairs.compareValues? w.nestPairs

/-- The step of the comparison from the first components to the others. -/
theorem compareFields?_cons_or {P : Prop} (hxy : ComparedAsNested x y ∨ MeetsUnevenly x y)
    (hrest : compareFields? xs ys = compareFields? zs zs' ∨ P) :
    compareFields? (x :: xs) (y :: ys) =
        compareFields? (x.nestPairs :: zs) (y.nestPairs :: zs') ∨
      MeetsUnevenly x y ∨ x.compareValues? y = some .eq ∧ P := by
  rcases hxy with hxy | hxy
  · rw [compareFields?, compareFields?, ← hxy]
    cases hfirst : x.compareValues? y with
    | none => exact .inl rfl
    | some o =>
      cases o with
      | lt | gt => exact .inl rfl
      | eq => exact hrest.imp_right fun h => .inr ⟨rfl, h⟩
  · exact .inr (.inl hxy)

/-- Components are compared as their normal forms, or the comparison meets an uneven pair within
one of them. -/
theorem compareFields?_nestPairs_or
    (h : ∀ x ∈ xs, ∀ y, ComparedAsNested x y ∨ MeetsUnevenly x y) (ys : List Expr) :
    compareFields? xs ys = compareFields? (xs.map nestPairs) (ys.map nestPairs) ∨
      ∃ x rest y rest', ComesTo xs ys (x :: rest) (y :: rest') ∧ MeetsUnevenly x y := by
  induction xs generalizing ys with
  | nil =>
    rw [List.map_nil, compareFields?_nil_left, compareFields?_nil_left, List.length_map]
    exact .inl rfl
  | cons x xs ih =>
    rw [List.forall_mem_cons] at h
    cases ys with
    | nil => exact .inl (by simp [compareFields?_nil_right])
    | cons y ys =>
      rw [List.map_cons, List.map_cons]
      rcases compareFields?_cons_or (h.1 y) (ih h.2 ys) with
        hfields | hmeets | ⟨heq, x', rest, y', rest', hcomes, hmeets⟩
      · exact .inl hfields
      · exact .inr ⟨x, xs, y, ys, .start, hmeets⟩
      · exact .inr ⟨x', rest, y', rest', .next heq hcomes, hmeets⟩

/-- What remains of two pairs is compared as its normal forms, or the comparison meets an uneven
pair within a component, or the pairs themselves are uneven. -/
theorem compareFields?_restComb_or
    (h : ∀ x ∈ xs, ∀ y, ComparedAsNested x y ∨ MeetsUnevenly x y) (ys : List Expr) :
    compareFields? xs ys =
        compareFields? ((restComb xs).map nestPairs) ((restComb ys).map nestPairs) ∨
      ∃ x rest y rest', ComesTo xs ys (x :: rest) (y :: rest') ∧
        (MeetsUnevenly x y ∨ (rest = [] ↔ rest' ≠ [])) := by
  induction xs generalizing ys with
  | nil =>
    rcases ys with _ | ⟨y, _ | ⟨y', ys⟩⟩ <;> exact .inl rfl
  | cons x xs ih =>
    rw [List.forall_mem_cons] at h
    rcases ys with _ | ⟨y, ys⟩
    · rcases xs with _ | ⟨x', xs⟩ <;> exact .inl rfl
    · rcases xs with _ | ⟨x', xs⟩
      · rcases ys with _ | ⟨y', ys⟩
        · show compareFields? [x] [y] = compareFields? [x.nestPairs] [y.nestPairs] ∨ _
          rw [compareFields?_singleton, compareFields?_singleton]
          exact (h.1 y).imp_right fun hmeets => ⟨x, [], y, [], .start, .inl hmeets⟩
        · exact .inr ⟨x, [], y, y' :: ys, .start, .inr (by simp)⟩
      · rcases ys with _ | ⟨y', ys⟩
        · exact .inr ⟨x, x' :: xs, y, [], .start, .inr (by simp)⟩
        · show _ = compareFields? [nestPairs (app (.data .pair) (x :: x' :: xs))]
            [nestPairs (app (.data .pair) (y :: y' :: ys))] ∨ _
          rw [compareFields?_singleton, nestPairs_pair_cons, nestPairs_pair_cons,
            compareValues?_app_self rfl]
          rcases compareFields?_cons_or (h.1 y) (ih h.2 (y' :: ys)) with
            hfields | hmeets | ⟨heq, x'', rest, y'', rest', hcomes, huneven⟩
          · exact .inl hfields
          · exact .inr ⟨x, x' :: xs, y, y' :: ys, .start, .inl hmeets⟩
          · exact .inr ⟨x'', rest, y'', rest', .next heq hcomes, huneven⟩

/-- Pairs are compared as their normal forms, or the comparison meets an uneven pair. -/
theorem compareValues?_pair_or
    (h : ∀ x ∈ xs, ∀ y, ComparedAsNested x y ∨ MeetsUnevenly x y) (ys : List Expr) :
    ComparedAsNested (app (.data .pair) xs as flag) (app (.data .pair) ys bs flag') ∨
      MeetsUnevenly (app (.data .pair) xs as flag) (app (.data .pair) ys bs flag') := by
  rcases xs with _ | ⟨x, xs⟩
  · left
    rcases ys with _ | ⟨y, ys⟩
    · rfl
    · rw [ComparedAsNested, nestPairs_pair_cons]
      rfl
  · rcases ys with _ | ⟨y, ys⟩
    · left
      rw [ComparedAsNested, nestPairs_pair_cons]
      rfl
    · rw [List.forall_mem_cons] at h
      rw [ComparedAsNested, nestPairs_pair_cons, nestPairs_pair_cons, compareValues?_app_self rfl,
        compareValues?_app_self rfl]
      rcases compareFields?_cons_or (h.1 y) (compareFields?_restComb_or h.2 ys) with
        hfields | hmeets | ⟨heq, x', rest, y', rest', hcomes, hmeets | huneven⟩
      · exact .inl hfields
      · exact .inr (.within rfl .start hmeets)
      · exact .inr (.within rfl (.next heq hcomes) hmeets)
      · exact .inr (.here heq hcomes huneven)

/-- Values of one constructor are compared as their normal forms, or the comparison meets an uneven
pair. -/
theorem compareValues?_app_or {p : Primitive}
    (h : ∀ x ∈ xs, ∀ y, ComparedAsNested x y ∨ MeetsUnevenly x y) (ys : List Expr) :
    ComparedAsNested (app p xs as flag) (app p ys bs flag') ∨
      MeetsUnevenly (app p xs as flag) (app p ys bs flag') := by
  by_cases hpair : p = .data .pair
  · subst hpair
    exact compareValues?_pair_or h ys
  · rw [ComparedAsNested, nestPairs_app_of_ne _ _ hpair, nestPairs_app_of_ne _ _ hpair]
    cases hrank : p.rank? with
    | none =>
      left
      rw [compareValues?_app_of_rank?_eq_none hrank, compareValues?_app_of_rank?_eq_none hrank]
    | some place =>
      have hp : p.rank?.isSome = true := Option.isSome_iff_exists.mpr ⟨place, hrank⟩
      rw [compareValues?_app_self hp, compareValues?_app_self hp]
      rcases compareFields?_nestPairs_or h ys with hfields | ⟨x, rest, y, rest', hcomes, hmeets⟩
      · exact .inl hfields
      · exact .inr (.within hp hcomes hmeets)

/-- **Values are compared as their normal forms**, or the comparison meets an uneven pair. -/
theorem compareValues?_nestPairs_or (v w : Expr) :
    ComparedAsNested v w ∨ MeetsUnevenly v w := by
  -- Induction on the first value. Only values of one constructor are compared by components, and
  -- what a literal or a sequence is compared with keeps its head in the normal form.
  induction v generalizing w with
  | int | string | bytes =>
    left
    cases w with
    | int | string | bytes => rfl
    | seq ys bs =>
      rw [ComparedAsNested, nestPairs_seq]
      rfl
    | app q ys bs flag' =>
      obtain ⟨zs, hzs⟩ := exists_nestPairs_app_eq q ys bs flag'
      rw [ComparedAsNested, hzs]
      rfl
  | seq xs as =>
    left
    rw [ComparedAsNested, nestPairs_seq, compareValues?_seq, compareValues?_seq]
  | app p xs as flag ih =>
    obtain ⟨zs, hzs⟩ := exists_nestPairs_app_eq p xs as flag
    cases w with
    | int | string | bytes =>
      left
      rw [ComparedAsNested, hzs]
      rfl
    | seq ys bs =>
      left
      rw [ComparedAsNested, hzs, nestPairs_seq]
      rfl
    | app q ys bs flag' =>
      by_cases hpq : p = q
      · subst hpq
        exact compareValues?_app_or ih ys
      · left
        obtain ⟨zs', hzs'⟩ := exists_nestPairs_app_eq q ys bs flag'
        rw [ComparedAsNested, hzs, hzs']
        exact compareValues?_app_congr hpq xs ys zs zs'

end NormalForms

/-! ## Values of one comparable type -/

section Typed

variable {type : Expr} {v w x y : Expr} {xs ys rest rest' : List Expr} {as bs : List String}
variable {flag flag' : Bool} {Left Right : Expr → Prop}

/-- A comparable type of combs has a type for either side. -/
theorem IsComparable.exists_sides {args : List Expr}
    (h : (app (.type .pair) args as flag).IsComparable) :
    ∃ l r : Expr, l ∈ args ∧ l.IsComparable ∧ r.IsComparable ∧
      (app (.type .pair) args as flag).HasType .strict =
        IsPairOf .strict (l.HasType .strict) (r.HasType .strict) := by
  cases h with
  | scalar hc => simp [comparableScalars] at hc
  | pair hlen hargs =>
    rcases args with _ | ⟨l, _ | ⟨r, _ | ⟨third, more⟩⟩⟩
    · cases hlen
    · simp at hlen
    · exact ⟨l, r, by simp, hargs l (by simp), hargs r (by simp), rfl⟩
    · rw [List.forall_mem_cons] at hargs
      have hr : (app (.type .pair) (r :: third :: more)).IsComparable :=
        .pair (by simp) hargs.2
      exact ⟨l, app (.type .pair) (r :: third :: more), by simp, hargs.1, hr, rfl⟩

/-- The comparable types of pairs are the types of combs. -/
theorem IsComparable.of_pair (h : type.IsComparable)
    (hv : type.HasType .strict (app (.data .pair) xs as flag)) :
    ∃ args annots flag', type = app (.type .pair) args annots flag' := by
  cases h with
  | scalar hc =>
    rw [hasType_scalar hc] at hv
    cases hv
  | option =>
    rw [HasType] at hv
    cases hv
  | or =>
    rw [HasType] at hv
    cases hv
  | pair => exact ⟨_, _, _, rfl⟩

/-- A value whose normal form is a comb is a pair. -/
theorem exists_pair_of_isPairOf (h : IsPairOf .strict Left Right v.nestPairs) :
    ∃ xs as flag, v = app (.data .pair) xs as flag := by
  obtain ⟨x, y, as, flag, hv, -⟩ := isPairOf_strict_iff.mp h
  cases v with
  | int | string | bytes => cases hv
  | seq xs as =>
    rw [nestPairs_seq] at hv
    cases hv
  | app p xs as flag =>
    obtain ⟨zs, hzs⟩ := exists_nestPairs_app_eq p xs as flag
    rw [hzs] at hv
    cases hv
    exact ⟨xs, as, flag, rfl⟩

/-- What a pair has to the left and to the right of its normal form. -/
theorem IsPairOf.of_nestPairs (h : IsPairOf .strict Left Right
    (app (.data .pair) xs as flag).nestPairs) :
    ∃ x rest e, xs = x :: rest ∧ restComb rest = [e] ∧ Left x.nestPairs ∧ Right e.nestPairs := by
  obtain ⟨l, r, annots, flag', hpair, hl, hr⟩ := isPairOf_strict_iff.mp h
  rcases xs with _ | ⟨x, rest⟩
  · cases hpair
  · rw [nestPairs_pair_cons] at hpair
    obtain ⟨hx, hrest⟩ := List.cons.inj (Expr.app.inj hpair).2.1
    obtain ⟨e, he, rfl⟩ := List.map_eq_singleton_iff.mp hrest
    subst hx
    exact ⟨x, rest, e, rfl, he, hl, hr⟩

/-- The two sides of pairs of one comparable type are of one type each. -/
theorem exists_sides_of_hasType (htype : type.IsComparable)
    (hv : type.HasType .strict (app (.data .pair) (x :: xs) as flag).nestPairs)
    (hw : type.HasType .strict (app (.data .pair) (y :: ys) bs flag').nestPairs) :
    ∃ l r e e' : Expr, l.IsComparable ∧ r.IsComparable ∧ l.HasType .strict x.nestPairs ∧
      l.HasType .strict y.nestPairs ∧ restComb xs = [e] ∧ restComb ys = [e'] ∧
      r.HasType .strict e.nestPairs ∧ r.HasType .strict e'.nestPairs := by
  obtain ⟨args, annots, flag'', rfl⟩ := htype.of_pair (by rwa [nestPairs_pair_cons] at hv)
  obtain ⟨l, r, -, hl, hr, hsides⟩ := htype.exists_sides
  rw [hsides] at hv hw
  obtain ⟨_, _, e, hxs, he, hx, hev⟩ := hv.of_nestPairs
  obtain ⟨_, _, e', hys, he', hy, hew⟩ := hw.of_nestPairs
  cases hxs
  cases hys
  exact ⟨l, r, e, e', hl, hr, hx, hy, he, he', hev, hew⟩

/-- **A comb is not compared** with a value of the type of its first component. -/
theorem compareValues?_eq_none_of_first (htype : type.IsComparable)
    (hv : IsPairOf .strict (type.HasType .strict) Right v.nestPairs)
    (hw : type.HasType .strict w.nestPairs) : v.compareValues? w = none := by
  -- Induction on that type: if it is one of combs itself, then the first components of the two
  -- values are again a comb and a value of the type of its first component.
  induction type generalizing v w Right with
  | int | string | bytes | seq => cases htype
  | app p args annots flag ih =>
    obtain ⟨xs, as, flag', rfl⟩ := exists_pair_of_isPairOf hv
    cases hcompare : (app (.data .pair) xs as flag').compareValues? w with
    | none => rfl
    | some o =>
      obtain ⟨ys, bs, flag'', rfl⟩ := exists_pair_of_compareValues? hcompare
      obtain ⟨zs, hzs⟩ := exists_nestPairs_app_eq (.data .pair) ys bs flag''
      obtain ⟨_, _, _, hpair⟩ := htype.of_pair (hzs ▸ hw)
      cases hpair
      obtain ⟨l, r, hmem, hl, -, hsides⟩ := htype.exists_sides
      obtain ⟨x, rest, -, rfl, -, hx, -⟩ := hv.of_nestPairs
      rw [hsides] at hw hx
      obtain ⟨y, rest', -, rfl, -, hy, -⟩ := hw.of_nestPairs
      have hfirst : x.compareValues? y = none := ih l hmem hl hx hy
      rw [compareValues?_app_self rfl, compareFields?, hfirst] at hcompare
      cases hcompare

/-- A value of a type is not compared with the first component of a pair of the type. -/
theorem compareValues?_eq_none_of_rest (htype : type.IsComparable)
    (hx : type.HasType .strict x.nestPairs)
    (hw : type.HasType .strict (app (.data .pair) (y :: ys) bs flag').nestPairs) :
    x.compareValues? y = none := by
  obtain ⟨args, annots, flag'', rfl⟩ := htype.of_pair (by rwa [nestPairs_pair_cons] at hw)
  obtain ⟨l, r, -, hl, -, hsides⟩ := htype.exists_sides
  rw [hsides] at hx hw
  obtain ⟨_, _, _, hys, -, hy, -⟩ := hw.of_nestPairs
  cases hys
  exact compareValues?_eq_none_of_first hl hx hy

/-- Whether two values are not compared, as values of one comparable type at least. -/
def Incomparable (x y : Expr) : Prop :=
  ∀ type : Expr, type.IsComparable → type.HasType .strict x.nestPairs →
    type.HasType .strict y.nestPairs → x.compareValues? y = none

/-- What remains of two pairs of one comparable type is not compared, if the comparison comes to
components that are not, or to the last one on one side only. -/
theorem compareFields?_eq_none_of_restComb (hcomes : ComesTo xs ys (x :: rest) (y :: rest'))
    (hxy : (rest = [] ↔ rest' = []) → Incomparable x y) (htype : type.IsComparable)
    (hv : type.HasType .strict v.nestPairs) (hw : type.HasType .strict w.nestPairs)
    (hxs : restComb xs = [v]) (hys : restComb ys = [w]) : compareFields? xs ys = none := by
  generalize hfront : x :: rest = front at hcomes
  generalize hfront' : y :: rest' = front' at hcomes
  induction hcomes generalizing type v w with
  | start =>
    subst hfront
    subst hfront'
    refine compareFields?_eq_none .start ?_
    rcases rest with _ | ⟨x', rest⟩
    · obtain rfl : x = v := List.singleton_inj.mp hxs
      rcases rest' with _ | ⟨y', rest'⟩
      · obtain rfl : y = w := List.singleton_inj.mp hys
        exact hxy Iff.rfl type htype hv hw
      · obtain rfl : app (.data .pair) (y :: y' :: rest') = w := List.singleton_inj.mp hys
        exact compareValues?_eq_none_of_rest htype hv hw
    · obtain rfl : app (.data .pair) (x :: x' :: rest) = v := List.singleton_inj.mp hxs
      rcases rest' with _ | ⟨y', rest'⟩
      · obtain rfl : y = w := List.singleton_inj.mp hys
        rw [compareValues?_swap y x, compareValues?_eq_none_of_rest htype hw hv]
        rfl
      · obtain rfl : app (.data .pair) (y :: y' :: rest') = w := List.singleton_inj.mp hys
        obtain ⟨l, _, _, _, hl, -, hx, hy, -⟩ := exists_sides_of_hasType htype hv hw
        exact hxy (by simp) l hl hx hy
  | @next a b xs ys _ _ hab hcomes ih =>
    subst hfront
    subst hfront'
    obtain ⟨x', xs', y', ys', rfl, rfl⟩ := hcomes.exists_cons
    obtain rfl : app (.data .pair) (a :: x' :: xs') = v := List.singleton_inj.mp hxs
    obtain rfl : app (.data .pair) (b :: y' :: ys') = w := List.singleton_inj.mp hys
    obtain ⟨_, r, e, e', -, hr, -, -, he, he', hev, hew⟩ := exists_sides_of_hasType htype hv hw
    rw [compareFields?, hab]
    exact ih hr hev hew he he' rfl rfl

/-- Values that hold one value each, of one comparable type that is no comb, hold values of one
comparable type. -/
theorem exists_held_of_hasType {p : Primitive} (hp : p ≠ .data .pair) (htype : type.IsComparable)
    (hv : type.HasType .strict (app p (x :: xs) as flag).nestPairs)
    (hw : type.HasType .strict (app p (y :: ys) bs flag').nestPairs) :
    ∃ held : Expr, held.IsComparable ∧ xs = [] ∧ ys = [] ∧ held.HasType .strict x.nestPairs ∧
      held.HasType .strict y.nestPairs := by
  rw [nestPairs_app_of_ne _ _ hp, List.map_cons] at hv hw
  generalize hxs : xs.map nestPairs = zs at hv
  generalize hys : ys.map nestPairs = zs' at hw
  cases htype with
  | scalar hc =>
    rw [hasType_scalar hc] at hv
    cases hv
  | option hinner =>
    rw [HasType] at hv hw
    cases hv with
    | some hx =>
      cases hw with
      | some hy =>
        exact ⟨_, hinner, List.map_eq_nil_iff.mp hxs, List.map_eq_nil_iff.mp hys, hx trivial,
          hy trivial⟩
  | or hl hr =>
    rw [HasType] at hv hw
    cases hv with
    | left hx =>
      cases hw with
      | left hy =>
        exact ⟨_, hl, List.map_eq_nil_iff.mp hxs, List.map_eq_nil_iff.mp hys, hx, hy⟩
    | right hx =>
      cases hw with
      | right hy =>
        exact ⟨_, hr, List.map_eq_nil_iff.mp hxs, List.map_eq_nil_iff.mp hys, hx, hy⟩
  | pair hlen hargs =>
    obtain ⟨l, r, -, -, -, hsides⟩ := (IsComparable.pair hlen hargs).exists_sides
    rw [hsides] at hv
    obtain ⟨_, _, _, _, hpair, -⟩ := isPairOf_strict_iff.mp hv
    exact absurd (Expr.app.inj hpair).1 hp

/-- **Uneven pairs are not compared.** Two values of one comparable type have no order if their
comparison meets an uneven pair. -/
theorem compareValues?_eq_none_of_meetsUnevenly (h : MeetsUnevenly v w) : Incomparable v w := by
  induction h with
  | @within p xs ys as bs flag flag' x y rest rest' hp hcomes hmeets ih =>
    intro type htype hv hw
    obtain ⟨x', xs, y', ys, rfl, rfl⟩ := hcomes.exists_cons
    rw [compareValues?_app_self hp]
    by_cases hpair : p = .data .pair
    · subst hpair
      obtain ⟨l, r, e, e', hl, hr, hx, hy, he, he', hev, hew⟩ :=
        exists_sides_of_hasType htype hv hw
      cases hcomes with
      | start => exact compareFields?_eq_none .start (ih l hl hx hy)
      | next heq hcomes =>
        rw [compareFields?, heq]
        exact compareFields?_eq_none_of_restComb hcomes (fun _ => ih) hr hev hew he he'
    · obtain ⟨held, hheld, rfl, rfl, hx, hy⟩ := exists_held_of_hasType hpair htype hv hw
      cases hcomes with
      | start => exact compareFields?_eq_none .start (ih held hheld hx hy)
      | next _ hcomes =>
        obtain ⟨_, _, _, _, hnil, -⟩ := hcomes.exists_cons
        cases hnil
  | here heq hcomes huneven =>
    intro type htype hv hw
    obtain ⟨_, r, e, e', -, hr, -, -, he, he', hev, hew⟩ := exists_sides_of_hasType htype hv hw
    rw [compareValues?_app_self rfl, compareFields?, heq]
    refine compareFields?_eq_none_of_restComb hcomes (fun heven => ?_) hr hev hew he he'
    tauto

end Typed

/-- **The order of values and of their normal forms** are one, unless the comparison meets an uneven
pair. Of values whose normal forms are of one comparable type and written alike, the normal forms
can be compared, and the values themselves just if their comparison meets none. -/
theorem compareValues?_nestPairs (v w : Expr) :
    (v.compareValues? w = v.nestPairs.compareValues? w.nestPairs ∨ v.MeetsUnevenly w) ∧
    ∀ type : Expr, type.IsComparable → type.HasType .strict v.nestPairs →
      type.HasType .strict w.nestPairs → v.nestPairs.writtenAlike w.nestPairs = true →
        (v.nestPairs.compareValues? w.nestPairs).isSome = true ∧
          (v.compareValues? w = none ↔ v.MeetsUnevenly w) := by
  refine ⟨compareValues?_nestPairs_or v w, ?_⟩
  intro type htype hv hw halike
  have hsome := isSome_compareValues? htype v.nestPairs w.nestPairs hv hw halike
  refine ⟨hsome, fun hnone => ?_, fun hmeets => ?_⟩
  · rcases compareValues?_nestPairs_or v w with hsame | hmeets
    · rw [ComparedAsNested, hnone] at hsame
      rw [← hsame] at hsome
      cases hsome
    · exact hmeets
  · exact compareValues?_eq_none_of_meetsUnevenly hmeets type htype hv hw

/-- A tuple of numbers in one pair. -/
def flatTriple (x y z : Int) : Expr := .app (.data .pair) [.int x, .int y, .int z]

/-- The same tuple in two pairs. -/
def nestedTriple (x y z : Int) : Expr :=
  .app (.data .pair) [.int x, .app (.data .pair) [.int y, .int z]]

/-- The type of those tuples. -/
def tripleType : Expr := .app (.type .pair) [.plainType .nat, .plainType .nat, .plainType .nat]

theorem compareValues?_nestPairs_triples :
    ((flatTriple 1 2 3).nestPairs.compareValues? (nestedTriple 1 2 4).nestPairs).isSome = true ∧
      (flatTriple 1 2 3).MeetsUnevenly (nestedTriple 1 2 4) := by
  have htype : tripleType.IsComparable := by
    refine .pair (by decide) fun x hx => ?_
    obtain rfl : x = plainType .nat := by simpa using hx
    exact isComparable_plainType (by decide)
  have htriple (x y z : Nat) : tripleType.HasType .strict (nestedTriple x y z) := by
    rw [tripleType, HasType]
    exact ⟨_, _, .pair, .int rfl, _, _, .pair, .int rfl, .int rfl⟩
  obtain ⟨hsome, hnone⟩ := (compareValues?_nestPairs (flatTriple 1 2 3) (nestedTriple 1 2 4)).2
    tripleType htype (htriple 1 2 3) (htriple 1 2 4) rfl
  exact ⟨hsome, hnone.mp rfl⟩

/-- **One value in two layouts.** The flat tuple and the nested one have no order, though they have
one normal form. -/
theorem compareValues?_flatTriple_nestedTriple :
    (flatTriple 1 2 3).compareValues? (nestedTriple 1 2 3) = none ∧
      (flatTriple 1 2 3).nestPairs.compareValues? (nestedTriple 1 2 3).nestPairs = some .eq :=
  ⟨rfl, rfl⟩

end Expr

end Michelson

import Michelson.Proofs.Marshal.Collections

/-!
# The comparison by which keys are sorted

Keys are sorted by the order of values, and those that have no order are taken for equal. That is
consistent as long as no key without an order to one of two others stands between these. It never
does among values that line up, where literals meet literals of their kind and what cannot be
compared at all meets the same, and the values of most types line up. Those of a lambda, of a
sapling state and of a big map need not: each may be an integer or a sequence, and a sequence is
taken for equal to two integers of which one comes before the other.

## Main definitions

* `Expr.sortOrder`: the comparison by which keys are sorted
* `Preorders`: comparisons that are consistent on some items
* `Expr.HasNoOutsider`: keys of which none stands outside of the order of two others
* `Expr.linesUp`: values whose comparison never meets two kinds
* `Typedef.WritesEvenly`: typedefs of which all values line up

## Main results

* `Expr.not_preorders_of_sort?_eq_none`: keys that cannot be sorted are not compared consistently
* `Expr.preorders_sortOrder_iff`: when they are
* `Expr.hasNoOutsider_of_linesUp`: keys that line up are
* `Typedef.Derives.linesUp_of_writesEvenly`: the values of typedefs without these three types
* `Typedef.preorders_of_marshal`: the keys of collections
* `Typedef.exists_marshalHeld_of_mixed`, `Typedef.not_preorders_states`: where they are not
-/

namespace Michelson

/-- **Whether a comparison is consistent on some items**: turned around it is reversed, and an item
that is not after a second one, or level with it, is so with a third if the second is. -/
structure Preorders {α : Type} (cmp : α → α → Ordering) (xs : List α) : Prop where
  swap : ∀ x ∈ xs, ∀ y ∈ xs, cmp y x = (cmp x y).swap
  notAfter_trans : ∀ x ∈ xs, ∀ y ∈ xs, ∀ z ∈ xs, cmp x y ≠ .gt → cmp y z ≠ .gt → cmp x z ≠ .gt
  level_trans : ∀ x ∈ xs, ∀ y ∈ xs, ∀ z ∈ xs, cmp x y = .eq → cmp y z = .eq → cmp x z = .eq

/-- What comes before other items by such a comparison orders them. -/
theorem Preorders.ordersStrictly {α : Type} {cmp : α → α → Ordering} {xs : List α}
    (h : Preorders cmp xs) : OrdersStrictly (fun x y => cmp x y == .lt) xs := by
  have hback {x y : α} (hx : x ∈ xs) (hy : y ∈ xs) : cmp y x ≠ .gt ↔ (cmp x y == .lt) = false := by
    rw [h.swap x hx y hy]
    cases cmp x y <;> decide
  constructor
  · intro x hx y hy hxy
    rw [h.swap x hx y hy, eq_of_beq hxy]
    rfl
  · intro x hx y hy z hz hxy hyz
    rw [← hback hx hy] at hxy
    rw [← hback hy hz] at hyz
    exact (hback hx hz).mp (h.notAfter_trans z hz y hy x hx hyz hxy)

namespace Expr

/-! ## Keys that have no order -/

/-- **The comparison by which keys are sorted**: values without an order are taken for equal. -/
def sortOrder (a b : Expr) : Ordering := (a.compareValues? b).getD .eq

theorem precedes_eq_sortOrder (a b : Expr) : a.precedes b = (sortOrder a b == .lt) := by
  rw [precedes, sortOrder]
  cases a.compareValues? b <;> rfl

theorem sortOrder_swap (a b : Expr) : sortOrder b a = (sortOrder a b).swap := by
  rw [sortOrder, sortOrder, compareValues?_swap a b]
  cases a.compareValues? b <;> rfl

theorem sortOrder_eq_lt_iff {a b : Expr} :
    sortOrder a b = .lt ↔ a.compareValues? b = some .lt := by
  rw [sortOrder]
  cases a.compareValues? b <;> simp

theorem sortOrder_of_none {a b : Expr} (h : a.compareValues? b = none) : sortOrder a b = .eq := by
  rw [sortOrder, h]
  rfl

/-- **Keys that cannot be sorted** are many, and they are not compared consistently. -/
theorem not_preorders_of_sort?_eq_none {keys : List Expr} (h : sort? precedes keys = none) :
    20 < keys.length ∧ ¬Preorders sortOrder keys := by
  have horder : precedes = fun x y => sortOrder x y == .lt :=
    funext fun x => funext fun y => precedes_eq_sortOrder x y
  obtain ⟨hlength, horders⟩ := not_ordersStrictly_of_sort?_eq_none h
  rw [horder] at horders
  exact ⟨hlength, fun hkeys => horders hkeys.ordersStrictly⟩

/-- **Whether no key stands outside of the order** of two others: a key that cannot be compared with
one of them stands on the same side of the other as that one does. -/
def HasNoOutsider (keys : List Expr) : Prop :=
  ∀ a ∈ keys, ∀ b ∈ keys, ∀ c ∈ keys, a.compareValues? b = some .lt →
    (c.compareValues? a = none → c.compareValues? b = some .lt) ∧
    (c.compareValues? b = none → a.compareValues? c = some .lt)

section Outsiders

variable {keys : List Expr} {x y z : Expr}

theorem HasNoOutsider.notAfter_trans (h : HasNoOutsider keys) (hx : x ∈ keys) (hy : y ∈ keys)
    (hz : z ∈ keys) (hxy : sortOrder x y ≠ .gt) (hyz : sortOrder y z ≠ .gt) :
    sortOrder x z ≠ .gt := by
  intro hgt
  have hback {v w : Expr} (hvw : sortOrder v w ≠ .gt) : w.compareValues? v ≠ some .lt := by
    intro hlt
    rw [← sortOrder_eq_lt_iff, sortOrder_swap v w] at hlt
    cases hvw' : sortOrder v w <;> simp_all
  have hzx : z.compareValues? x = some .lt := by
    rw [← sortOrder_eq_lt_iff, sortOrder_swap x z, hgt]
    rfl
  obtain ⟨hleft, hright⟩ := h z hz x hx y hy hzx
  cases hxy' : y.compareValues? x with
  | none => exact hback hyz (hright hxy')
  | some o =>
    cases hyz' : y.compareValues? z with
    | none => exact hback hxy (hleft hyz')
    | some o' =>
      have hzy : z.compareValues? y = some o'.swap := by rw [compareValues?_swap y z, hyz']; rfl
      cases o' with
      | gt => exact hyz (by rw [sortOrder, hyz']; rfl)
      | lt =>
        have hyx := compareValues?_then y z x .lt .lt hyz' hzx rfl rfl
        exact hback hxy hyx
      | eq =>
        have hyx := compareValues?_then y z x .eq .lt hyz' hzx rfl rfl
        exact hback hxy hyx

/-- **Keys are compared consistently** exactly if none stands outside of the order of two others. -/
theorem preorders_sortOrder_iff : Preorders sortOrder keys ↔ HasNoOutsider keys := by
  constructor
  · intro h a ha b hb c hc hab
    rw [← sortOrder_eq_lt_iff] at hab
    constructor
    · intro hca
      have hlevel := sortOrder_of_none hca
      have hcb := h.notAfter_trans c hc a ha b hb (by rw [hlevel]; decide) (by rw [hab]; decide)
      rw [← sortOrder_eq_lt_iff]
      cases horder : sortOrder c b with
      | lt => rfl
      | gt => exact absurd horder hcb
      | eq =>
        have hac : sortOrder a c = .eq := by rw [sortOrder_swap c a, hlevel]; rfl
        rw [h.level_trans a ha c hc b hb hac horder] at hab
        cases hab
    · intro hcb
      have hlevel := sortOrder_of_none hcb
      have hbc : sortOrder b c = .eq := by rw [sortOrder_swap c b, hlevel]; rfl
      have hac := h.notAfter_trans a ha b hb c hc (by rw [hab]; decide) (by rw [hbc]; decide)
      rw [← sortOrder_eq_lt_iff]
      cases horder : sortOrder a c with
      | lt => rfl
      | gt => exact absurd horder hac
      | eq =>
        rw [h.level_trans a ha c hc b hb horder hlevel] at hab
        cases hab
  · intro h
    refine ⟨fun x _ y _ => sortOrder_swap x y, fun x hx y hy z hz => h.notAfter_trans hx hy hz, ?_⟩
    intro x hx y hy z hz hxy hyz
    have hxz := h.notAfter_trans hx hy hz (by rw [hxy]; decide) (by rw [hyz]; decide)
    have hzx := h.notAfter_trans hz hy hx (by rw [sortOrder_swap y z, hyz]; decide)
      (by rw [sortOrder_swap x y, hxy]; decide)
    rw [sortOrder_swap x z] at hzx
    cases horder : sortOrder x z <;> simp_all

end Outsiders

/-! ## Values that line up -/

/-- Whether nothing can be compared with a value: it is a sequence, or applies a primitive that is
no constructor of comparable values. -/
def isUnordered : Expr → Bool
  | seq .. => true
  | app p .. => p.rank?.isNone
  | _ => false

mutual
/-- **Whether the comparison of two values never meets two kinds**: literals meet literals of their
kind, constructors meet constructors of their family, and what cannot be compared meets the same. -/
def linesUp : Expr → Expr → Bool
  | int .., int .. | string .., string .. | bytes .., bytes .. => true
  | app p xs as flag, app q ys bs flag' => match p.rank?, q.rank? with
    | some (family, i), some (family', j) => family == family' && (i != j || linesUpAll xs ys)
    | _, _ => (app p xs as flag).isUnordered && (app q ys bs flag').isUnordered
  | x, y => x.isUnordered && y.isUnordered
/-- Whether the comparison of two lists of components never meets two kinds. -/
def linesUpAll : List Expr → List Expr → Bool
  | x :: xs, y :: ys => linesUp x y && linesUpAll xs ys
  | _, _ => true
end

section Lines

variable {u v w : Expr} {p q : Primitive} {xs ys zs : List Expr} {as bs : List String}
  {flag flag' : Bool}

theorem compareValues?_of_isUnordered (h : u.isUnordered = true) (w : Expr) :
    u.compareValues? w = none := by
  cases u with
  | int | string | bytes => cases h
  | seq => exact compareValues?_seq w
  | app p xs as flag =>
    cases w with
    | int | string | bytes | seq => rfl
    | app q ys bs flag' =>
      have hp : p.rank? = none := Option.isNone_iff_eq_none.mp h
      rw [compareValues?, hp]

/-- What lines up with a value that cannot be compared cannot be compared either. -/
theorem isUnordered_of_linesUp (h : u.linesUp v = true) (hu : u.isUnordered = true) :
    v.isUnordered = true := by
  cases u with
  | int | string | bytes => cases hu
  | seq =>
    unfold linesUp at h
    simpa [hu] using h
  | app p xs as flag =>
    have hp : p.rank? = none := Option.isNone_iff_eq_none.mp hu
    cases v with
    | int | string | bytes | seq => simpa [linesUp, hu] using h
    | app q ys bs flag' => simpa [linesUp, hp, hu] using h

/-- What lines up with a constructor is a constructor of its family. -/
theorem exists_app_of_linesUp {family i : Nat} (hp : p.rank? = some (family, i))
    (h : (app p xs as flag).linesUp v = true) :
    ∃ q ys bs flag' j, v = app q ys bs flag' ∧ q.rank? = some (family, j) ∧
      (i = j → linesUpAll xs ys = true) := by
  cases v with
  | int | string | bytes | seq => simp [linesUp, isUnordered, hp] at h
  | app q ys bs flag' =>
    rw [linesUp, hp] at h
    cases hq : q.rank? with
    | none => simp [isUnordered, hp, hq] at h
    | some place =>
      obtain ⟨family', j⟩ := place
      rw [hq] at h
      simp only [Bool.and_eq_true, beq_iff_eq, Bool.or_eq_true, bne_iff_ne] at h
      obtain ⟨rfl, hfields⟩ := h
      exact ⟨q, ys, bs, flag', j, rfl, hq, fun hij => hfields.resolve_left fun hne => hne hij⟩

/-- Equal values are compared alike with any other. -/
theorem compareValues?_congr_of_eq (h : u.compareValues? v = some .eq) (w : Expr) :
    u.compareValues? w = v.compareValues? w := by
  have hstep {u v : Expr} (h : u.compareValues? v = some .eq) {o : Ordering}
      (hvw : v.compareValues? w = some o) : u.compareValues? w = some o := by
    have hback : v.compareValues? u = some .eq := by rw [compareValues?_swap u v, h]; rfl
    cases o with
    | lt | eq => exact compareValues?_then u v w _ _ h hvw rfl rfl
    | gt =>
      have hwv : w.compareValues? v = some .lt := by rw [compareValues?_swap v w, hvw]; rfl
      rw [compareValues?_swap w u, compareValues?_then w v u _ _ hwv hback rfl rfl]
      rfl
  have hback : v.compareValues? u = some .eq := by rw [compareValues?_swap u v, h]; rfl
  cases hvw : v.compareValues? w with
  | some o => exact hstep h hvw
  | none =>
    cases huw : u.compareValues? w with
    | none => rfl
    | some o =>
      rw [hstep hback huw] at hvw
      cases hvw

theorem compareFields?_eq_of_linesUpAll
    (h : ∀ u ∈ xs, ∀ v w : Expr, u.linesUp v = true → u.linesUp w = true →
      u.compareValues? v = none → u.compareValues? w = v.compareValues? w)
    (hxy : linesUpAll xs ys = true) (hxz : linesUpAll xs zs = true)
    (hnone : compareFields? xs ys = none) : compareFields? xs zs = compareFields? ys zs := by
  induction xs generalizing ys zs with
  | nil =>
    rw [compareFields?_nil_left] at hnone
    cases hnone
  | cons x xs ih =>
    rw [List.forall_mem_cons] at h
    cases ys with
    | nil =>
      rw [compareFields?_nil_right] at hnone
      cases hnone
    | cons y ys =>
      cases zs with
      | nil =>
        rw [compareFields?_nil_right, compareFields?_nil_right, List.length_cons, List.length_cons,
          Nat.compare_eq_gt.mpr (Nat.succ_pos _), Nat.compare_eq_gt.mpr (Nat.succ_pos _)]
      | cons z zs =>
        rw [linesUpAll, Bool.and_eq_true] at hxy hxz
        rw [compareFields?] at hnone
        rw [compareFields?, compareFields?]
        cases hfirst : x.compareValues? y with
        | none =>
          -- both first components have one place with respect to the third, and are not equal to it
          rw [h.1 y z hxy.1 hxz.1 hfirst]
          cases hyz : y.compareValues? z with
          | none => rfl
          | some o =>
            cases o with
            | lt | gt => rfl
            | eq =>
              have hzy : z.compareValues? y = some .eq := by rw [compareValues?_swap y z, hyz]; rfl
              have hxz' : x.compareValues? z = some .eq := by
                rw [h.1 y z hxy.1 hxz.1 hfirst, hyz]
              rw [compareValues?_congr_of_eq hxz' y, hzy] at hfirst
              cases hfirst
        | some o =>
          rw [hfirst] at hnone
          cases o with
          | lt | gt => cases hnone
          | eq =>
            rw [compareValues?_congr_of_eq hfirst z]
            cases y.compareValues? z with
            | none => rfl
            | some o =>
              cases o with
              | lt | gt => rfl
              | eq => exact ih h.2 hxy.2 hxz.2 hnone

/-- **Values that line up and have no order** are compared alike with a third that lines up. -/
theorem compareValues?_eq_of_linesUp (huv : u.linesUp v = true) (huw : u.linesUp w = true)
    (hnone : u.compareValues? v = none) : u.compareValues? w = v.compareValues? w := by
  induction u generalizing v w with
  | int | string | bytes =>
    cases v with
    | int | string | bytes =>
      simp [linesUp, compareValues?, compareLiterals?, isUnordered] at huv hnone
    | seq | app => cases huv
  | seq xs as =>
    rw [compareValues?_seq, compareValues?_of_isUnordered (isUnordered_of_linesUp huv rfl)]
  | app p xs as flag ih =>
    cases hp : p.rank? with
    | none =>
      have hu : (app p xs as flag).isUnordered = true := Option.isNone_iff_eq_none.mpr hp
      rw [compareValues?_of_isUnordered hu,
        compareValues?_of_isUnordered (isUnordered_of_linesUp huv hu)]
    | some place =>
      obtain ⟨family, i⟩ := place
      obtain ⟨q, ys, bs, flag', j, rfl, hq, hfields⟩ := exists_app_of_linesUp hp huv
      obtain ⟨r, zs, cs, flag'', k, rfl, hr, hfields'⟩ := exists_app_of_linesUp hp huw
      rw [compareValues?, hp, hq] at hnone
      rw [compareValues?, compareValues?, hp, hq, hr]
      simp only [ne_eq, not_true_eq_false, if_false] at hnone ⊢
      by_cases hij : i = j
      · subst hij
        rw [if_neg (not_not_intro rfl)] at hnone
        by_cases hik : i = k
        · rw [if_neg (not_not_intro hik), if_neg (not_not_intro hik)]
          exact compareFields?_eq_of_linesUpAll (fun u hu v w => ih u hu) (hfields rfl)
            (hfields' hik) hnone
        · rw [if_pos hik, if_pos hik]
      · rw [if_pos hij] at hnone
        cases hnone

/-- **Keys that line up** have none that stands outside of the order of two others. -/
theorem hasNoOutsider_of_linesUp {keys : List Expr}
    (h : ∀ u ∈ keys, ∀ v ∈ keys, u.linesUp v = true) : HasNoOutsider keys := by
  intro a ha b hb c hc hab
  constructor
  · intro hca
    rw [compareValues?_eq_of_linesUp (h c hc a ha) (h c hc b hb) hca, hab]
  · intro hcb
    have hca := compareValues?_eq_of_linesUp (h c hc b hb) (h c hc a ha) hcb
    rw [compareValues?_swap c a, hca, compareValues?_swap a b, hab]
    rfl

end Lines

theorem linesUpAll_of_forall₂ {xs ys : List Expr}
    (h : List.Forall₂ (fun v w => linesUp v w = true) xs ys) : linesUpAll xs ys = true := by
  induction h with
  | nil => rfl
  | cons hxy _ ih => rw [linesUpAll, hxy, ih, Bool.and_self]

theorem keptByConstructors_linesUp : KeptByConstructors fun v w => v.linesUp w = true where
  alike {p xs ys} hp h := by
    obtain ⟨⟨family, i⟩, hplace⟩ := Option.isSome_iff_exists.mp hp
    simp [linesUp, hplace, linesUpAll_of_forall₂ h]
  apart {p q family i j} hp hq hne xs ys := by
    simp [linesUp, hp, hq, hne]

end Expr

/-- Scalars of one sort line up. -/
theorem ScalarSort.linesUp {sort : ScalarSort} {v w : Expr} (hv : sort.Has v) (hw : sort.Has w) :
    v.linesUp w = true := by
  cases sort with
  | integer =>
    obtain ⟨m, rfl⟩ := hv
    obtain ⟨n, rfl⟩ := hw
    rfl
  | text =>
    obtain ⟨s, rfl⟩ := hv
    obtain ⟨t, rfl⟩ := hw
    rfl
  | bytes =>
    obtain ⟨s, rfl⟩ := hv
    obtain ⟨t, rfl⟩ := hw
    rfl
  | truth =>
    obtain ⟨a, rfl⟩ := hv
    obtain ⟨b, rfl⟩ := hw
    cases a <;> cases b <;> rfl
  | unit =>
    cases hv
    cases hw
    rfl

namespace Typedef

variable {form : ScalarForm} {t : Typedef} {value : Json} {p : Expr}

/-! ## Typedefs with values that line up -/

/-- The types whose values may be integers or sequences. -/
def mixedTypes : List TypeConstructor := [.lambda, .saplingState, .bigMap]

/-- **Whether no lambda, sapling state or big map** is a typedef or a field or branch of it, at any
depth. -/
def WritesEvenly (t : Typedef) : Prop :=
  t.AtLeaves fun leaf => ∃ c, leaf.kind.head? = some (.type c) ∧ c ∉ mixedTypes

/-- What is built for a list, a set or a map is a sequence. -/
theorem exists_seq_of_marshalHeld {c : TypeConstructor} (hkind : t.kind.head? = some (.type c))
    (hc : c ∈ [.list, .set, .map]) (h : marshalHeld form t value = .ok p) : ∃ xs, p = .seq xs := by
  simp only [List.mem_cons, List.not_mem_nil, or_false] at hc
  rcases Kind.head?_eq_type_iff.mp hkind with hkind | ⟨size, hkind⟩
  all_goals
    unfold marshalHeld at h
    rw [hkind] at h
    rcases hc with rfl | rfl | rfl
    all_goals
      obtain ⟨xs, -, hp⟩ := bind_eq_ok_iff.mp h
      first
      | exact ⟨xs, (Except.ok.inj hp).symm⟩
      | obtain ⟨listed, -, rfl⟩ := sortedSequence_eq_ok_iff.mp hp
        exact ⟨listed, rfl⟩

/-- The values of a type that is not mixed line up. -/
theorem relatesHeld_linesUp {c : TypeConstructor} (hkind : t.kind.head? = some (.type c))
    (hc : c ∉ mixedTypes) : RelatesHeld (fun v w => v.linesUp w = true) form t := by
  intro value value' v w hv hw
  by_cases hlisted : c ∈ [.list, .set, .map]
  · obtain ⟨xs, rfl⟩ := exists_seq_of_marshalHeld hkind hlisted hv
    obtain ⟨ys, rfl⟩ := exists_seq_of_marshalHeld hkind hlisted hw
    rfl
  · have hscalar : c ∉ [.list, .set, .map, .bigMap] := by
      intro hmem
      have hmixed : TypeConstructor.bigMap ∈ mixedTypes := by decide
      simp only [List.mem_cons, List.not_mem_nil, or_false, not_or] at hmem hlisted
      rcases hmem with rfl | rfl | rfl | rfl
      · exact hlisted.1 rfl
      · exact hlisted.2.1 rfl
      · exact hlisted.2.2 rfl
      · exact hc hmixed
    rw [marshalHeld_eq_scalar hkind hscalar] at hv hw
    by_cases hshape : hasShapedScalars c = false
    · exact ScalarSort.linesUp (has_of_scalar hshape hv) (has_of_scalar hshape hw)
    · cases c with
      | lambda | saplingState => exact absurd (by decide) hc
      | option =>
        rw [scalar_option hv, scalar_option hw]
        rfl
      | saplingTransactionDeprecated =>
        obtain ⟨b, rfl⟩ := hostBytes_eq_ok hv
        obtain ⟨b', rfl⟩ := hostBytes_eq_ok hw
        rfl
      | _ => exact absurd rfl hshape

/-- **The values of typedefs without mixed types** line up. -/
theorem Derives.linesUp_of_writesEvenly {e : Expr} {fallback : String} {path : List Nat}
    {t : Typedef} (h : Derives e fallback path t) (ht : t.WritesEvenly) (form : ScalarForm) :
    RelatesValues (fun v w => v.linesUp w = true) form t := by
  refine h.relatesValues Expr.keptByConstructors_linesUp (ht.mono ?_)
  rintro leaf ⟨c, hkind, hc⟩
  exact relatesHeld_linesUp hkind hc

/-! ## The keys of collections -/

/-- Items are sorted by this comparison of their keys. -/
theorem listParts?_eq_sort? (t : Typedef) (items : List Expr) :
    t.listParts? items =
      sort? (fun x y => Expr.sortOrder (t.partKey x) (t.partKey y) == .lt) items := by
  simp only [listParts?, Expr.precedes_eq_sortOrder]

/-- **The keys that are sorted.** For a set, a map or a big map of any type of keys, what is built
from an array or an object is what is built from its items, sorted by the comparison of their keys.
Nothing is built if sorting finds these in no order. They are compared consistently exactly if none
stands outside of the order of two others, hence if they line up, and so always if neither the keys
nor a field or branch of them is a lambda, a sapling state or a big map. -/
theorem preorders_of_marshal (type keyType : Expr) (hkey : type.keyType? = some keyType)
    (fallback : String) (path : List Nat) (t : Typedef)
    (hbuild : build type fallback path = .ok t) (form : ScalarForm) (value : Json)
    (hosts : List Json) (hhosts : (t.unwrapName value).asEntries = .array hosts) :
    ∃ key, Collects key t ∧
      (∀ p, t.marshal form value = .ok p → ∃ items listed,
        hosts.mapM (marshalPart form t) = .ok items ∧
        sort? (fun x y => Expr.sortOrder (t.partKey x) (t.partKey y) == .lt) items = some listed ∧
        p = if t.optional then .app (.data .some) [.seq listed] else .seq listed) ∧
      ∀ items, hosts.mapM (marshalPart form t) = .ok items →
        (sort? (fun x y => Expr.sortOrder (t.partKey x) (t.partKey y) == .lt) items = none →
          (t.kind = .type .set → t.unwrapName value = .array hosts) →
          t.marshal form value = .error .disordered) ∧
        (Preorders Expr.sortOrder (items.map t.partKey) ↔
          Expr.HasNoOutsider (items.map t.partKey)) ∧
        ((∀ k ∈ items.map t.partKey, ∀ k' ∈ items.map t.partKey, k.linesUp k' = true) →
          Preorders Expr.sortOrder (items.map t.partKey)) ∧
        (key.WritesEvenly → Preorders Expr.sortOrder (items.map t.partKey)) := by
  obtain ⟨key, fallback', path', hcollects, hder⟩ :=
    (derives_of_build _ _ _ _ hbuild).exists_collects hkey
  simp only [← listParts?_eq_sort?]
  refine ⟨key, hcollects, fun p hp => ?_, fun items hitems => ?_⟩
  · exact hcollects.marshal_array_eq_ok_iff.mp (hcollects.marshal_array_of_ok hhosts hp)
  have hlines (hall : ∀ k ∈ items.map t.partKey, ∀ k' ∈ items.map t.partKey,
      k.linesUp k' = true) : Preorders Expr.sortOrder (items.map t.partKey) :=
    Expr.preorders_sortOrder_iff.mpr (Expr.hasNoOutsider_of_linesUp hall)
  refine ⟨fun hnone hset => ?_, Expr.preorders_sortOrder_iff, hlines, fun heven => hlines ?_⟩
  · rw [hcollects.marshal_hosts hhosts hset, hcollects.marshal_array, hitems]
    refine (pure_bind items _).trans ?_
    rw [hnone]
    rfl
  · have hkeys : ∀ k ∈ items.map t.partKey, ∃ v, key.marshal form v = .ok k := by
      intro k hk
      obtain ⟨x, hx, rfl⟩ := List.mem_map.mp hk
      obtain ⟨host, hhost⟩ := exists_of_mapM_eq_ok hitems x hx
      exact hcollects.exists_of_marshalPart hhost
    intro k hk k' hk'
    obtain ⟨v, hv⟩ := hkeys k hk
    obtain ⟨v', hv'⟩ := hkeys k' hk'
    exact hder.linesUp_of_writesEvenly heven form v v' k k' hv hv'

/-- Keys with lists among them: some numbers, or a single one. -/
def numbersType : Expr :=
  .app (.type .or)
    [.app (.type .list) [.plainType .nat] ["%some"], .app (.type .nat) [] ["%one"]]

/-- Three such keys; those with lists have no order. -/
def numbersKeys : List Json :=
  [.object [("one", .number (.integer 7))], .object [("some", .array [.number (.integer 5)])],
    .object [("some", .array [])]]

theorem preorders_of_marshal_numbers :
    ∃ t items listed, build (.app (.type .set) [numbersType]) "numbers" [] = .ok t ∧
      t.marshal .readable (.array numbersKeys) = .ok (.seq listed) ∧
      numbersKeys.mapM (marshalPart .readable t) = .ok items ∧
      t.listParts? items = some listed ∧
      Preorders Expr.sortOrder (items.map t.partKey) := by
  obtain ⟨key, hcollects, hbuilt, hkeys⟩ :=
    preorders_of_marshal (.app (.type .set) [numbersType]) numbersType rfl "numbers" [] _ rfl
      .readable (.array numbersKeys) numbersKeys rfl
  obtain ⟨items, listed, hitems, hlisted, hp⟩ := hbuilt _ rfl
  obtain ⟨-, -, -, heven⟩ := hkeys items hitems
  refine ⟨_, items, listed, rfl, congrArg Except.ok hp, hitems, ?_, heven ?_⟩
  · rw [listParts?_eq_sort?]
    exact hlisted
  cases hcollects
  refine .parts (.inr rfl) (List.forall_mem_cons.mpr ⟨?_, List.forall_mem_singleton.mpr ?_⟩)
  · exact .leaf ⟨.list, rfl, by decide⟩
  · exact .leaf ⟨.nat, rfl, by decide⟩

/-- **The mixed types are mixed**: two integers and a sequence are built for each of them. -/
theorem exists_marshalHeld_of_mixed {c : TypeConstructor} (hc : c ∈ mixedTypes)
    (hkind : t.kind = .type c) (hargs : c = .bigMap → ∃ key value, t.args = [key, value])
    (form : ScalarForm) :
    ∃ one two nothing, marshalHeld form t one = .ok (.int 1) ∧
      marshalHeld form t two = .ok (.int 2) ∧ marshalHeld form t nothing = .ok (.seq []) := by
  simp only [mixedTypes, List.mem_cons, List.not_mem_nil, or_false] at hc
  rcases hc with rfl | rfl | rfl
  · refine ⟨.object [("int", .string "1")], .object [("int", .string "2")], .array [], ?_, ?_, ?_⟩
    all_goals
      rw [marshalHeld_eq_scalar (congrArg Kind.head? hkind) (by decide)]
      rfl
  · refine ⟨.number (.integer 1), .number (.integer 2), .array [], ?_, ?_, ?_⟩
    all_goals
      rw [marshalHeld_eq_scalar (congrArg Kind.head? hkind) (by decide)]
      rfl
  · obtain ⟨key, value, hargs⟩ := hargs rfl
    refine ⟨.number (.integer 1), .number (.integer 2), .array [], ?_, ?_, ?_⟩
    · rw [marshalHeld, hkind]
      rfl
    · rw [marshalHeld, hkind]
      rfl
    · obtain ⟨name, kind, optional, args, path⟩ := t
      cases hkind
      cases hargs
      exact Collects.bigMap.marshalHeld_array

/-- Between two integers a sequence stands outside of their order. -/
theorem not_hasNoOutsider : ¬Expr.HasNoOutsider [.int 2, .seq [], .int 1] := by
  intro h
  have hlt := (h (.int 1) (by simp) (.int 2) (by simp) (.seq []) (by simp) rfl).1 rfl
  cases hlt

/-- **A set of sapling states** is not sorted: with the empty state between them, the state 2 stays
before the state 1. -/
theorem not_preorders_states :
    ∃ t items, build (.app (.type .set) [.app (.type .saplingState) [.int 8]]) "states" [] = .ok t ∧
      [.number (.integer 2), .array [], .number (.integer 1)].mapM (marshalPart .readable t) =
        .ok items ∧
      ¬Preorders Expr.sortOrder (items.map t.partKey) ∧
      t.marshal .readable (.array [.number (.integer 2), .array [], .number (.integer 1)]) =
        .ok (.seq [.int 2, .seq [], .int 1]) ∧
      (Expr.int 1).compareValues? (.int 2) = some .lt := by
  refine ⟨_, [.int 2, .seq [], .int 1], rfl, rfl, fun h => ?_, rfl, rfl⟩
  exact not_hasNoOutsider (Expr.preorders_sortOrder_iff.mp h)

end Typedef

end Michelson

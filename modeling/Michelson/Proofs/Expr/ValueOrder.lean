import Michelson.Expr.Annot
import Michelson.Expr.Order
import Michelson.Proofs.Order.Lexicographic
import Michelson.Proofs.Typing.Relation

/-!
# The order of values is one

Where values can be compared at all, the comparison is the order of a set: turned around it is
reversed, two steps in one direction make a step in that direction, and values that are equal
differ in nothing but annotations. That two values can be compared is known of those of one
comparable type, if pairs are binary, options hold values of their type, and literals at one place
are of one kind.

## Main definitions

* `Expr.IsComparable`: the types whose values are ordered
* `Expr.writtenAlike`: values with literals of one kind at corresponding places

## Main results

* `Expr.compareValues?_swap`, `Expr.compareValues?_then`, `Expr.strip_beq_of_compareValues?`: the
  laws of an order
* `Expr.isSome_compareValues?`: values of one comparable type
* `Expr.compareValues?_lawful`: all of them together
-/

namespace Michelson

/-- Two steps of which neither leads down make one that does not, and leads up if one of them
does. -/
theorem compare_eq_then {α : Type} [Ord α] [Std.TransOrd α] {x y z : α}
    (hxy : (compare x y).isLE) (hyz : (compare y z).isLE) :
    compare x z = (compare x y).then (compare y z) := by
  cases h : compare x y with
  | lt => exact Std.TransCmp.lt_of_lt_of_isLE h hyz
  | eq => exact Std.TransCmp.congr_left h
  | gt =>
    rw [h] at hxy
    cases hxy

namespace Expr

/-! ## Lists of components -/

section Fields

variable {x y : Expr} {xs ys : List Expr} {o : Ordering}

theorem compareFields?_nil_left (ys : List Expr) :
    compareFields? [] ys = some (compare 0 ys.length) := by
  cases ys <;> rfl

theorem compareFields?_nil_right (xs : List Expr) :
    compareFields? xs [] = some (compare xs.length 0) := by
  cases xs <;> rfl

/-- The first components decide, and the others do if those are equal. -/
theorem compareFields?_cons_eq_some :
    compareFields? (x :: xs) (y :: ys) = some o ↔
      (x.compareValues? y = some o ∧ o ≠ .eq) ∨
        x.compareValues? y = some .eq ∧ compareFields? xs ys = some o := by
  rw [compareFields?]
  cases h : x.compareValues? y with
  | none => simp
  | some first =>
    cases first with
    | eq => simp [eq_comm]
    | lt | gt =>
      simp only [Option.some.injEq, reduceCtorEq, false_and, or_false]
      constructor
      · rintro rfl
        exact ⟨rfl, nofun⟩
      · exact And.left

theorem compareFields?_swap (h : ∀ x ∈ xs, ∀ y : Expr,
    y.compareValues? x = (x.compareValues? y).map Ordering.swap) (ys : List Expr) :
    compareFields? ys xs = (compareFields? xs ys).map Ordering.swap := by
  induction xs generalizing ys with
  | nil =>
    rw [compareFields?_nil_left, compareFields?_nil_right, Std.OrientedOrd.eq_swap]
    rfl
  | cons x xs ih =>
    rw [List.forall_mem_cons] at h
    cases ys with
    | nil =>
      rw [compareFields?_nil_left, compareFields?_nil_right, Std.OrientedOrd.eq_swap]
      rfl
    | cons y ys =>
      rw [compareFields?, compareFields?, h.1 y]
      cases x.compareValues? y with
      | none => rfl
      | some first =>
        cases first with
        | eq => exact ih h.2 ys
        | lt | gt => rfl

theorem compareFields?_then {zs : List Expr} {o' : Ordering}
    (h : ∀ x ∈ xs, ∀ (y z : Expr) (o o' : Ordering), x.compareValues? y = some o →
      y.compareValues? z = some o' → o.isLE → o'.isLE → x.compareValues? z = some (o.then o'))
    (hxy : compareFields? xs ys = some o) (hyz : compareFields? ys zs = some o') (ho : o.isLE)
    (ho' : o'.isLE) : compareFields? xs zs = some (o.then o') := by
  induction xs generalizing ys zs o o' with
  | nil =>
    rw [compareFields?_nil_left] at hxy ⊢
    cases hxy
    cases ys with
    | nil =>
      rw [compareFields?_nil_left] at hyz
      cases hyz
      rfl
    | cons y ys =>
      cases zs with
      | nil =>
        rw [compareFields?_nil_right] at hyz
        cases hyz
        cases ho'
      | cons z zs => rfl
  | cons x xs ih =>
    rw [List.forall_mem_cons] at h
    cases ys with
    | nil =>
      rw [compareFields?_nil_right] at hxy
      cases hxy
      cases ho
    | cons y ys =>
      cases zs with
      | nil =>
        rw [compareFields?_nil_right] at hyz
        cases hyz
        cases ho'
      | cons z zs =>
        rw [compareFields?_cons_eq_some] at hxy hyz ⊢
        rcases hxy with ⟨hx, hne⟩ | ⟨hx, hxs⟩
        · refine .inl ⟨?_, by rw [then_of_ne_eq hne]; exact hne⟩
          rcases hyz with ⟨hy, -⟩ | ⟨hy, -⟩
          · exact h.1 y z o o' hx hy ho ho'
          · have hstep := h.1 y z o .eq hx hy ho rfl
            rwa [then_of_ne_eq hne] at hstep ⊢
        · rcases hyz with ⟨hy, hne⟩ | ⟨hy, hys⟩
          · have hstep := h.1 y z .eq o' hx hy rfl ho'
            have hlt : o' = .lt := by
              cases o' with
              | lt => rfl
              | eq => exact absurd rfl hne
              | gt => cases ho'
            subst hlt
            cases o with
            | lt | eq => exact .inl ⟨hstep, nofun⟩
            | gt => cases ho
          · exact .inr ⟨h.1 y z .eq .eq hx hy rfl rfl, ih h.2 hxs hys ho ho'⟩

theorem sameAll_strip_of_compareFields? (h : ∀ x ∈ xs, ∀ y : Expr,
    x.compareValues? y = some .eq → (x.strip == y.strip) = true)
    (hfields : compareFields? xs ys = some .eq) :
    sameAll (xs.map strip) (ys.map strip) = true := by
  induction xs generalizing ys with
  | nil =>
    cases ys with
    | nil => rfl
    | cons y ys => cases hfields
  | cons x xs ih =>
    rw [List.forall_mem_cons] at h
    cases ys with
    | nil => cases hfields
    | cons y ys =>
      rw [compareFields?_cons_eq_some] at hfields
      rcases hfields with ⟨-, hne⟩ | ⟨hx, hxs⟩
      · exact absurd rfl hne
      · rw [List.map_cons, List.map_cons, sameAll, Bool.and_eq_true]
        exact ⟨h.1 y hx, ih h.2 hxs⟩

theorem isSome_compareFields? (h : ∀ f ∈ xs.zip ys, (f.1.compareValues? f.2).isSome = true) :
    (compareFields? xs ys).isSome = true := by
  induction xs generalizing ys with
  | nil => rw [compareFields?_nil_left, Option.isSome_some]
  | cons x xs ih =>
    cases ys with
    | nil => rw [compareFields?_nil_right, Option.isSome_some]
    | cons y ys =>
      rw [List.zip_cons_cons, List.forall_mem_cons] at h
      obtain ⟨first, hfirst⟩ := Option.isSome_iff_exists.mp h.1
      rw [compareFields?, hfirst]
      cases first with
      | eq => exact ih h.2
      | lt | gt => rfl

end Fields

/-! ## The laws of an order -/

section Laws

variable {p q : Primitive} {xs ys : List Expr} {as bs : List String} {flag flag' : Bool}
variable {o : Ordering}

theorem compareValues?_int_eq_some {m : Int} {b : Expr} :
    (int m as).compareValues? b = some o ↔ ∃ n bs, b = int n bs ∧ compare m n = o := by
  cases b <;> simp [compareValues?, compareLiterals?]

theorem compareValues?_string_eq_some {s : String} {b : Expr} :
    (string s as).compareValues? b = some o ↔ ∃ t bs, b = string t bs ∧ compare s t = o := by
  cases b <;> simp [compareValues?, compareLiterals?]

theorem compareValues?_bytes_eq_some {s : List UInt8} {b : Expr} :
    (bytes s as).compareValues? b = some o ↔ ∃ t bs, b = bytes t bs ∧ compare s t = o := by
  cases b <;> simp [compareValues?, compareLiterals?]

/-- Sequences are not compared. -/
theorem compareValues?_seq (b : Expr) : (seq xs as).compareValues? b = none := by
  cases b <;> rfl

/-- Constructors are compared with constructors only. -/
theorem exists_app_of_compareValues? {b : Expr}
    (h : (app p xs as flag).compareValues? b = some o) :
    ∃ q ys bs flag', b = app q ys bs flag' := by
  cases b with
  | app q ys bs flag' => exact ⟨q, ys, bs, flag', rfl⟩
  | int | string | bytes | seq => cases h

/-- Constructors of one family are compared by their places, and values of one constructor by
their components. -/
theorem compareValues?_app_eq_some :
    (app p xs as flag).compareValues? (app q ys bs flag') = some o ↔
      ∃ family i j, p.rank? = some (family, i) ∧ q.rank? = some (family, j) ∧
        ((i ≠ j ∧ compare i j = o) ∨ i = j ∧ compareFields? xs ys = some o) := by
  rw [compareValues?]
  cases hp : p.rank? with
  | none => simp
  | some place =>
    cases hq : q.rank? with
    | none => simp
    | some place' =>
      obtain ⟨family, i⟩ := place
      obtain ⟨family', j⟩ := place'
      by_cases hfamily : family = family'
      · subst hfamily
        by_cases hplace : i = j
        · simp [hplace]
        · simp [hplace]
      · simp [hfamily, Ne.symm hfamily, eq_comm]

/-- **Turned around, the order is reversed.** -/
theorem compareValues?_swap (a b : Expr) :
    b.compareValues? a = (a.compareValues? b).map Ordering.swap := by
  -- Induction on the first value; literals of one kind are ordered, and nothing else is compared
  -- with a literal.
  induction a generalizing b with
  | int | string | bytes =>
    cases b with
    | int | string | bytes =>
      first
        | rfl
        | exact congrArg some Std.OrientedOrd.eq_swap
    | seq | app => rfl
  | seq => cases b <;> rfl
  | app p xs as flag ih =>
    cases b with
    | int | string | bytes | seq => rfl
    | app q ys bs flag' =>
      rw [compareValues?, compareValues?]
      cases p.rank? with
      | none => cases q.rank? <;> rfl
      | some place =>
        cases q.rank? with
        | none => rfl
        | some place' =>
          obtain ⟨family, i⟩ := place
          obtain ⟨family', j⟩ := place'
          by_cases hfamily : family = family'
          · by_cases hplace : i = j
            · simp [hfamily, hplace, compareFields?_swap ih]
            · simp [hfamily, hplace, Ne.symm hplace, Std.OrientedOrd.eq_swap (a := j)]
          · simp [hfamily, Ne.symm hfamily]

/-- **Two steps in one direction** make one, which leads up if either of them does. -/
theorem compareValues?_then (a b c : Expr) (o o' : Ordering) (hab : a.compareValues? b = some o)
    (hbc : b.compareValues? c = some o') (ho : o.isLE) (ho' : o'.isLE) :
    a.compareValues? c = some (o.then o') := by
  induction a generalizing b c o o' with
  | int m as =>
    obtain ⟨n, bs, rfl, rfl⟩ := compareValues?_int_eq_some.mp hab
    obtain ⟨k, cs, rfl, rfl⟩ := compareValues?_int_eq_some.mp hbc
    exact congrArg some (compare_eq_then ho ho')
  | string s as =>
    obtain ⟨t, bs, rfl, rfl⟩ := compareValues?_string_eq_some.mp hab
    obtain ⟨u, cs, rfl, rfl⟩ := compareValues?_string_eq_some.mp hbc
    exact congrArg some (compare_eq_then ho ho')
  | bytes s as =>
    obtain ⟨t, bs, rfl, rfl⟩ := compareValues?_bytes_eq_some.mp hab
    obtain ⟨u, cs, rfl, rfl⟩ := compareValues?_bytes_eq_some.mp hbc
    exact congrArg some (compare_eq_then ho ho')
  | seq xs as =>
    rw [compareValues?_seq] at hab
    cases hab
  | app p xs as flag ih =>
    obtain ⟨q, ys, bs, flag', rfl⟩ := exists_app_of_compareValues? hab
    obtain ⟨r, zs, cs, flag'', rfl⟩ := exists_app_of_compareValues? hbc
    rw [compareValues?_app_eq_some] at hab hbc ⊢
    obtain ⟨family, i, j, hp, hq, hab⟩ := hab
    obtain ⟨family', j', k, hq', hr, hbc⟩ := hbc
    obtain ⟨rfl, rfl⟩ : family = family' ∧ j = j' := by simpa [hq] using hq'
    refine ⟨family, i, k, hp, hr, ?_⟩
    have hup {i j : Nat} {o : Ordering} (hne : i ≠ j) (h : compare i j = o) (ho : o.isLE) :
        o = .lt ∧ i < j := by
      subst h
      rw [Nat.isLE_compare] at ho
      have hlt : i < j := by omega
      exact ⟨Nat.compare_eq_lt.mpr hlt, hlt⟩
    rcases hab with ⟨hij, hab⟩ | ⟨rfl, hab⟩
    · obtain ⟨rfl, hlt⟩ := hup hij hab ho
      have hle : j ≤ k := by
        rcases hbc with ⟨hjk, hbc⟩ | ⟨rfl, -⟩
        · exact (hup hjk hbc ho').2.le
        · exact le_refl j
      exact .inl ⟨by omega, Nat.compare_eq_lt.mpr (by omega)⟩
    · rcases hbc with ⟨hjk, hbc⟩ | ⟨rfl, hbc⟩
      · obtain ⟨rfl, hlt⟩ := hup hjk hbc ho'
        refine .inl ⟨hjk, ?_⟩
        rw [hbc, Ordering.then_eq_lt.mpr]
        exact (Ordering.isLE_iff_eq_lt_or_eq_eq.mp ho).imp_right fun h => ⟨h, rfl⟩
      · exact .inr ⟨rfl, compareFields?_then ih hab hbc ho ho'⟩

/-- **Equal values** differ in nothing but annotations. -/
theorem strip_beq_of_compareValues? (a b : Expr) (h : a.compareValues? b = some .eq) :
    (a.strip == b.strip) = true := by
  show a.strip.same b.strip = true
  induction a generalizing b with
  | int m as =>
    obtain ⟨n, bs, rfl, heq⟩ := compareValues?_int_eq_some.mp h
    simp [strip, same, Std.LawfulEqOrd.eq_of_compare heq]
  | string s as =>
    obtain ⟨t, bs, rfl, heq⟩ := compareValues?_string_eq_some.mp h
    simp [strip, same, Std.LawfulEqOrd.eq_of_compare heq]
  | bytes s as =>
    obtain ⟨t, bs, rfl, heq⟩ := compareValues?_bytes_eq_some.mp h
    simp [strip, same, Std.LawfulEqOrd.eq_of_compare heq]
  | seq xs as =>
    rw [compareValues?_seq] at h
    cases h
  | app p xs as flag ih =>
    obtain ⟨q, ys, bs, flag', rfl⟩ := exists_app_of_compareValues? h
    obtain ⟨family, i, j, hp, hq, hfields⟩ := compareValues?_app_eq_some.mp h
    rcases hfields with ⟨hne, heq⟩ | ⟨rfl, hfields⟩
    · exact absurd (Nat.compare_eq_eq.mp heq) hne
    · obtain rfl := Primitive.rank?_injective hp hq
      simp [strip, same, sameAll_strip_of_compareFields? ih hfields]

/-- Values of one constructor can be compared if their components can. -/
theorem isSome_compareValues?_app (hp : p.rank?.isSome = true)
    (h : ∀ f ∈ xs.zip ys, (f.1.compareValues? f.2).isSome = true) :
    ((app p xs as flag).compareValues? (app p ys bs flag')).isSome = true := by
  obtain ⟨⟨family, i⟩, hplace⟩ := Option.isSome_iff_exists.mp hp
  obtain ⟨o, hfields⟩ := Option.isSome_iff_exists.mp (isSome_compareFields? h)
  rw [Option.isSome_iff_exists]
  exact ⟨o, compareValues?_app_eq_some.mpr
    ⟨family, i, i, hplace, hplace, .inr ⟨rfl, hfields⟩⟩⟩

end Laws

/-! ## Values of one comparable type -/

/-- The types without arguments whose values are ordered. -/
def comparableScalars : List TypeConstructor :=
  [.int, .nat, .mutez, .timestamp, .string, .bytes, .bool, .unit, .address, .key, .keyHash,
    .signature, .chainId]

/-- **The types whose values are ordered**: those without arguments that are listed, and options,
alternatives and combs of them. -/
inductive IsComparable : Expr → Prop
  | scalar {c annots flag} : c ∈ comparableScalars → IsComparable (.app (.type c) [] annots flag)
  | option {inner annots flag} :
    IsComparable inner → IsComparable (.app (.type .option) [inner] annots flag)
  | or {left right annots flag} : IsComparable left → IsComparable right →
    IsComparable (.app (.type .or) [left, right] annots flag)
  | pair {args annots flag} : 2 ≤ args.length → (∀ x ∈ args, IsComparable x) →
    IsComparable (.app (.type .pair) args annots flag)

theorem isComparable_plainType {c : TypeConstructor} (hc : c ∈ comparableScalars) :
    (plainType c).IsComparable :=
  .scalar hc

mutual
/-- Whether two values have literals of one kind at corresponding places. Components of different
constructors do not correspond. -/
def writtenAlike : Expr → Expr → Bool
  | int .., int .. | string .., string .. | bytes .., bytes .. => true
  | seq xs _, seq ys _ => writtenAlikeAll xs ys
  | app p xs _ _, app q ys _ _ => p ≠ q || writtenAlikeAll xs ys
  | _, _ => false
/-- Whether two lists of values have literals of one kind at corresponding places. -/
def writtenAlikeAll : List Expr → List Expr → Bool
  | x :: xs, y :: ys => writtenAlike x y && writtenAlikeAll xs ys
  | _, _ => true
end

section Comparable

variable {Left Right Held : Expr → Prop}

/-- Whether all values of a type that are written alike can be compared. -/
def Ordered (Value : Expr → Prop) : Prop :=
  ∀ v w, Value v → Value w → v.writtenAlike w = true → (v.compareValues? w).isSome = true

/-- The values of those types without arguments are their scalars. -/
theorem hasType_scalar {r : Reading} {c : TypeConstructor} {annots : List String} {flag : Bool}
    (hc : c ∈ comparableScalars) : HasType r (.app (.type c) [] annots flag) = IsScalarOf c := by
  cases c <;> first | rfl | simp [comparableScalars] at hc

theorem ordered_isScalarOf (c : TypeConstructor) : Ordered (IsScalarOf c) := by
  intro v w hv hw halike
  cases hv with
  | int | string | bytes =>
    cases hw with
    | int | string | bytes =>
      first
        | rfl
        | cases halike
    | true | false | unit => cases halike
  | true hbool | false hbool =>
    subst hbool
    cases hw with
    | int | string | bytes => cases halike
    | true | false => rfl
    | unit hunit => cases hunit
  | unit hunit =>
    subst hunit
    cases hw with
    | int | string | bytes => cases halike
    | true hbool | false hbool => cases hbool
    | unit => rfl

theorem ordered_isPairOf (hl : Ordered Left) (hr : Ordered Right) :
    Ordered (IsPairOf .strict Left Right) := by
  intro v w hv hw halike
  obtain ⟨x, y, as, flag, rfl, hx, hy⟩ := isPairOf_strict_iff.mp hv
  obtain ⟨x', y', bs, flag', rfl, hx', hy'⟩ := isPairOf_strict_iff.mp hw
  simp only [writtenAlike, writtenAlikeAll, ne_eq, not_true_eq_false, decide_false,
    Bool.false_or, Bool.and_true, Bool.and_eq_true] at halike
  refine isSome_compareValues?_app rfl ?_
  rw [List.zip_cons_cons, List.zip_cons_cons, List.zip_nil_left, List.forall_mem_cons,
    List.forall_mem_singleton]
  exact ⟨hl x x' hx hx' halike.1, hr y y' hy hy' halike.2⟩

/-- Values that hold one value of an ordered type can be compared. -/
theorem isSome_compareValues?_wrapped {p : Primitive} (hp : p.rank?.isSome = true)
    (hheld : Ordered Held) {x y : Expr} (hx : Held x) (hy : Held y) {as bs : List String}
    {flag flag' : Bool} (halike : (app p [x] as flag).writtenAlike (app p [y] bs flag') = true) :
    ((app p [x] as flag).compareValues? (app p [y] bs flag')).isSome = true := by
  simp only [writtenAlike, writtenAlikeAll, ne_eq, not_true_eq_false, decide_false,
    Bool.false_or, Bool.and_true] at halike
  refine isSome_compareValues?_app hp ?_
  rw [List.zip_cons_cons, List.zip_nil_left, List.forall_mem_singleton]
  exact hheld x y hx hy halike

theorem ordered_isEitherOf (hl : Ordered Left) (hr : Ordered Right) :
    Ordered (IsEitherOf Left Right) := by
  intro v w hv hw halike
  cases hv with
  | left hx =>
    cases hw with
    | left hy => exact isSome_compareValues?_wrapped rfl hl hx hy halike
    | right => rfl
  | right hx =>
    cases hw with
    | left => rfl
    | right hy => exact isSome_compareValues?_wrapped rfl hr hx hy halike

theorem ordered_isOptionOf (hheld : Ordered Held) : Ordered (IsOptionOf Held) := by
  intro v w hv hw halike
  cases hv with
  | none => cases hw <;> rfl
  | some hx =>
    cases hw with
    | none => rfl
    | some hy => exact isSome_compareValues?_wrapped rfl hheld hx hy halike

theorem ordered_hasCombType {args : List Expr}
    (h : ∀ x ∈ args, Ordered (HasType .strict x)) : Ordered (HasCombType .strict args) := by
  induction args with
  | nil => exact fun v w hv => hv.elim
  | cons first rest ih =>
    rw [List.forall_mem_cons] at h
    match rest, h with
    | [], _ => exact fun v w hv => hv.elim
    | [second], h =>
      rw [List.forall_mem_singleton] at h
      exact ordered_isPairOf h.1 h.2
    | second :: third :: rest, h => exact ordered_isPairOf h.1 (ih h.2)

/-- **Values of one comparable type** can be compared if they are written alike. -/
theorem isSome_compareValues? {e : Expr} (h : e.IsComparable) : Ordered (e.HasType .strict) := by
  induction h with
  | scalar hc =>
    rw [hasType_scalar hc]
    exact ordered_isScalarOf _
  | option _ ih => 
    rw [HasType]
    exact ordered_isOptionOf fun v w hv hw => ih v w (hv trivial) (hw trivial)
  | or _ _ ihl ihr => 
    rw [HasType]
    exact ordered_isEitherOf ihl ihr
  | pair _ _ ih =>
    rw [HasType]
    exact ordered_hasCombType ih

end Comparable

/-- **The order of values is one.** For all values, turned around it is reversed, steps in one
direction compose, and equal values differ in nothing but annotations. Values of one comparable
type, in the strict reading and written alike, can be compared. -/
theorem compareValues?_lawful (a b c : Expr) :
    b.compareValues? a = (a.compareValues? b).map Ordering.swap ∧
    (∀ o o' : Ordering, a.compareValues? b = some o → b.compareValues? c = some o' →
      o ≠ .gt → o' ≠ .gt →
        a.compareValues? c = some (if o = .lt ∨ o' = .lt then .lt else .eq)) ∧
    (a.compareValues? b = some .eq → (a.strip == b.strip) = true) ∧
    ∀ type : Expr, type.IsComparable → type.HasType .strict a → type.HasType .strict b →
      a.writtenAlike b = true → (a.compareValues? b).isSome = true := by
  refine ⟨compareValues?_swap a b, ?_, strip_beq_of_compareValues? a b, ?_⟩
  · intro o o' hab hbc ho ho'
    rw [compareValues?_then a b c o o' hab hbc (Ordering.isLE_iff_ne_gt.mpr ho)
      (Ordering.isLE_iff_ne_gt.mpr ho')]
    cases o with
    | lt => rfl
    | eq => cases o' <;> first | rfl | exact absurd rfl ho'
    | gt => exact absurd rfl ho
  · intro type htype ha hb
    exact isSome_compareValues? htype a b ha hb

/-- A type of keys: an amount with the holder of it if that is known, or a flag. -/
def holderType : Expr :=
  .app (.type .or)
    [.app (.type .pair) [.plainType .nat, .app (.type .option) [.plainType .address]],
      .plainType .bool]

/-- A key of that type. -/
def holderKey (holder : Expr) : Expr :=
  .app (.data .left) [.app (.data .pair) [.int 3, holder]]

/-- A key without a holder, one with a holder and a flag, in ascending order. -/
theorem compareValues?_lawful_holderKey :
    holderType.IsComparable ∧
    holderType.HasType .strict (holderKey (.app (.data .none) [])) ∧
    holderType.HasType .strict (holderKey (.app (.data .some) [.bytes [7]])) ∧
    ((holderKey (.app (.data .none) [])).compareValues?
      (holderKey (.app (.data .some) [.bytes [7]]))).isSome = true ∧
    (holderKey (.app (.data .none) [])).compareValues?
      (.app (.data .right) [.app (.data .true) []]) = some .lt ∧
    ((holderKey (.bytes [7])).strip == (holderKey (.bytes [7] [":holder"])).strip) = true := by
  have htype : holderType.IsComparable := by
    refine .or (.pair (by decide) ?_) (isComparable_plainType (by decide))
    rw [List.forall_mem_cons, List.forall_mem_singleton]
    exact ⟨isComparable_plainType (by decide), .option (isComparable_plainType (by decide))⟩
  have hnone : holderType.HasType .strict (holderKey (.app (.data .none) [])) := by
    rw [holderType, HasType]
    exact .left ⟨_, _, .pair, .int rfl, .none⟩
  have hheld : holderType.HasType .strict (holderKey (.app (.data .some) [.bytes [7]])) := by
    rw [holderType, HasType]
    exact .left ⟨_, _, .pair, .int rfl, .some fun _ => .bytes rfl⟩
  obtain ⟨-, hthen, -, htotal⟩ := compareValues?_lawful (holderKey (.app (.data .none) []))
    (holderKey (.app (.data .some) [.bytes [7]])) (.app (.data .right) [.app (.data .true) []])
  obtain ⟨-, -, hequal, -⟩ := compareValues?_lawful (holderKey (.bytes [7]))
    (holderKey (.bytes [7] [":holder"])) (.int 0)
  exact ⟨htype, hnone, hheld, htotal holderType htype hnone hheld rfl,
    hthen .lt .lt rfl rfl (by decide) (by decide), hequal rfl⟩

end Expr

end Michelson

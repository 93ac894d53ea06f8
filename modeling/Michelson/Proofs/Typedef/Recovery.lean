import Michelson.Proofs.Typedef.Placement

/-!
# Types recovered from typedefs

A typedef does not tell how the pairs of its type were grouped, which annotations it had, and how
many options stood directly around one another. All else can be read off again, unless the typedef
has a union of more than two branches, which may come from several nests of alternatives, or a
sapling type, whose arguments are not kept.

## Main definitions

* `Expr.flat`: a type without annotations and without groups of pairs
* `Expr.mergeOptions`: a type without options directly around options
* `Typedef.flatType?`: the type read off a typedef

## Main results

* `Typedef.flatType?_unfold`, `Typedef.flatType?_eq_of_equal`: unfolded and equal typedefs
* `Typedef.Derives.flat_eq`: the type from which a typedef is derived
-/

namespace Michelson

namespace Expr

/-! ## Flat types -/

/-- The components of a pair; a type that is no pair is its only one. -/
def components : Expr → List Expr
  | app (.type .pair) args _ _ => args
  | e => [e]

mutual
/-- **A type without annotations and packed flags** in which every nest of pairs is one pair of its
components that are no pairs, in their order. -/
def flat : Expr → Expr
  | int n _ => int n
  | string s _ => string s
  | bytes b _ => bytes b
  | seq xs _ => seq (flatAll xs)
  | app (.type .pair) args _ _ => app (.type .pair) ((flatAll args).flatMap components)
  | app p args _ _ => app p (flatAll args)
/-- The flat forms of types. -/
def flatAll : List Expr → List Expr
  | [] => []
  | x :: xs => flat x :: flatAll xs
end

@[simp] theorem flatAll_eq_map (xs : List Expr) : flatAll xs = xs.map flat := by
  induction xs with
  | nil => rfl
  | cons x xs ih => simp [flatAll, ih]

theorem flat_app_of_ne {p : Primitive} (hp : p ≠ .type .pair) (args : List Expr)
    (annots : List String) (flag : Bool) :
    (app p args annots flag).flat = app p (args.map flat) := by
  rw [flat, flatAll_eq_map]
  rintro rfl
  exact hp rfl

/-! ## Options -/

/-- Whether a type is an option of another. -/
def isOption (e : Expr) : Bool := e.applies (.type .option) && e.children.length == 1

/-- An option of a type; of an option that option itself. -/
def asOption (e : Expr) (annots : List String := []) (flag : Bool := false) : Expr :=
  if e.isOption then e else app (.type .option) [e] annots flag

mutual
/-- **A type in which options directly around options are left out.** -/
def mergeOptions : Expr → Expr
  | app (.type .option) [inner] annots flag => asOption (mergeOptions inner) annots flag
  | app p args annots flag => app p (mergeOptionsAll args) annots flag
  | seq xs annots => seq (mergeOptionsAll xs) annots
  | e => e
/-- The types in which options directly around options are left out. -/
def mergeOptionsAll : List Expr → List Expr
  | [] => []
  | x :: xs => mergeOptions x :: mergeOptionsAll xs
end

@[simp] theorem mergeOptionsAll_eq_map (xs : List Expr) :
    mergeOptionsAll xs = xs.map mergeOptions := by
  induction xs with
  | nil => rfl
  | cons x xs ih => simp [mergeOptionsAll, ih]

theorem isOption_asOption (e : Expr) : e.asOption.isOption = true := by
  unfold asOption
  split
  · assumption
  · rfl

theorem asOption_asOption (e : Expr) : e.asOption.asOption = e.asOption :=
  if_pos (isOption_asOption e)

theorem isOption_flat (e : Expr) : e.flat.isOption = e.isOption := by
  cases e with
  | int | string | bytes | seq => rfl
  | app p args annots flag =>
    by_cases hp : p = .type .pair
    · subst hp
      rfl
    · rw [flat_app_of_ne hp]
      simp [isOption, applies, head?, children]

theorem flat_asOption (e : Expr) (annots : List String) (flag : Bool) :
    (e.asOption annots flag).flat = e.flat.asOption := by
  unfold asOption
  rw [isOption_flat]
  split
  · rfl
  · exact flat_app_of_ne (by decide) _ _ _

section Constructors

variable {args : List Expr} {annots : List String} {flag : Bool}

theorem flat_mergeOptions_pair :
    (app (.type .pair) args annots flag).mergeOptions.flat =
      app (.type .pair) (args.flatMap fun x => x.mergeOptions.flat.components) := by
  simp [mergeOptions, flat, List.flatMap_map]

theorem flat_mergeOptions_option {inner : Expr} :
    (app (.type .option) [inner] annots flag).mergeOptions.flat =
      inner.mergeOptions.flat.asOption := by
  rw [mergeOptions, flat_asOption]

theorem flat_mergeOptions_app {c : TypeConstructor} (hpair : c ≠ .pair) (hoption : c ≠ .option) :
    (app (.type c) args annots flag).mergeOptions.flat =
      app (.type c) (args.map fun x => x.mergeOptions.flat) := by
  rw [mergeOptions, flat_app_of_ne (by simpa using hpair), mergeOptionsAll_eq_map, List.map_map]
  · rfl
  · rintro _ hc
    exact absurd (by simpa using hc) hoption

end Constructors

end Expr

namespace Typedef

/-! ## Types read off -/

/-- The flat type of a kind with components of these flat types, if the kind tells it. -/
def Kind.flatType? : Kind → List Expr → Option Expr
  | .struct, xs => some (.app (.type .pair) (xs.flatMap Expr.components))
  | .union, [x, y] => some (.app (.type .or) [x, y])
  | .type .saplingState, _ | .type .saplingTransaction, _
  | .type .saplingTransactionDeprecated, _ => none
  | .type c, xs => some (.app (.type c) xs)
  | .union, _ | .sapling .., _ => none

mutual
/-- **The flat type that is read off a typedef**, if it tells one. -/
def flatType? : Typedef → Option Expr
  | ⟨_, kind, optional, args, _⟩ => do
    let e ← kind.flatType? (← flatTypes? args)
    return if optional then e.asOption else e
/-- The flat types that are read off typedefs. -/
def flatTypes? : List Typedef → Option (List Expr)
  | [] => some []
  | t :: ts => do return (← flatType? t) :: (← flatTypes? ts)
end

/-! ## Unfolded and equal typedefs -/

/-- The components of a comb whose fields these are, if they tell them. -/
def flatFields? (ts : List Typedef) : Option (List Expr) :=
  (flatTypes? ts).map (·.flatMap Expr.components)

theorem flatType?_mk (name : String) (kind : Kind) (optional : Bool) (args : List Typedef)
    (path : List Nat) :
    flatType? ⟨name, kind, optional, args, path⟩ =
      ((flatTypes? args).bind kind.flatType?).map fun e => if optional then e.asOption else e := by
  rw [flatType?]
  cases flatTypes? args with
  | none => rfl
  | some xs => cases h : kind.flatType? xs <;> simp [h]

theorem flatType?_mandatory (name : String) (kind : Kind) (args : List Typedef)
    (path : List Nat) :
    flatType? ⟨name, kind, false, args, path⟩ = (flatTypes? args).bind kind.flatType? := by
  rw [flatType?_mk]
  exact Option.map_id'

theorem flatType?_struct (name : String) (optional : Bool) (args : List Typedef)
    (path : List Nat) :
    flatType? ⟨name, .struct, optional, args, path⟩ =
      (flatFields? args).map fun xs =>
        if optional then (Expr.app (.type .pair) xs).asOption else .app (.type .pair) xs := by
  rw [flatType?_mk, flatFields?]
  cases flatTypes? args <;> rfl

/-- Names are not read. -/
theorem flatType?_rename (t : Typedef) (name : String) :
    flatType? { t with name := name } = flatType? t := by
  obtain ⟨name', kind, optional, args, path⟩ := t
  rw [flatType?_mk, flatType?_mk]

theorem flatTypes?_congr {ts us : List Typedef} (h : ts.map flatType? = us.map flatType?) :
    flatTypes? ts = flatTypes? us := by
  induction ts generalizing us with
  | nil =>
    rw [List.map_nil, eq_comm, List.map_eq_nil_iff] at h
    rw [h]
  | cons t ts ih =>
    cases us with
    | nil => cases h
    | cons u us =>
      rw [List.map_cons, List.map_cons, List.cons.injEq] at h
      rw [flatTypes?, flatTypes?, h.1, ih h.2]

/-- Names by position are not read, whichever names they replace. -/
theorem flatTypes?_mapIdx_name (P : String → Prop) [DecidablePred P] (ts : List Typedef) :
    flatTypes? (ts.mapIdx fun i t => if P t.name then { t with name := toString i } else t) =
      flatTypes? ts :=
  flatTypes?_congr (map_mapIdx_name_of_blind flatType?_rename P ts)

theorem flatTypes?_append (ts us : List Typedef) :
    flatTypes? (ts ++ us) = (flatTypes? ts).bind fun xs => (flatTypes? us).map (xs ++ ·) := by
  induction ts with
  | nil => simp [flatTypes?]
  | cons t ts ih =>
    rw [List.cons_append, flatTypes?, flatTypes?, ih]
    cases flatType? t <;> cases flatTypes? ts <;> cases flatTypes? us <;> simp

theorem flatFields?_append (ts us : List Typedef) :
    flatFields? (ts ++ us) = (flatFields? ts).bind fun xs => (flatFields? us).map (xs ++ ·) := by
  rw [flatFields?, flatFields?, flatFields?, flatTypes?_append]
  cases flatTypes? ts <;> cases flatTypes? us <;> simp

/-- A group of fields has the components that its fields have. -/
theorem flatFields?_group {t : Typedef} (h : t.isGroup = true) :
    flatFields? [t] = flatFields? t.args := by
  obtain ⟨name, kind, optional, args, path⟩ := t
  simp only [isGroup, isStruct, Bool.and_eq_true, beq_iff_eq, Bool.not_eq_true'] at h
  obtain ⟨⟨rfl, rfl⟩, -⟩ := h
  rw [flatFields?, flatTypes?, flatType?_struct, flatTypes?]
  cases flatFields? args with
  | none => rfl
  | some xs => simp [Expr.components]

theorem flatFields?_inlineGroups (ts : List Typedef) :
    flatFields? (inlineGroups ts) = flatFields? ts := by
  induction ts with
  | nil => rfl
  | cons t ts ih =>
    rw [inlineGroups_cons, flatFields?_append, ih, ← List.singleton_append (l := ts),
      flatFields?_append]
    split
    next hgroup => rw [flatFields?_group hgroup]
    next => rfl

theorem flatFields?_renumber (ts : List Typedef) : flatFields? (renumber ts) = flatFields? ts :=
  congrArg (Option.map _) (flatTypes?_mapIdx_name (isPositionalName · = true) ts)

theorem flatFields?_numberFields (ts : List Typedef) :
    flatFields? (numberFields ts) = flatFields? ts :=
  congrArg (Option.map _) (flatTypes?_mapIdx_name (· = "") ts)

/-- **The unfolded form** tells the same type. -/
theorem flatType?_unfold (t : Typedef) : flatType? t.unfold = flatType? t := by
  -- Induction on the typedef: of a struct only the components of its fields are read, and these
  -- are the same whether the groups among the fields are replaced or not.
  induction t using args_induction with
  | node t ih =>
    obtain ⟨name, kind, optional, args, path⟩ := t
    have hargs : flatTypes? (args.map unfold) = flatTypes? args := by
      refine flatTypes?_congr ?_
      rw [List.map_map]
      exact List.map_congr_left ih
    by_cases hkind : kind = .struct
    · subst hkind
      rw [unfold_struct, flatType?_struct, flatType?_struct, flatFields?_renumber,
        flatFields?_inlineGroups, flatFields?, flatFields?, hargs]
    · rw [unfold_of_ne hkind, flatType?_mk, flatType?_mk, hargs]

mutual
/-- **Equal typedefs** tell the same type. -/
theorem flatType?_eq_of_equal {t u : Typedef} (h : t.equal u = true) :
    flatType? t = flatType? u := by
  match t, u with
  | ⟨_, kind, optional, args, _⟩, ⟨_, kind', optional', args', _⟩ =>
    simp only [equal, Bool.and_eq_true, beq_iff_eq] at h
    obtain ⟨⟨rfl, rfl⟩, hargs⟩ := h
    rw [flatType?_mk, flatType?_mk, flatTypes?_eq_of_equalAll hargs]
theorem flatTypes?_eq_of_equalAll {ts us : List Typedef} (h : equalAll ts us = true) :
    flatTypes? ts = flatTypes? us := by
  match ts, us with
  | [], [] => rfl
  | t :: ts, u :: us =>
    rw [equalAll, Bool.and_eq_true] at h
    rw [flatTypes?, flatTypes?, flatType?_eq_of_equal h.1, flatTypes?_eq_of_equalAll h.2]
end

/-! ## Derived typedefs -/

mutual
/-- A nest of alternatives has at least two branches. -/
theorem DerivesBranches.two_le_length {first : String} {args : List Expr} {path : List Nat}
    {ts : List Typedef} (h : DerivesBranches first args path ts) : 2 ≤ ts.length := by
  match h with
  | .both hl hr =>
    have hleft := hl.one_le_length
    have hright := hr.one_le_length
    rw [List.length_append]
    omega
theorem DerivesSide.one_le_length {first : String} {e : Expr} {path : List Nat}
    {ts : List Typedef} (h : DerivesSide first e path ts) : 1 ≤ ts.length := by
  match h with
  | .nest hs => exact Nat.le_of_succ_le hs.two_le_length
  | .one _ _ => exact Nat.le_refl 1
end

theorem flatTypes?_eq_some_iff {ts : List Typedef} {xs : List Expr} :
    flatTypes? ts = some xs ↔ List.Forall₂ (fun t x => t.flatType? = some x) ts xs := by
  induction ts generalizing xs with
  | nil => simp [flatTypes?, eq_comm]
  | cons t ts ih =>
    simp only [flatTypes?, Option.bind_eq_bind, Option.bind_eq_some_iff, Option.pure_def,
      Option.some.injEq, List.forall₂_cons_left_iff, ih]
    constructor
    · rintro ⟨x, hx, xs, hxs, rfl⟩
      exact ⟨x, xs, hx, hxs, rfl⟩
    · rintro ⟨x, xs, hx, hxs, rfl⟩
      exact ⟨x, hx, xs, hxs, rfl⟩

theorem flatTypes?_singleton (t : Typedef) : flatTypes? [t] = t.flatType?.map ([·]) := by
  rw [flatTypes?, flatTypes?]
  cases flatType? t <;> rfl

theorem flatTypes?_pair {t u : Typedef} {zs : List Expr} (h : flatTypes? [t, u] = some zs) :
    ∃ x y, t.flatType? = some x ∧ u.flatType? = some y ∧ zs = [x, y] := by
  match zs, flatTypes?_eq_some_iff.mp h with
  | [x, y], .cons hx (.cons hy .nil) => exact ⟨x, y, hx, hy, rfl⟩

theorem flatFields?_cons_eq_some_iff {t : Typedef} {ts : List Typedef} {zs : List Expr} :
    flatFields? (t :: ts) = some zs ↔
      ∃ x xs, t.flatType? = some x ∧ flatFields? ts = some xs ∧ zs = x.components ++ xs := by
  rw [flatFields?, flatFields?, flatTypes?]
  cases flatType? t <;> cases flatTypes? ts <;> simp [eq_comm]

/-- A union tells its type if it has two branches. -/
theorem bind_flatType?_union {ts : List Typedef} {z : Expr}
    (h : (flatTypes? ts).bind Kind.union.flatType? = some z) :
    ∃ x y, flatTypes? ts = some [x, y] ∧ z = .app (.type .or) [x, y] := by
  obtain ⟨xs, hxs, hz⟩ := Option.bind_eq_some_iff.mp h
  match xs, hz with
  | [x, y], hz => exact ⟨x, y, hxs, (Option.some.inj hz).symm⟩

theorem flatType?_saplingKind {c : TypeConstructor} (h : (Kind.type c).flatType? [] = none)
    (args : List Expr) : (saplingKind c args).flatType? [] = none := by
  unfold saplingKind
  split
  · split
    · rfl
    · exact h
  · exact h

section Components

variable {c : TypeConstructor} {annots : List String} {flag : Bool} {z : Expr}

theorem flat_leaf {args : List Expr} {kind : Kind} (hkind : leafKind? c args = some kind)
    (hz : kind.flatType? [] = some z) :
    (Expr.app (.type c) args annots flag).mergeOptions.flat = z := by
  by_cases hsapling : (Kind.type c).flatType? [] = none
  · have hnone := flatType?_saplingKind hsapling args
    cases c <;> cases hsapling <;> cases hkind <;> cases hnone.symm.trans hz
  · cases c <;> cases args <;> cases hkind <;> first | (cases hz; rfl) | exact absurd rfl hsapling

theorem flat_unary {x y : Expr} {name : String} (hc : componentName? c = some name)
    (hx : x.mergeOptions.flat = y) (hz : (Kind.type c).flatType? [y] = some z) :
    (Expr.app (.type c) [x] annots flag).mergeOptions.flat = z := by
  subst hx
  cases c <;> cases hc <;> cases hz <;> rfl

theorem flat_binary {x x' y y' : Expr} {names : String × String}
    (hc : componentNames? c = some names) (hx : x.mergeOptions.flat = y)
    (hx' : x'.mergeOptions.flat = y') (hz : (Kind.type c).flatType? [y, y'] = some z) :
    (Expr.app (.type c) [x, x'] annots flag).mergeOptions.flat = z := by
  subst hx hx'
  cases c <;> cases hc <;> cases hz <;> rfl

end Components

/-- Two branches are one from each side. -/
theorem flatTypes?_append_eq_pair {ls rs : List Typedef} {x y : Expr} (hl : 1 ≤ ls.length)
    (hr : 1 ≤ rs.length) (h : flatTypes? (ls ++ rs) = some [x, y]) :
    flatTypes? ls = some [x] ∧ flatTypes? rs = some [y] := by
  rw [flatTypes?_append] at h
  obtain ⟨xs, hxs, h⟩ := Option.bind_eq_some_iff.mp h
  obtain ⟨ys, hys, happend⟩ := Option.map_eq_some_iff.mp h
  rw [(flatTypes?_eq_some_iff.mp hxs).length_eq] at hl
  rw [(flatTypes?_eq_some_iff.mp hys).length_eq] at hr
  match xs, ys, happend with
  | [_], [_], rfl => exact ⟨hxs, hys⟩
  | _ :: _ :: _, [], _ => cases hr
  | _ :: _ :: _, _ :: _, happend => simp at happend

/-- The type of an optional typedef is an option of that without the mark, and an option of an
option is the same. -/
theorem flatType?_optional {t : Typedef} (name : String) (path : List Nat) :
    flatType? ⟨name, t.kind, true, t.args, path⟩ = (flatType? t).map fun e => e.asOption := by
  obtain ⟨name', kind, optional, args, path'⟩ := t
  rw [flatType?_mk, flatType?_mk, Option.map_map]
  cases optional with
  | true => simp [Function.comp_def, Expr.asOption_asOption]
  | false => rfl

mutual
/-- **The type from which a typedef is derived** is the one that is read off, if its options are
merged. -/
theorem Derives.flat_eq {e : Expr} {fallback : String} {path : List Nat} {t : Typedef} {x : Expr}
    (h : Derives e fallback path t) (hx : t.flatType? = some x) : e.mergeOptions.flat = x := by
  match h with
  | .struct hfields =>
    rw [flatType?_struct, flatFields?_numberFields, Option.map_eq_some_iff] at hx
    obtain ⟨xs, hxs, rfl⟩ := hx
    rw [Expr.flat_mergeOptions_pair, hfields.flat_eq hxs]
    rfl
  | .union hbranches =>
    rw [flatType?_mandatory] at hx
    obtain ⟨y, z, hyz, rfl⟩ := bind_flatType?_union hx
    rw [Expr.flat_mergeOptions_app (by decide) (by decide), hbranches.flat_eq hyz]
  | .option hinner =>
    rw [flatType?_optional, Option.map_eq_some_iff] at hx
    obtain ⟨y, hy, rfl⟩ := hx
    rw [Expr.flat_mergeOptions_option, hinner.flat_eq hy]
  | .leaf hkind =>
    rw [flatType?_mandatory] at hx
    exact flat_leaf hkind hx
  | .unary hc ht =>
    rw [flatType?_mandatory, flatTypes?_singleton, Option.bind_map, Option.bind_eq_some_iff] at hx
    obtain ⟨y, hy, hx⟩ := hx
    exact flat_unary hc (ht.flat_eq hy) hx
  | .binary hc ht hu =>
    rw [flatType?_mandatory, Option.bind_eq_some_iff] at hx
    obtain ⟨ys, hys, hx⟩ := hx
    obtain ⟨y, y', hy, hy', rfl⟩ := flatTypes?_pair hys
    exact flat_binary hc (ht.flat_eq hy) (hu.flat_eq hy') hx
/-- The components of a comb are those read off its fields. -/
theorem DerivesFields.flat_eq {args : List Expr} {path : List Nat} {ts : List Typedef}
    {xs : List Expr} (h : DerivesFields args path ts) (hxs : flatFields? ts = some xs) :
    (args.flatMap fun x => x.mergeOptions.flat.components) = xs := by
  match h with
  | .nest hx hs =>
    obtain ⟨y, ys, hy, hys, rfl⟩ := flatFields?_cons_eq_some_iff.mp hxs
    rw [List.flatMap_cons, List.flatMap_singleton, hx.flat_eq hy, Expr.flat_mergeOptions_pair,
      hs.flat_eq hys]
    rfl
  | .last _ hx hy =>
    rw [flatFields?, Option.map_eq_some_iff] at hxs
    obtain ⟨zs, hzs, rfl⟩ := hxs
    obtain ⟨x', y', hx', hy', rfl⟩ := flatTypes?_pair hzs
    rw [← hx.flat_eq hx', ← hy.flat_eq hy']
    rfl
  | .next hx hs =>
    obtain ⟨y, ys, hy, hys, rfl⟩ := flatFields?_cons_eq_some_iff.mp hxs
    rw [List.flatMap_cons, hx.flat_eq hy, hs.flat_eq hys]
/-- The sides of a nest of alternatives with two branches. -/
theorem DerivesBranches.flat_eq {first : String} {args : List Expr} {path : List Nat}
    {ts : List Typedef} {x y : Expr} (h : DerivesBranches first args path ts)
    (hxy : flatTypes? ts = some [x, y]) : (args.map fun x => x.mergeOptions.flat) = [x, y] := by
  match h with
  | .both hl hr =>
    obtain ⟨hx, hy⟩ := flatTypes?_append_eq_pair hl.one_le_length hr.one_le_length hxy
    rw [List.map_cons, List.map_singleton, hl.flat_eq hx, hr.flat_eq hy]
/-- A side of a nest of alternatives with one branch. -/
theorem DerivesSide.flat_eq {first : String} {e : Expr} {path : List Nat} {ts : List Typedef}
    {x : Expr} (h : DerivesSide first e path ts) (hx : flatTypes? ts = some [x]) :
    e.mergeOptions.flat = x := by
  match h with
  | .nest hs =>
    have hlength := (flatTypes?_eq_some_iff.mp hx).length_eq ▸ hs.two_le_length
    cases hlength with
    | step h => cases h
  | .one _ ht =>
    rw [flatTypes?_singleton, Option.map_eq_some_iff] at hx
    obtain ⟨y, hy, heq⟩ := hx
    cases heq
    exact ht.flat_eq hy
end

end Typedef

end Michelson

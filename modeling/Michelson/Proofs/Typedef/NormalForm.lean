import Michelson.Proofs.Typedef.Derivation
import Michelson.Proofs.Typedef.Numbering

/-!
# The normal form of a comb

The unfolded form of a derived typedef does not tell how the fields of a comb were grouped: by
pairs nested to the right, which are flattened when the typedef is derived, or by other pairs
without names, whose typedefs are replaced by what they hold afterwards. It is determined by the
types that are left when all such pairs are taken apart.

## Main definitions

* `Expr.frontier`: the types beneath the pairs without names of a comb
* `Typedef.normalForm`: the unfolded form, read off the type

## Main results

* `Typedef.Derives.normalize_eq`: the unfolded form of a derived typedef
* `Typedef.normalForm_pair`: the normal form of a comb in terms of its frontier
* `Typedef.strictEqual_unfold_of_frontier`: the groupings of a comb do not matter
-/

namespace Michelson

namespace Expr

/-- Whether a pair of the given annotations has no name of its own. -/
def isUnnamed (annots : List String) : Bool :=
  ((Expr.seq [] annots).label?.map isAnonymousName).getD true

mutual
/-- The types that are left when a pair without a name, and such pairs within it, are taken
apart. -/
def ungroup : Expr → List Expr
  | app (.type .pair) args annots flag =>
    if isUnnamed annots then ungroupAll args else [app (.type .pair) args annots flag]
  | e => [e]
/-- The types that are left when the pairs without names among these are taken apart. -/
def ungroupAll : List Expr → List Expr
  | [] => []
  | x :: xs => ungroup x ++ ungroupAll xs
end

/-- **The frontier of a comb**: the types beneath it when all pairs without names are taken
apart. -/
def frontier (e : Expr) : List Expr := ungroupAll e.children

end Expr

namespace Typedef

/-- The names that are given to the components of a type. -/
def componentNames (c : TypeConstructor) : List String :=
  match componentName? c, componentNames? c with
  | some name, _ => [name]
  | none, some (name, name') => [name, name']
  | none, none => []

mutual
/-- **The normal form of a type**: the unfolded form of its typedef, without paths. -/
def normalForm : Expr → String → Typedef
  | .app (.type .pair) args annots _, fallback =>
    ⟨nameOf annots fallback, .struct, false,
      numberFields (unnumber (inlineGroups (normalFields args))), []⟩
  | .app (.type .or) args annots _, fallback =>
    ⟨nameOf annots fallback, .union, false, normalBranches "@or_0" args, []⟩
  | .app (.type .option) [inner] annots _, fallback =>
    let t := normalForm inner (nameOf annots fallback)
    ⟨nameOf annots t.name, t.kind, true, t.args, []⟩
  | .app (.type c) args annots _, fallback =>
    ⟨nameOf annots fallback, (leafKind? c args).getD (.type c), false,
      normalComponents (componentNames c) args, []⟩
  | _, fallback => ⟨fallback, .type .unit, false, [], []⟩
/-- The normal forms of the arguments of a pair. -/
def normalFields : List Expr → List Typedef
  | [] => []
  | x :: xs => normalForm x "" :: normalFields xs
/-- The normal forms of the branches of a nest. -/
def normalBranches (first : String) : List Expr → List Typedef
  | [left, right] =>
    (match left with
      | .app (.type .or) args _ _ => normalBranches "@or_1" args
      | e => [normalForm e first]) ++
    (match right with
      | .app (.type .or) args _ _ => normalBranches "@or_1" args
      | e => [normalForm e "@or_1"])
  | _ => []
/-- The normal forms of the components of a type, with the names that are given to them. -/
def normalComponents : List String → List Expr → List Typedef
  | name :: names, x :: xs => normalForm x name :: normalComponents names xs
  | _, _ => []
end

/-- The normal forms of the branches on one side of a nest. -/
def normalSide (first : String) (e : Expr) : List Typedef :=
  match e with
  | .app (.type .or) args _ _ => normalBranches "@or_1" args
  | e => [normalForm e first]

theorem normalBranches_pair (first : String) (left right : Expr) :
    normalBranches first [left, right] =
      normalSide first left ++ normalSide "@or_1" right := by
  rw [normalBranches.eq_def]
  rfl

theorem normalSide_of_not_or {first : String} {e : Expr} (h : e.applies (.type .or) = false) :
    normalSide first e = [normalForm e first] := by
  unfold normalSide
  split
  · simp [Expr.applies, Expr.head?] at h
  · rfl

@[simp] theorem normalFields_eq_map (xs : List Expr) :
    normalFields xs = xs.map (normalForm · "") := by
  induction xs with
  | nil => rfl
  | cons x xs ih => simp [normalFields, ih]

theorem normalForm_type {c : TypeConstructor} {args : List Expr}
    (hc : c ≠ .pair ∧ c ≠ .or) (hoption : ∀ inner, args = [inner] → c ≠ .option)
    (annots : List String) (flag : Bool) (fallback : String) :
    normalForm (.app (.type c) args annots flag) fallback =
      ⟨nameOf annots fallback, (leafKind? c args).getD (.type c), false,
        normalComponents (componentNames c) args, []⟩ := by
  rw [normalForm]
  · exact hc.1
  · exact hc.2
  · exact hoption

/-- What a group holds has been numbered, so that it has names. -/
theorem name_ne_empty_of_isGroup {e : Expr} {fallback : String}
    (h : (normalForm e fallback).isGroup = true) :
    ∀ t ∈ (normalForm e fallback).args, t.name ≠ "" := by
  rw [isGroup, isStruct, Bool.and_eq_true, Bool.and_eq_true, beq_iff_eq, Bool.not_eq_true'] at h
  obtain ⟨⟨hkind, hoptional⟩, -⟩ := h
  rw [normalForm.eq_def] at hkind hoptional ⊢
  split at hkind
  · intro t ht
    exact name_ne_empty_of_mem_numberFields ht
  · cases hkind
  · cases hoptional
  next c args _ _ _ _ _ =>
    cases hleaf : leafKind? c args with
    | none =>
      rw [hleaf] at hkind
      cases hkind
    | some kind =>
      rw [hleaf] at hkind
      have hhead := head?_of_leafKind? hleaf
      rw [show kind = .struct from hkind] at hhead
      cases hhead
  · cases hkind

/-! ## Groups -/

section Groups

variable {args : List Expr} {annots : List String} {flag : Bool}

theorem isAnonymousName_nameOf (annots : List String) :
    isAnonymousName (nameOf annots "") = Expr.isUnnamed annots := by
  rw [nameOf, Expr.isUnnamed]
  cases (Expr.seq [] annots).label? <;> rfl

/-- A pair without a name stands for what its components hold. -/
theorem unnumber_inlineGroups_unnamed (h : Expr.isUnnamed annots = true) :
    unnumber (inlineGroups [normalForm (.app (.type .pair) args annots flag) ""]) =
      unnumber (inlineGroups (normalFields args)) := by
  rw [← isAnonymousName_nameOf] at h
  rw [normalForm, inlineGroups_cons, if_pos (by simp [isGroup, isStruct, isAnonymous, h])]
  rw [show inlineGroups [] = [] from rfl, List.append_nil, unnumber_numberFields,
    unnumber_unnumber]

/-- A pair with a name stands for itself. -/
theorem isGroup_named_pair (h : Expr.isUnnamed annots = false) :
    (normalForm (.app (.type .pair) args annots flag) "").isGroup = false := by
  rw [← isAnonymousName_nameOf] at h
  rw [normalForm]
  simp [isGroup, isAnonymous, h]

/-- A type that is no pair stands for itself. -/
theorem isGroup_of_not_pair {e : Expr} {fallback : String} (h : e.applies (.type .pair) = false) :
    (normalForm e fallback).isGroup = false := by
  rw [normalForm.eq_def]
  split
  · simp [Expr.applies, Expr.head?] at h
  · rfl
  · simp [isGroup]
  next c args annots flag _ _ _ =>
    cases hleaf : leafKind? c args with
    | none => rfl
    | some kind =>
      have hhead := head?_of_leafKind? hleaf
      have hkind : kind ≠ .struct := by
        rintro rfl
        cases hhead
      simp [isGroup, isStruct, hkind]
  · rfl

end Groups

/-! ## Derived typedefs -/

section Rules

variable {c : TypeConstructor} {args : List Expr} {annots : List String} {flag : Bool}
variable {fallback : String} {path : List Nat}

theorem normalize_leaf {kind : Kind} (h : leafKind? c args = some kind) :
    normalize ⟨nameOf annots fallback, kind, false, [], path⟩ =
      normalForm (.app (.type c) args annots flag) fallback := by
  have hhead := head?_of_leafKind? h
  have hcomponents : normalComponents (componentNames c) args = [] := by
    cases c <;> cases args <;> first | rfl | cases h
  rw [normalize_mk, if_neg (by rintro rfl; cases hhead), normalForm_type, h, hcomponents]
  · rfl
  · constructor <;> (rintro rfl; cases h)
  · rintro inner rfl rfl
    cases h

theorem normalize_unary {x : Expr} {t : Typedef} {name : String}
    (hc : componentName? c = some name) (hx : t.normalize = normalForm x name) :
    normalize ⟨nameOf annots fallback, .type c, false, [t], path⟩ =
      normalForm (.app (.type c) [x] annots flag) fallback := by
  have hcomponents : normalComponents (componentNames c) [x] = [normalForm x name] := by
    rw [componentNames, hc]
    rfl
  have hleaf : leafKind? c [x] = none := by cases c <;> first | rfl | cases hc
  rw [normalize_mk, if_neg (by simp), normalForm_type, hleaf, hcomponents, ← hx]
  · rfl
  · constructor <;> (rintro rfl; cases hc)
  · rintro inner - rfl
    cases hc

theorem normalize_binary {x y : Expr} {t u : Typedef} {name name' : String}
    (hc : componentNames? c = some (name, name')) (hx : t.normalize = normalForm x name)
    (hy : u.normalize = normalForm y name') :
    normalize ⟨nameOf annots fallback, .type c, false, [t, u], path⟩ =
      normalForm (.app (.type c) [x, y] annots flag) fallback := by
  have hnone : componentName? c = none := by cases c <;> first | rfl | cases hc
  have hcomponents :
      normalComponents (componentNames c) [x, y] = [normalForm x name, normalForm y name'] := by
    rw [componentNames, hnone, hc]
    rfl
  have hleaf : leafKind? c [x, y] = none := by cases c <;> first | rfl | cases hc
  rw [normalize_mk, if_neg (by simp), normalForm_type, hleaf, hcomponents, ← hx, ← hy]
  · rfl
  · constructor <;> (rintro rfl; cases hc)
  · rintro inner ⟨⟩

/-- Where the fields are normal forms, all that is listed in place of their groups has a name. -/
theorem normalize_struct {ts : List Typedef} {args : List Expr}
    (hforms : ∀ t ∈ ts, ∃ x, t.normalize = normalForm x "")
    (hheld : unnumber (inlineGroups (ts.map normalize)) =
      unnumber (inlineGroups (normalFields args))) :
    normalize ⟨nameOf annots fallback, .struct, false, numberFields ts, path⟩ =
      normalForm (.app (.type .pair) args annots flag) fallback := by
  have hnames : ∀ t ∈ inlineGroups (numberFields (ts.map normalize)), t.name ≠ "" := by
    intro t ht
    obtain ⟨u, hu, ht⟩ := List.mem_flatMap.mp ht
    split at ht
    next hgroup =>
      obtain ⟨field, hfield, i, rfl⟩ := exists_of_mem_numberFields hu
      obtain ⟨t', ht', rfl⟩ := List.mem_map.mp hfield
      obtain ⟨x, hx⟩ := hforms t' ht'
      rw [isGroup_named, hx] at hgroup
      rw [args_named, hx] at ht
      exact name_ne_empty_of_isGroup hgroup t ht
    next =>
      rw [List.mem_singleton.mp ht]
      exact name_ne_empty_of_mem_numberFields hu
  rw [normalize_mk, if_pos rfl, normalForm, map_numberFields normalize_rename,
    renumber_eq hnames, unnumber_inlineGroups_numberFields, hheld]

end Rules

mutual
/-- **The unfolded form of a derived typedef** is the normal form of the type. -/
theorem Derives.normalize_eq {e : Expr} {fallback : String} {path : List Nat} {t : Typedef}
    (h : Derives e fallback path t) : t.normalize = normalForm e fallback := by
  match h with
  | .struct hfields =>
    obtain ⟨hforms, hheld⟩ := hfields.unnumber_normalize_eq
    exact normalize_struct hforms hheld
  | .union hbranches =>
    rw [normalize_mk, if_neg (by simp), normalForm, hbranches.map_normalize_eq]
  | .option hinner =>
    rw [normalize_mk, normalForm, ← hinner.normalize_eq, normalize_eq]
  | .leaf hkind => exact normalize_leaf hkind
  | .unary hc hx => exact normalize_unary hc hx.normalize_eq
  | .binary hc hx hy => exact normalize_binary hc hx.normalize_eq hy.normalize_eq
/-- What the groups among the fields of a comb hold, names by position aside. -/
theorem DerivesFields.unnumber_normalize_eq {args : List Expr} {path : List Nat}
    {ts : List Typedef} (h : DerivesFields args path ts) :
    (∀ t ∈ ts, ∃ x, t.normalize = normalForm x "") ∧
      unnumber (inlineGroups (ts.map normalize)) =
        unnumber (inlineGroups (normalFields args)) := by
  match h with
  | .nest hx hs =>
    obtain ⟨hforms, hheld⟩ := hs.unnumber_normalize_eq
    rw [List.forall_mem_cons]
    refine ⟨⟨⟨_, hx.normalize_eq⟩, hforms⟩, ?_⟩
    rw [List.map_cons, hx.normalize_eq, normalFields, inlineGroups_cons, inlineGroups_cons,
      unnumber_append, unnumber_append, hheld, normalFields, normalFields,
      unnumber_inlineGroups_unnamed rfl]
  | .last _ hx hy =>
    rw [List.forall_mem_cons, List.forall_mem_singleton]
    refine ⟨⟨⟨_, hx.normalize_eq⟩, _, hy.normalize_eq⟩, ?_⟩
    rw [List.map_cons, List.map_singleton, hx.normalize_eq, hy.normalize_eq]
    rfl
  | .next hx hs =>
    obtain ⟨hforms, hheld⟩ := hs.unnumber_normalize_eq
    rw [List.forall_mem_cons]
    refine ⟨⟨⟨_, hx.normalize_eq⟩, hforms⟩, ?_⟩
    rw [List.map_cons, hx.normalize_eq, normalFields, inlineGroups_cons, inlineGroups_cons,
      unnumber_append, unnumber_append, hheld]
theorem DerivesBranches.map_normalize_eq {first : String} {args : List Expr} {path : List Nat}
    {ts : List Typedef} (h : DerivesBranches first args path ts) :
    ts.map normalize = normalBranches first args := by
  match h with
  | .both hl hr =>
    rw [List.map_append, hl.map_normalize_eq, hr.map_normalize_eq, normalBranches_pair]
theorem DerivesSide.map_normalize_eq {first : String} {e : Expr} {path : List Nat}
    {ts : List Typedef} (h : DerivesSide first e path ts) :
    ts.map normalize = normalSide first e := by
  match h with
  | .nest hs =>
    rw [hs.map_normalize_eq]
    rfl
  | .one hor hx =>
    rw [List.map_singleton, hx.normalize_eq, normalSide_of_not_or hor]
end

/-! ## Frontiers -/

theorem unnumber_inlineGroups_normalFields {xs : List Expr}
    (h : ∀ x ∈ xs, unnumber (inlineGroups [normalForm x ""]) =
      unnumber (x.ungroup.map (normalForm · ""))) :
    unnumber (inlineGroups (normalFields xs)) =
      unnumber ((Expr.ungroupAll xs).map (normalForm · "")) := by
  induction xs with
  | nil => rfl
  | cons x xs ih =>
    rw [List.forall_mem_cons] at h
    rw [normalFields, inlineGroups_cons, Expr.ungroupAll, List.map_append, unnumber_append,
      unnumber_append, ih h.2, ← h.1, inlineGroups_cons]
    simp [inlineGroups]

/-- What is left of a type when its groups are replaced by what they hold, and when its pairs
without names are taken apart, is the same. -/
theorem unnumber_inlineGroups_singleton (e : Expr) :
    unnumber (inlineGroups [normalForm e ""]) = unnumber (e.ungroup.map (normalForm · "")) := by
  have hsingle {e : Expr} (h : (normalForm e "").isGroup = false) :
      inlineGroups [normalForm e ""] = [normalForm e ""] := by
    simp [inlineGroups, h]
  -- Induction on the type: a pair without a name is a group, and stands for what its components
  -- stand for; all other types stand for themselves.
  induction e with
  | int | string | bytes | seq =>
    rw [hsingle (isGroup_of_not_pair rfl), Expr.ungroup] <;> simp
  | app p args annots flag ih =>
    by_cases hp : p = .type .pair
    · subst hp
      rw [Expr.ungroup]
      cases hname : Expr.isUnnamed annots with
      | true =>
        rw [if_pos rfl, unnumber_inlineGroups_unnamed hname]
        exact unnumber_inlineGroups_normalFields ih
      | false =>
        rw [if_neg (by simp), hsingle (isGroup_named_pair hname)]
        rfl
    · have hpair : (Expr.app p args annots flag).applies (.type .pair) = false := by
        simpa [Expr.applies, Expr.head?] using hp
      rw [hsingle (isGroup_of_not_pair hpair), Expr.ungroup.eq_def]
      split
      next heq =>
        cases heq
        exact absurd rfl hp
      next => rfl

/-- **The normal form of a comb** is determined by its frontier. -/
theorem normalForm_pair (args : List Expr) (annots : List String) (flag : Bool)
    (fallback : String) :
    normalForm (.app (.type .pair) args annots flag) fallback =
      ⟨nameOf annots fallback, .struct, false,
        numberFields (unnumber ((Expr.ungroupAll args).map (normalForm · ""))), []⟩ := by
  rw [normalForm,
    unnumber_inlineGroups_normalFields fun x _ => unnumber_inlineGroups_singleton x]

/-! ## Packed flags -/

theorem saplingKind_eq_of_sameAll (c : TypeConstructor) {xs ys : List Expr}
    (h : Expr.sameAll xs ys = true) : saplingKind c xs = saplingKind c ys := by
  match xs, ys with
  | [], [] => rfl
  | [x], [y] =>
    rw [Expr.sameAll, Bool.and_eq_true] at h
    cases x <;> cases y <;> simp_all [Expr.same, saplingKind]
  | x :: x' :: xs, y :: y' :: ys => simp [saplingKind]
  | [x], y :: y' :: ys | x :: x' :: xs, [y] => simp [Expr.sameAll] at h

theorem leafKind?_eq_of_sameAll (c : TypeConstructor) {xs ys : List Expr}
    (h : Expr.sameAll xs ys = true) : leafKind? c xs = leafKind? c ys := by
  match xs, ys with
  | [], [] => rfl
  | x :: xs, y :: ys =>
    cases c with
    | saplingState | saplingTransaction | saplingTransactionDeprecated =>
      exact congrArg some (saplingKind_eq_of_sameAll _ h)
    | _ => rfl

/-- Whether two types have the same normal forms, on their own and as branches. -/
def Agree (x y : Expr) : Prop :=
  (∀ fallback, normalForm x fallback = normalForm y fallback) ∧
    ∀ first, normalSide first x = normalSide first y

theorem forall₂_of_sameAll {xs ys : List Expr}
    (hxs : ∀ x ∈ xs, ∀ y, x.same y = true → Agree x y) (h : Expr.sameAll xs ys = true) :
    List.Forall₂ Agree xs ys := by
  induction xs generalizing ys with
  | nil =>
    cases ys with
    | nil => exact .nil
    | cons y ys => cases h
  | cons x xs ih =>
    cases ys with
    | nil => cases h
    | cons y ys =>
      rw [Expr.sameAll, Bool.and_eq_true] at h
      rw [List.forall_mem_cons] at hxs
      exact .cons (hxs.1 y h.1) (ih hxs.2 h.2)

section Agreement

variable {xs ys : List Expr}

theorem normalFields_congr (h : List.Forall₂ Agree xs ys) :
    normalFields xs = normalFields ys := by
  induction h with
  | nil => rfl
  | cons hx _ ih => rw [normalFields, normalFields, hx.1, ih]

theorem normalComponents_congr (h : List.Forall₂ Agree xs ys) (names : List String) :
    normalComponents names xs = normalComponents names ys := by
  induction h generalizing names with
  | nil => rfl
  | cons hx _ ih =>
    cases names with
    | nil => rfl
    | cons name names => rw [normalComponents, normalComponents, hx.1, ih]

theorem normalBranches_congr (h : List.Forall₂ Agree xs ys) (first : String) :
    normalBranches first xs = normalBranches first ys := by
  match h with
  | .nil => rfl
  | .cons _ .nil => rfl
  | .cons hl (.cons hr .nil) =>
    rw [normalBranches_pair, normalBranches_pair, hl.2, hr.2]
  | .cons _ (.cons _ (.cons _ _)) => rfl

/-- Types of one constructor agree if their arguments do. -/
theorem normalForm_congr (h : List.Forall₂ Agree xs ys) (hsame : Expr.sameAll xs ys = true)
    (p : Primitive) (annots : List String) (flag flag' : Bool) (fallback : String) :
    normalForm (.app p xs annots flag) fallback =
      normalForm (.app p ys annots flag') fallback := by
  cases p with
  | keyword | data | instruction => rfl
  | type c =>
    by_cases hc : c ≠ .pair ∧ c ≠ .or
    · by_cases hoption : c = .option
      · subst hoption
        match h with
        | .nil => rfl
        | .cons hx .nil => rw [normalForm, normalForm, hx.1]
        | .cons _ (.cons _ _) => rfl
      · rw [normalForm_type hc (fun _ _ => hoption), normalForm_type hc (fun _ _ => hoption),
          leafKind?_eq_of_sameAll c hsame, normalComponents_congr h]
    · rw [not_and_or, not_not, not_not] at hc
      rcases hc with rfl | rfl
      · rw [normalForm, normalForm, normalFields_congr h]
      · rw [normalForm, normalForm, normalBranches_congr h]

end Agreement

/-- The normal form does not depend on packed flags. -/
theorem agree_of_same {x y : Expr} (h : x.same y = true) : Agree x y := by
  -- Induction on the type for both parts at once: a nest of alternatives asks for the normal forms
  -- of its sides as branches, any other type for those of its arguments.
  induction x generalizing y with
  | int | string | bytes | seq =>
    cases y with
    | int | string | bytes | seq => exact ⟨fun _ => rfl, fun _ => rfl⟩
    | app => cases h
  | app p xs annots flag ih =>
    cases y with
    | int | string | bytes | seq => cases h
    | app q ys annots' flag' =>
      simp only [Expr.same, Bool.and_eq_true, beq_iff_eq] at h
      obtain ⟨⟨rfl, hargs⟩, rfl⟩ := h
      have hall := forall₂_of_sameAll (fun x hx y => ih x hx) hargs
      have hforms := normalForm_congr hall hargs p annots flag flag'
      refine ⟨hforms, fun first => ?_⟩
      by_cases hor : p = .type .or
      · subst hor
        exact normalBranches_congr hall "@or_1"
      · rw [normalSide_of_not_or (by simpa [Expr.applies, Expr.head?] using hor),
          normalSide_of_not_or (by simpa [Expr.applies, Expr.head?] using hor), hforms]

/-- **The groupings of a comb do not matter** once its typedef is unfolded: types of pairs with the
same label and the same frontier have strictly equal unfolded forms, under any name. -/
theorem strictEqual_unfold_of_frontier (a b : Expr) (ha : a.applies (.type .pair) = true)
    (hb : b.applies (.type .pair) = true) (hlabel : a.label? = b.label?)
    (hfrontier : Expr.sameAll a.frontier b.frontier = true) (name : String) (t u : Typedef)
    (ht : derive a name = .ok t) (hu : derive b name = .ok u) :
    t.unfold.strictEqual u.unfold = true := by
  obtain ⟨args, annots, flag, rfl⟩ := Expr.applies_iff.mp ha
  obtain ⟨args', annots', flag', rfl⟩ := Expr.applies_iff.mp hb
  have hforms := normalFields_congr (forall₂_of_sameAll (fun _ _ _ => agree_of_same) hfrontier)
  rw [normalFields_eq_map, normalFields_eq_map] at hforms
  have hname : nameOf annots name = nameOf annots' name :=
    congrArg (·.getD name) hlabel
  refine strictEqual_of_normalize_eq ?_
  rw [(derives_of_build _ _ _ _ ht).normalize_eq, (derives_of_build _ _ _ _ hu).normalize_eq]
  show normalForm (.app _ args annots flag) name = normalForm (.app _ args' annots' flag') name
  rw [normalForm_pair, normalForm_pair, hname]
  exact congrArg (fun ts => Typedef.mk _ _ _ (numberFields (unnumber ts)) []) hforms

/-- Four fields in two pairs, one of them with a generated name and the other packed. -/
def balancedComb : Expr :=
  .app (.type .pair)
    [.app (.type .pair) [.app (.type .nat) [] ["%amount"], .plainType .string] [":@first"],
      .app (.type .pair) [.plainType .bytes, .app (.type .int) [] ["%delta"]] [] true]

/-- The same four fields in one pair. -/
def flatComb : Expr :=
  .app (.type .pair)
    [.app (.type .nat) [] ["%amount"], .plainType .string, .plainType .bytes,
      .app (.type .int) [] ["%delta"]]

theorem strictEqual_unfold_of_frontier_balanced :
    Expr.sameAll balancedComb.frontier flatComb.frontier = true ∧
      ∃ t u, derive balancedComb "ledger" = .ok t ∧ derive flatComb "ledger" = .ok u ∧
        t.unfold.strictEqual u.unfold = true := by
  have hfrontier : Expr.sameAll balancedComb.frontier flatComb.frontier = true := by decide +kernel
  refine ⟨hfrontier, _, _, rfl, rfl, ?_⟩
  exact strictEqual_unfold_of_frontier balancedComb flatComb rfl rfl rfl hfrontier "ledger" _ _
    rfl rfl

end Typedef

end Michelson

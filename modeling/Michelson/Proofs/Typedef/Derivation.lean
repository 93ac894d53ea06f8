import Michelson.Proofs.Success
import Michelson.Typedef.Derive

/-!
# Rules of derivation

The typedef of a type, rule by rule: which part of the type describes which part of the typedef,
under which name and at which path. Statements about derived typedefs are proved by recursion on
these rules.

## Main definitions

* `Derives`: a type at a path has a typedef
* `DerivesFields`, `DerivesBranches`: the same for the fields of a comb and the branches of a nest
* `BranchesPart`: the ways from a union to its branches part

## Main results

* `derives_of_build`, `build_eq_ok_iff`: what is built follows the rules, and the other way round
* `Derives.path_eq`, `DerivesFields.isPrefix`, `DerivesSide.isPrefix`: where the parts lie
* `Derives.branchesPart`: the branches of a derived union
-/

namespace Michelson.Typedef

/-- The name of a component whose node has these annotations. -/
def nameOf (annots : List String) (fallback : String) : String :=
  (Expr.seq [] annots).label?.getD fallback

/-- The kind of a type that has no components of its own. -/
def leafKind? : TypeConstructor → List Expr → Option Kind
  | .saplingState, args => some (saplingKind .saplingState args)
  | .saplingTransaction, args => some (saplingKind .saplingTransaction args)
  | .saplingTransactionDeprecated, args => some (saplingKind .saplingTransactionDeprecated args)
  | .pair, _ | .or, _ | .map, _ | .bigMap, _ | .contract, _ | .ticket, _ => none
  | c, [] => some (.type c)
  | _, _ => none

/-- The name that is given to the component of a type with one. -/
def componentName? : TypeConstructor → Option String
  | .list | .set => some "@item"
  | .contract => some "0"
  | .ticket => some "@value"
  | _ => none

/-- The names that are given to the components of a type with two. -/
def componentNames? : TypeConstructor → Option (String × String)
  | .map | .bigMap => some ("@key", "@value")
  | .lambda => some ("@param", "@return")
  | _ => none

/-- Whether a type is a pair that goes on with the comb to the left of it. -/
def continuesComb : Expr → Bool
  | .app (.type .pair) _ [] false => true
  | _ => false

theorem exists_of_continuesComb {e : Expr} (h : continuesComb e = true) :
    ∃ args, e = .app (.type .pair) args [] false := by
  unfold continuesComb at h
  split at h
  · exact ⟨_, rfl⟩
  · cases h

mutual
/-- **The typedef of a type** that lies at a path, with a name to fall back on. -/
inductive Derives : Expr → String → List Nat → Typedef → Prop
  | struct {args annots flag fallback path fields} :
    DerivesFields args path fields →
    Derives (.app (.type .pair) args annots flag) fallback path
      ⟨nameOf annots fallback, .struct, false, numberFields fields, path⟩
  | union {args annots flag fallback path ts} :
    DerivesBranches "@or_0" args path ts →
    Derives (.app (.type .or) args annots flag) fallback path
      ⟨nameOf annots fallback, .union, false, ts, path⟩
  | option {inner annots flag fallback path t} :
    Derives inner (nameOf annots fallback) path t →
    Derives (.app (.type .option) [inner] annots flag) fallback path
      ⟨nameOf annots t.name, t.kind, true, t.args, path⟩
  | leaf {c args annots flag fallback path kind} :
    leafKind? c args = some kind →
    Derives (.app (.type c) args annots flag) fallback path
      ⟨nameOf annots fallback, kind, false, [], path⟩
  | unary {c x annots flag fallback path name t} :
    componentName? c = some name → Derives x name (path ++ [0]) t →
    Derives (.app (.type c) [x] annots flag) fallback path
      ⟨nameOf annots fallback, .type c, false, [t], path⟩
  | binary {c x y annots flag fallback path name name' t u} :
    componentNames? c = some (name, name') → Derives x name (path ++ [0]) t →
    Derives y name' (path ++ [1]) u →
    Derives (.app (.type c) [x, y] annots flag) fallback path
      ⟨nameOf annots fallback, .type c, false, [t, u], path⟩
/-- The fields of the comb of pairs whose arguments these are. -/
inductive DerivesFields : List Expr → List Nat → List Typedef → Prop
  | nest {x args path t ts} :
    Derives x "" (path ++ [0]) t → DerivesFields args (path ++ [1]) ts →
    DerivesFields [x, .app (.type .pair) args [] false] path (t :: ts)
  | last {x y path t u} :
    continuesComb y = false → Derives x "" (path ++ [0]) t → Derives y "" (path ++ [1]) u →
    DerivesFields [x, y] path [t, u]
  | next {x y z rest path t ts} :
    Derives x "" (path ++ [0]) t → DerivesFields (y :: z :: rest) (path ++ [1]) ts →
    DerivesFields (x :: y :: z :: rest) path (t :: ts)
/-- The branches of the nest of alternatives whose arguments these are. -/
inductive DerivesBranches : String → List Expr → List Nat → List Typedef → Prop
  | both {first left right path ls rs} :
    DerivesSide first left (path ++ [0]) ls → DerivesSide "@or_1" right (path ++ [1]) rs →
    DerivesBranches first [left, right] path (ls ++ rs)
/-- The branches on one side of a nest of alternatives. -/
inductive DerivesSide : String → Expr → List Nat → List Typedef → Prop
  | nest {first args annots flag path ts} :
    DerivesBranches "@or_1" args path ts →
    DerivesSide first (.app (.type .or) args annots flag) path ts
  | one {first e path t} :
    e.applies (.type .or) = false → Derives e first path t → DerivesSide first e path [t]
end

theorem head?_saplingKind (c : TypeConstructor) (args : List Expr) :
    (saplingKind c args).head? = some (.type c) := by
  unfold saplingKind
  split
  · split <;> rfl
  · rfl

theorem head?_of_leafKind? {c : TypeConstructor} {args : List Expr} {kind : Kind}
    (h : leafKind? c args = some kind) : kind.head? = some (.type c) := by
  unfold leafKind? at h
  split at h
  all_goals simp only [Option.some.injEq, reduceCtorEq] at h
  all_goals subst h
  · exact head?_saplingKind _ _
  · exact head?_saplingKind _ _
  · exact head?_saplingKind _ _
  · rfl

theorem nameOf_eq (p : Primitive) (args : List Expr) (annots : List String) (flag : Bool)
    (fallback : String) :
    (Expr.app p args annots flag).label?.getD fallback = nameOf annots fallback := rfl

/-- The branches that are built for one side of a nest of alternatives. -/
def sideBranches (first : String) (e : Expr) (path : List Nat) :
    Except TypeError (List Typedef) :=
  match e with
  | .app (.type .or) args _ _ => branches "@or_1" args path
  | e => (build e first path).map ([·])

theorem bind_sideBranches (first : String) (e : Expr) (path : List Nat)
    (next : List Typedef → Except TypeError (List Typedef)) :
    (match e with
      | .app (.type .or) args _ _ => branches "@or_1" args path >>= next
      | e => (build e first path).map ([·]) >>= next) = sideBranches first e path >>= next := by
  unfold sideBranches
  split <;> rfl

theorem branches_pair (first : String) (left right : Expr) (path : List Nat) :
    branches first [left, right] path =
      (do let ls ← sideBranches first left (path ++ [0])
          let rs ← sideBranches "@or_1" right (path ++ [1])
          return ls ++ rs) := by
  rw [branches.eq_def]
  refine (bind_sideBranches first left _ _).trans (bind_congr fun ls => ?_)
  exact bind_sideBranches "@or_1" right _ _

theorem sideBranches_eq_ok {first : String} {e : Expr} {path : List Nat} {ts : List Typedef}
    (h : sideBranches first e path = .ok ts) :
    (∃ args annots flag, e = .app (.type .or) args annots flag ∧
      branches "@or_1" args path = .ok ts) ∨
    (e.applies (.type .or) = false ∧ ∃ t, build e first path = .ok t ∧ ts = [t]) := by
  unfold sideBranches at h
  split at h
  · exact .inl ⟨_, _, _, rfl, h⟩
  next hor =>
    obtain ⟨t, ht, hts⟩ := map_eq_ok_iff.mp h
    refine .inr ⟨?_, t, ht, hts.symm⟩
    rw [← Bool.not_eq_true, Expr.applies_iff]
    rintro ⟨args, annots, flag, rfl⟩
    exact hor _ _ _ rfl

mutual
/-- The typedef that is built for a type follows the rules. -/
theorem derives_of_build (e : Expr) (fallback : String) (path : List Nat) (t : Typedef)
    (h : build e fallback path = .ok t) : Derives e fallback path t := by
  rw [build.eq_def] at h
  split at h
  next c args annots flag =>
    simp only [nameOf_eq] at h
    split at h
    all_goals simp only [bind_eq_ok_iff, pure_eq_ok_iff, Except.ok.injEq, reduceCtorEq] at h
    case h_1 =>
      obtain ⟨fields, hfields, rfl⟩ := h
      exact .struct (derivesFields_of_combFields _ _ _ hfields)
    case h_2 =>
      obtain ⟨ts, hts, rfl⟩ := h
      exact .union (derivesBranches_of_branches _ _ _ _ hts)
    case h_4 =>
      obtain ⟨inner, hinner, rfl⟩ := h
      exact .option (derives_of_build _ _ _ _ hinner)
    case h_3 | h_6 | h_9 | h_16 | h_23 | h_24 | h_25 =>
      subst h
      exact .leaf rfl
    case h_7 | h_10 | h_19 | h_21 =>
      obtain ⟨x, hx, rfl⟩ := h
      exact .unary rfl (derives_of_build _ _ _ _ hx)
    case h_12 | h_14 | h_17 =>
      obtain ⟨x, hx, y, hy, rfl⟩ := h
      exact .binary rfl (derives_of_build _ _ _ _ hx) (derives_of_build _ _ _ _ hy)
    case h_26 =>
      subst h
      exact .leaf (by cases c <;> first | rfl | contradiction)
  · cases h
termination_by (sizeOf e, 0)
theorem derivesFields_of_combFields (args : List Expr) (path : List Nat) (ts : List Typedef)
    (h : combFields args path = .ok ts) : DerivesFields args path ts := by
  rw [combFields.eq_def] at h
  split at h
  all_goals simp only [bind_eq_ok_iff, pure_eq_ok_iff, reduceCtorEq] at h
  case h_1 =>
    obtain ⟨t, ht, ts, hts, rfl⟩ := h
    exact .nest (derives_of_build _ _ _ _ ht) (derivesFields_of_combFields _ _ _ hts)
  case h_2 hcomb =>
    obtain ⟨t, ht, u, hu, rfl⟩ := h
    refine .last ?_ (derives_of_build _ _ _ _ ht) (derives_of_build _ _ _ _ hu)
    unfold continuesComb
    split
    · exact absurd rfl (hcomb _)
    · rfl
  case h_3 =>
    obtain ⟨t, ht, ts, hts, rfl⟩ := h
    exact .next (derives_of_build _ _ _ _ ht) (derivesFields_of_combFields _ _ _ hts)
termination_by (sizeOf args, 0)
theorem derivesBranches_of_branches (first : String) (args : List Expr) (path : List Nat)
    (ts : List Typedef) (h : branches first args path = .ok ts) :
    DerivesBranches first args path ts := by
  match args, h with
  | [left, right], h =>
    rw [branches_pair] at h
    simp only [bind_eq_ok_iff, pure_eq_ok_iff] at h
    obtain ⟨ls, hl, rs, hr, rfl⟩ := h
    exact .both (derivesSide_of_sideBranches _ _ _ _ hl) (derivesSide_of_sideBranches _ _ _ _ hr)
termination_by (sizeOf args, 0)
theorem derivesSide_of_sideBranches (first : String) (e : Expr) (path : List Nat)
    (ts : List Typedef) (h : sideBranches first e path = .ok ts) : DerivesSide first e path ts := by
  rcases sideBranches_eq_ok h with ⟨args, annots, flag, rfl, hargs⟩ | ⟨hor, t, ht, rfl⟩
  · exact .nest (derivesBranches_of_branches _ _ _ _ hargs)
  · exact .one hor (derives_of_build _ _ _ _ ht)
termination_by (sizeOf e, 1)
end

section Building

variable {c : TypeConstructor} {args : List Expr} {annots : List String} {flag : Bool}
variable {fallback : String} {path : List Nat}

theorem build_leaf {kind : Kind} (h : leafKind? c args = some kind) :
    build (.app (.type c) args annots flag) fallback path =
      .ok ⟨nameOf annots fallback, kind, false, [], path⟩ := by
  rw [build.eq_def]
  cases c <;> cases args <;> cases h <;> rfl

theorem build_unary {x : Expr} {name : String} {t : Typedef} (hc : componentName? c = some name)
    (hx : build x name (path ++ [0]) = .ok t) :
    build (.app (.type c) [x] annots flag) fallback path =
      .ok ⟨nameOf annots fallback, .type c, false, [t], path⟩ := by
  rw [build.eq_def]
  cases c <;> cases hc <;> simp only [hx] <;> rfl

theorem build_binary {x y : Expr} {name name' : String} {t u : Typedef}
    (hc : componentNames? c = some (name, name')) (hx : build x name (path ++ [0]) = .ok t)
    (hy : build y name' (path ++ [1]) = .ok u) :
    build (.app (.type c) [x, y] annots flag) fallback path =
      .ok ⟨nameOf annots fallback, .type c, false, [t, u], path⟩ := by
  rw [build.eq_def]
  cases c <;> cases hc <;> simp only [hx, hy] <;> rfl

end Building

mutual
/-- What the rules describe is built. -/
theorem Derives.build_eq {e : Expr} {fallback : String} {path : List Nat} {t : Typedef}
    (h : Derives e fallback path t) : build e fallback path = .ok t := by
  match h with
  | .struct hfields =>
    rw [build, hfields.combFields_eq]
    rfl
  | .union hbranches =>
    rw [build, hbranches.branches_eq]
    rfl
  | .option hinner =>
    rw [build, nameOf_eq, hinner.build_eq]
    rfl
  | .leaf hkind => exact build_leaf hkind
  | .unary hc hx => exact build_unary hc hx.build_eq
  | .binary hc hx hy => exact build_binary hc hx.build_eq hy.build_eq
theorem DerivesFields.combFields_eq {args : List Expr} {path : List Nat} {ts : List Typedef}
    (h : DerivesFields args path ts) : combFields args path = .ok ts := by
  match h with
  | .nest hx hs =>
    rw [combFields, hx.build_eq, hs.combFields_eq]
    rfl
  | .last hcomb hx hy =>
    rw [combFields, hx.build_eq, hy.build_eq]
    · rfl
    · rintro args rfl
      cases hcomb
  | .next hx hs =>
    rw [combFields, hx.build_eq, hs.combFields_eq]
    rfl
theorem DerivesBranches.branches_eq {first : String} {args : List Expr} {path : List Nat}
    {ts : List Typedef} (h : DerivesBranches first args path ts) :
    branches first args path = .ok ts := by
  match h with
  | .both hl hr =>
    rw [branches_pair, hl.sideBranches_eq, hr.sideBranches_eq]
    rfl
theorem DerivesSide.sideBranches_eq {first : String} {e : Expr} {path : List Nat}
    {ts : List Typedef} (h : DerivesSide first e path ts) :
    sideBranches first e path = .ok ts := by
  match h with
  | .nest hs => exact hs.branches_eq
  | .one hor hx =>
    unfold sideBranches
    split
    · cases hor
    · rw [hx.build_eq]
      rfl
end

/-- **The rules tell what is built**, and all of it. -/
theorem build_eq_ok_iff {e : Expr} {fallback : String} {path : List Nat} {t : Typedef} :
    build e fallback path = .ok t ↔ Derives e fallback path t :=
  ⟨derives_of_build e fallback path t, Derives.build_eq⟩

theorem Derives.path_eq {e : Expr} {fallback : String} {path : List Nat} {t : Typedef}
    (h : Derives e fallback path t) : t.path = path := by
  cases h <;> rfl

/-- The fields of a comb lie beneath it. -/
theorem DerivesFields.isPrefix {args : List Expr} {path : List Nat} {ts : List Typedef}
    (h : DerivesFields args path ts) : ∀ t ∈ ts, path <+: t.path := by
  match h with
  | .nest hx hs | .next hx hs =>
    rw [List.forall_mem_cons, hx.path_eq]
    exact ⟨List.prefix_append _ _, fun t ht => (List.prefix_append _ _).trans (hs.isPrefix t ht)⟩
  | .last _ hx hy =>
    rw [List.forall_mem_cons, List.forall_mem_singleton, hx.path_eq, hy.path_eq]
    exact ⟨List.prefix_append _ _, List.prefix_append _ _⟩

/-- A comb has at least two fields. -/
theorem DerivesFields.two_le_length {args : List Expr} {path : List Nat} {ts : List Typedef}
    (h : DerivesFields args path ts) : 2 ≤ ts.length := by
  match h with
  | .nest _ hs | .next _ hs =>
    have hrest := hs.two_le_length
    rw [List.length_cons]
    omega
  | .last _ _ _ => exact Nat.le_refl 2

mutual
/-- The branches of a nest lie beneath it. -/
theorem DerivesBranches.isPrefix {first : String} {args : List Expr} {path : List Nat}
    {ts : List Typedef} (h : DerivesBranches first args path ts) : ∀ t ∈ ts, path <+: t.path := by
  match h with
  | .both hl hr =>
    rw [List.forall_mem_append]
    exact ⟨fun t ht => (List.prefix_append _ _).trans (hl.isPrefix t ht),
      fun t ht => (List.prefix_append _ _).trans (hr.isPrefix t ht)⟩
/-- The branches on one side of a nest lie beneath it. -/
theorem DerivesSide.isPrefix {first : String} {e : Expr} {path : List Nat} {ts : List Typedef}
    (h : DerivesSide first e path ts) : ∀ t ∈ ts, path <+: t.path := by
  match h with
  | .nest hs => exact hs.isPrefix
  | .one _ hx =>
    have hself : path <+: path := List.prefix_rfl
    exact List.forall_mem_singleton.mpr (hx.path_eq.symm ▸ hself)
end

/-- The way from a path to what lies beneath one of its steps begins with that step. -/
theorem drop_of_isPrefix {path p : List Nat} {i : Nat} (h : path ++ [i] <+: p) :
    p.drop path.length = i :: p.drop (path ++ [i]).length := by
  obtain ⟨rest, rfl⟩ := h
  simp

/-! ## Ways to branches -/

/-- Whether the ways from a union to its branches part: of two branches the first lies to the left
and the second to the right, behind what the ways have in common. -/
def BranchesPart (t : Typedef) : Prop :=
  t.kind = .union → t.args.Pairwise fun a b => ∃ front rest rest',
    a.pathFrom t = front ++ 0 :: rest ∧ b.pathFrom t = front ++ 1 :: rest'

/-- What holds of every branch with itself, and of any two branches that part, holds of all. -/
theorem BranchesPart.forall_mem_args {t : Typedef} (h : t.BranchesPart) (hkind : t.kind = .union)
    {R : Typedef → Typedef → Prop} (hself : ∀ a ∈ t.args, R a a)
    (hpart : ∀ a b front rest rest', a.pathFrom t = front ++ 0 :: rest →
      b.pathFrom t = front ++ 1 :: rest' → R a b ∧ R b a) :
    ∀ a ∈ t.args, ∀ b ∈ t.args, R a b := by
  intro a ha b hb
  refine List.Pairwise.forall_of_forall_of_flip hself ((h hkind).imp ?_) ((h hkind).imp ?_) ha hb
  · rintro a b ⟨front, rest, rest', ha, hb⟩
    exact (hpart a b front rest rest' ha hb).1
  · rintro a b ⟨front, rest, rest', ha, hb⟩
    exact (hpart a b front rest rest' ha hb).2

mutual
theorem DerivesBranches.pairwise {first : String} {args : List Expr} {path : List Nat}
    {ts : List Typedef} (h : DerivesBranches first args path ts) :
    ts.Pairwise fun a b => ∃ front rest rest',
      a.path = path ++ front ++ 0 :: rest ∧ b.path = path ++ front ++ 1 :: rest' := by
  match h with
  | .both hl hr =>
    rw [List.pairwise_append]
    refine ⟨hl.pairwise, hr.pairwise, fun a ha b hb => ?_⟩
    obtain ⟨rest, ha⟩ := hl.isPrefix a ha
    obtain ⟨rest', hb⟩ := hr.isPrefix b hb
    exact ⟨[], rest, rest', by simp [← ha], by simp [← hb]⟩
theorem DerivesSide.pairwise {first : String} {e : Expr} {path : List Nat} {i : Nat}
    {ts : List Typedef} (h : DerivesSide first e (path ++ [i]) ts) :
    ts.Pairwise fun a b => ∃ front rest rest',
      a.path = path ++ front ++ 0 :: rest ∧ b.path = path ++ front ++ 1 :: rest' := by
  match h with
  | .nest hs => 
    refine hs.pairwise.imp ?_
    rintro a b ⟨front, rest, rest', ha, hb⟩
    exact ⟨i :: front, rest, rest', by simpa using ha, by simpa using hb⟩
  | .one _ _ => exact List.pairwise_singleton _ _
end

theorem Derives.branchesPart {e : Expr} {fallback : String} {path : List Nat} {t : Typedef}
    (h : Derives e fallback path t) : t.BranchesPart := by
  intro hkind
  match h with
  | .union hbranches =>
    refine hbranches.pairwise.imp ?_
    rintro a b ⟨front, rest, rest', ha, hb⟩
    refine ⟨front, rest, rest', ?_, ?_⟩
    · rw [pathFrom, ha, List.append_assoc, List.drop_left]
    · rw [pathFrom, hb, List.append_assoc, List.drop_left]
  | .option hinner =>
    have hparts := hinner.branchesPart hkind
    simp only [pathFrom, hinner.path_eq] at hparts ⊢
    exact hparts
  | .struct _ => cases hkind
  | .leaf hleaf =>
    cases hkind
    exact nomatch head?_of_leafKind? hleaf
  | .unary _ _ => cases hkind
  | .binary _ _ _ => cases hkind

end Michelson.Typedef

import Michelson.Proofs.Typedef.Derivation
import Michelson.Proofs.Typedef.Numbering

/-!
# Where the parts of a typedef lie

Every part of a derived typedef, however deep, describes the part of the type to which its path
leads: described anew under the name and at the path that it has, that part of the type gives
the same typedef again. For one level this is read off the rules of derivation; the levels are put
together by induction on the typedef.

## Main definitions

* `Expr.withoutOptions`, `Expr.typeAt?`: the part of a type at a path
* `Expr.Reaches`: the same between two paths from one root
* `Typedef.nodes`: all parts of a typedef

## Main results

* `Typedef.Derives.self_or_fallback`: where the name of a derived typedef comes from
* `Typedef.Derives.of_mem_args`: the direct parts of a derived typedef
* `Typedef.build_typeAt_of_mem_nodes`: all its parts
-/

namespace Michelson

/-! ## Paths in a type -/

namespace Expr

/-- What a type is an option of, after all options around it; any other type as it is. -/
def withoutOptions : Expr → Expr
  | .app (.type .option) [inner] _ _ => withoutOptions inner
  | e => e

/-- **The part of a type at a path.** Before each step options are entered, and longer pairs are
read as right combs. -/
def typeAt? (e : Expr) : List Nat → Option Expr
  | [] => some e
  | i :: path => (e.withoutOptions.combArg? i).bind (typeAt? · path)

/-- Whether the second type is the part of the first to which a path leads that goes on from the
path of the first. -/
def Reaches (e : Expr) (path : List Nat) (x : Expr) (path' : List Nat) : Prop :=
  ∃ steps, path' = path ++ steps ∧ e.typeAt? steps = some x

/-- Whether the second type is reached from the first by one step at least. -/
def ReachesBelow (e : Expr) (path : List Nat) (x : Expr) (path' : List Nat) : Prop :=
  ∃ i y, e.withoutOptions.combArg? i = some y ∧ y.Reaches (path ++ [i]) x path'

section Reaching

variable {e x y : Expr} {path path' path'' : List Nat}

theorem Reaches.refl (e : Expr) (path : List Nat) : e.Reaches path e path :=
  ⟨[], (List.append_nil path).symm, rfl⟩

theorem ReachesBelow.reaches (h : e.ReachesBelow path x path') : e.Reaches path x path' := by
  obtain ⟨i, y, hy, steps, rfl, hsteps⟩ := h
  refine ⟨i :: steps, by simp, ?_⟩
  rw [typeAt?, hy]
  exact hsteps

/-- A path is followed piece by piece. -/
theorem typeAt?_append (e : Expr) (path more : List Nat) :
    e.typeAt? (path ++ more) = (e.typeAt? path).bind (·.typeAt? more) := by
  induction path generalizing e with
  | nil => rfl
  | cons i path ih => cases h : e.withoutOptions.combArg? i <;> simp [typeAt?, h, ih]

theorem Reaches.trans (hx : e.Reaches path x path') (hy : x.Reaches path' y path'') :
    e.Reaches path y path'' := by
  obtain ⟨steps, rfl, hsteps⟩ := hx
  obtain ⟨more, rfl, hmore⟩ := hy
  refine ⟨steps ++ more, by simp, ?_⟩
  rw [typeAt?_append, hsteps]
  exact hmore

end Reaching

/-- A type with one argument that is no option leads to its argument. -/
theorem combArg?_zero_of_ne_option {c : TypeConstructor} (hc : c ≠ .option) {x : Expr}
    {annots : List String} {flag : Bool} :
    (app (.type c) [x] annots flag).withoutOptions.combArg? 0 = some x := by
  cases c <;> first | rfl | exact absurd rfl hc

end Expr

namespace Typedef

/-! ## The parts of a typedef -/

mutual
/-- **All parts of a typedef**, the typedef itself first. -/
def nodes : Typedef → List Typedef
  | ⟨name, kind, optional, args, path⟩ => ⟨name, kind, optional, args, path⟩ :: nodesAll args
/-- All parts of typedefs. -/
def nodesAll : List Typedef → List Typedef
  | [] => []
  | t :: ts => nodes t ++ nodesAll ts
end

theorem mem_nodesAll {ts : List Typedef} {d : Typedef} :
    d ∈ nodesAll ts ↔ ∃ t ∈ ts, d ∈ t.nodes := by
  induction ts with
  | nil => simp [nodesAll]
  | cons t ts ih => simp [nodesAll, ih]

theorem mem_nodes {t d : Typedef} : d ∈ t.nodes ↔ d = t ∨ ∃ arg ∈ t.args, d ∈ arg.nodes := by
  obtain ⟨name, kind, optional, args, path⟩ := t
  rw [nodes, List.mem_cons, mem_nodesAll]

/-- Induction over typedefs, with a hypothesis for every component. -/
theorem args_induction {motive : Typedef → Prop}
    (node : ∀ t : Typedef, (∀ arg ∈ t.args, motive arg) → motive t) (t : Typedef) : motive t :=
  @Typedef.rec motive (fun ts => ∀ t ∈ ts, motive t) (fun _ _ _ _ _ h => node _ h)
    (fun _ h => nomatch h) (fun _ _ ht hts => List.forall_mem_cons.mpr ⟨ht, hts⟩) t

/-! ## Names -/

theorem label?_ne_some_empty (e : Expr) : e.label? ≠ some "" := by
  have hannot (cls : AnnotClass) : e.annot? cls ≠ some "" := by
    simp [Expr.annot?, Option.filter_eq_some_iff]
  rw [Expr.label?]
  cases h : e.annot? .field with
  | none => simpa using hannot .type
  | some name => simpa [h] using hannot .field

/-- A node has a name of its own, or else that to which it falls back. -/
theorem nameOf_cases (annots : List String) :
    (∃ name ≠ "", ∀ fallback, nameOf annots fallback = name) ∨
      ∀ fallback, nameOf annots fallback = fallback := by
  have hempty := label?_ne_some_empty (.seq [] annots)
  unfold nameOf
  cases h : (Expr.seq [] annots).label? with
  | none => exact .inr fun _ => rfl
  | some name =>
    refine .inl ⟨name, ?_, fun _ => rfl⟩
    rintro rfl
    exact hempty h

/-- **Where a name comes from**: either the type has one, which does not depend on the fallback, or
the fallback is the name, whatever it is. -/
theorem Derives.self_or_fallback {e : Expr} {fallback : String} {path : List Nat} {t : Typedef}
    (h : Derives e fallback path t) :
    (t.name ≠ "" ∧ ∀ name, Derives e name path t) ∨
      (t.name = fallback ∧ ∀ name, Derives e name path { t with name := name }) := by
  have hnode {annots : List String} {kind : Kind} {args : List Typedef} {e : Expr}
      (hrule : ∀ name, Derives e name path ⟨nameOf annots name, kind, false, args, path⟩) :
      (nameOf annots fallback ≠ "" ∧
        ∀ name, Derives e name path ⟨nameOf annots fallback, kind, false, args, path⟩) ∨
      (nameOf annots fallback = fallback ∧
        ∀ name, Derives e name path ⟨name, kind, false, args, path⟩) := by
    rcases nameOf_cases annots with ⟨own, hown, hname⟩ | hname
    · refine .inl ⟨?_, fun name => ?_⟩
      · rw [hname]
        exact hown
      · rw [hname fallback, ← hname name]
        exact hrule name
    · refine .inr ⟨hname fallback, fun name => ?_⟩
      have h := hrule name
      rwa [hname] at h
  match h with
  | .struct hfields => exact hnode fun _ => .struct hfields
  | .union hbranches => exact hnode fun _ => .union hbranches
  | .leaf hkind => exact hnode fun _ => .leaf hkind
  | .unary hc hx => exact hnode fun _ => .unary hc hx
  | .binary hc hx hy => exact hnode fun _ => .binary hc hx hy
  | @Derives.option _ annots flag _ _ t hinner =>
    rcases nameOf_cases annots with ⟨own, hown, hname⟩ | hname
    · refine .inl ⟨?_, fun name => ?_⟩
      · show nameOf annots t.name ≠ ""
        rw [hname]
        exact hown
      · refine .option ?_
        rw [hname] at hinner ⊢
        exact hinner
    · rw [hname] at hinner
      rcases hinner.self_or_fallback with ⟨hne, hall⟩ | ⟨heq, hall⟩
      · refine .inl ⟨?_, fun name => .option ?_⟩
        · show nameOf annots t.name ≠ ""
          rw [hname]
          exact hne
        · rw [hname]
          exact hall name
      · refine .inr ⟨?_, fun name => ?_⟩
        · show nameOf annots t.name = fallback
          rw [hname]
          exact heq
        · have hinner' := hall name
          rw [← hname name] at hinner'
          have hopt := @Derives.option _ annots flag _ _ _ hinner'
          simpa [hname] using hopt

/-- Under its own name, the same typedef is derived. -/
theorem Derives.self {e : Expr} {fallback : String} {path : List Nat} {t : Typedef}
    (h : Derives e fallback path t) : Derives e t.name path t := by
  obtain ⟨name, kind, optional, args, path'⟩ := t
  rcases h.self_or_fallback with ⟨-, hall⟩ | ⟨-, hall⟩
  · exact hall name
  · exact hall name

/-- A field that is named by its position is derived under that name. -/
theorem Derives.self_named {e : Expr} {path : List Nat} {t : Typedef} (h : Derives e "" path t)
    (i : Nat) : Derives e (t.named i).name path (t.named i) := by
  obtain ⟨name, kind, optional, args, path'⟩ := t
  rcases h.self_or_fallback with ⟨hne, hall⟩ | ⟨heq, hall⟩
  · rw [named, if_neg hne]
    exact hall name
  · rw [named, if_pos heq]
    exact hall (toString i)

/-! ## One level -/

theorem ne_option_of_componentName? {c : TypeConstructor} {name : String}
    (h : componentName? c = some name) : c ≠ .option := by
  rintro rfl
  cases h

mutual
/-- **The direct parts of a derived typedef** are derived from what lies below the type, each at
its own path and under its own name. -/
theorem Derives.of_mem_args {e : Expr} {fallback : String} {path : List Nat} {t : Typedef}
    (h : Derives e fallback path t) :
    ∀ c ∈ t.args, ∃ x, e.ReachesBelow path x c.path ∧ Derives x c.name c.path c := by
  match h with
  | @Derives.struct _ annots flag _ _ _ hfields =>
    intro c hc
    obtain ⟨u, hu, i, rfl⟩ := exists_of_mem_numberFields hc
    obtain ⟨x, hreach, hder⟩ := hfields.of_mem annots flag u hu
    rw [path_named]
    exact ⟨x, hreach, hder.self_named i⟩
  | @Derives.union _ annots flag _ _ _ hbranches => exact hbranches.of_mem annots flag
  | .option hinner =>
    exact hinner.of_mem_args
  | .leaf _ => simp
  | .unary hc hx =>
    rw [List.forall_mem_singleton, hx.path_eq]
    have hoption := ne_option_of_componentName? hc
    exact ⟨_, ⟨0, _, Expr.combArg?_zero_of_ne_option hoption, .refl _ _⟩, hx.self⟩
  | @Derives.binary c _ _ _ _ _ _ _ _ _ _ _ hx hy =>
    rw [List.forall_mem_cons, List.forall_mem_singleton, hx.path_eq, hy.path_eq]
    exact ⟨⟨_, ⟨0, _, by cases c <;> rfl, .refl _ _⟩, hx.self⟩,
      ⟨_, ⟨1, _, by cases c <;> rfl, .refl _ _⟩, hy.self⟩⟩
/-- The fields of a comb are derived from what lies below the pair, each without a name. -/
theorem DerivesFields.of_mem {args : List Expr} {path : List Nat} {ts : List Typedef}
    (h : DerivesFields args path ts) (annots : List String) (flag : Bool) :
    ∀ c ∈ ts, ∃ x, (Expr.app (.type .pair) args annots flag).ReachesBelow path x c.path ∧
      Derives x "" c.path c := by
  match h with
  | .nest hx hs =>
    rw [List.forall_mem_cons, hx.path_eq]
    refine ⟨⟨_, ⟨0, _, rfl, .refl _ _⟩, hx⟩, fun c hc => ?_⟩
    obtain ⟨x, hreach, hder⟩ := hs.of_mem [] false c hc
    exact ⟨x, ⟨1, _, rfl, hreach.reaches⟩, hder⟩
  | .last _ hx hy =>
    rw [List.forall_mem_cons, List.forall_mem_singleton, hx.path_eq, hy.path_eq]
    exact ⟨⟨_, ⟨0, _, rfl, .refl _ _⟩, hx⟩, ⟨_, ⟨1, _, rfl, .refl _ _⟩, hy⟩⟩
  | .next hx hs =>
    rw [List.forall_mem_cons, hx.path_eq]
    refine ⟨⟨_, ⟨0, _, rfl, .refl _ _⟩, hx⟩, fun c hc => ?_⟩
    obtain ⟨x, hreach, hder⟩ := hs.of_mem [] false c hc
    exact ⟨x, ⟨1, _, rfl, hreach.reaches⟩, hder⟩
/-- The branches of a nest are derived from what lies below it. -/
theorem DerivesBranches.of_mem {first : String} {args : List Expr} {path : List Nat}
    {ts : List Typedef} (h : DerivesBranches first args path ts) (annots : List String)
    (flag : Bool) :
    ∀ c ∈ ts, ∃ x, (Expr.app (.type .or) args annots flag).ReachesBelow path x c.path ∧
      Derives x c.name c.path c := by
  match h with
  | .both hl hr =>
    rw [List.forall_mem_append]
    refine ⟨fun c hc => ?_, fun c hc => ?_⟩
    · obtain ⟨x, hreach, hder⟩ := hl.of_mem c hc
      exact ⟨x, ⟨0, _, rfl, hreach⟩, hder⟩
    · obtain ⟨x, hreach, hder⟩ := hr.of_mem c hc
      exact ⟨x, ⟨1, _, rfl, hreach⟩, hder⟩
/-- The branches on one side of a nest are derived from what the side leads to. -/
theorem DerivesSide.of_mem {first : String} {e : Expr} {path : List Nat} {ts : List Typedef}
    (h : DerivesSide first e path ts) :
    ∀ c ∈ ts, ∃ x, e.Reaches path x c.path ∧ Derives x c.name c.path c := by
  match h with
  | @DerivesSide.nest _ _ annots flag _ _ hs =>
    intro c hc
    obtain ⟨x, hreach, hder⟩ := hs.of_mem annots flag c hc
    exact ⟨x, hreach.reaches, hder⟩
  | .one _ hx =>
    rw [List.forall_mem_singleton, hx.path_eq]
    exact ⟨_, .refl _ _, hx.self⟩
end

/-! ## All levels -/

/-- All parts of a derived typedef are derived from what the type leads to, each at its own path and
under its own name. -/
theorem Derives.of_mem_nodes {e : Expr} {fallback : String} {path : List Nat} {t : Typedef}
    (h : Derives e fallback path t) :
    ∀ d ∈ t.nodes, ∃ x, e.Reaches path x d.path ∧ Derives x d.name d.path d := by
  -- Induction on the typedef for every type it may be derived from: a direct part is derived from
  -- a type below, and its parts are reached from there.
  induction t using args_induction generalizing e fallback path with
  | node t ih =>
    intro d hd
    rcases mem_nodes.mp hd with rfl | ⟨c, hc, hd⟩
    · rw [h.path_eq]
      exact ⟨e, .refl _ _, h.self⟩
    · obtain ⟨y, hreach, hy⟩ := h.of_mem_args c hc
      obtain ⟨x, hreach', hx⟩ := ih c hc hy d hd
      exact ⟨x, hreach.reaches.trans hreach', hx⟩

/-- **Every part of a derived typedef lies at its path**: that path leads from the type to a part of
it whose typedef, under the name and at the path of the part, is the part itself. -/
theorem build_typeAt_of_mem_nodes (e : Expr) (name : String) (t : Typedef)
    (h : derive e name = .ok t) :
    ∀ d ∈ t.nodes, ∃ x, (sectionType e).typeAt? d.path = some x ∧
      build x d.name d.path = .ok d := by
  intro d hd
  obtain ⟨x, ⟨steps, hpath, hsteps⟩, hx⟩ := (derives_of_build _ _ _ _ h).of_mem_nodes d hd
  rw [List.nil_append] at hpath
  exact ⟨x, hpath ▸ hsteps, hx.build_eq⟩

/-- A section of an option of alternatives; one of them is a map from numbers to lists of optional
structs. -/
def branchingSection : Expr :=
  .app (.keyword .parameter)
    [.app (.type .option)
      [.app (.type .or)
        [.app (.type .unit) [] ["%stop"],
          .app (.type .map)
            [.plainType .nat,
              .app (.type .list)
                [.app (.type .option)
                  [.app (.type .pair)
                    [.plainType .int, .app (.type .option) [.plainType .bytes] [],
                      .app (.type .string) [] ["%note"]]]
                  ["%entry"]]]
            ["%put"]]]]

/-- The bytes within the optional struct are the second field of a comb of three, two steps below
the struct. -/
theorem build_typeAt_of_mem_nodes_branching :
    ∃ t, derive branchingSection "main" = .ok t ∧
      (⟨"1", .type .bytes, true, [], [1, 1, 0, 1, 0]⟩ : Typedef) ∈ t.nodes ∧
      ∃ x, (sectionType branchingSection).typeAt? [1, 1, 0, 1, 0] = some x ∧
        build x "1" [1, 1, 0, 1, 0] = .ok ⟨"1", .type .bytes, true, [], [1, 1, 0, 1, 0]⟩ := by
  refine ⟨_, rfl, List.mem_of_getElem? (i := 7) rfl, ?_⟩
  exact build_typeAt_of_mem_nodes branchingSection "main" _ rfl
    ⟨"1", .type .bytes, true, [], [1, 1, 0, 1, 0]⟩ (List.mem_of_getElem? (i := 7) rfl)

end Typedef

end Michelson

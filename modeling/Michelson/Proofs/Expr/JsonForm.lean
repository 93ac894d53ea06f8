import Mathlib.Data.List.Nodup
import Michelson.Expr.Json
import Michelson.Expr.Walk
import Michelson.Proofs.Expr.Canonical
import Michelson.Proofs.Json.Levels
import Michelson.Proofs.Text.Spelling

/-!
# The JSON form read back

The JSON form of an expression leaves out the annotations of literals and sequences and the marks
of packed pairs; everything else is read back from it, in whatever order the members of an object
stand. An expression that was read from a document has no more levels than the document, so that it
is read back without any condition.

## Main definitions

* `Expr.jsonCanonical`: the expression as its JSON form tells it
* `Expr.AnnotatesApps`: expressions whose annotations survive the JSON form

## Main results

* `Expr.ofJson_toJson`: an expression is read back from its JSON form
* `Expr.ofJsonText_jsonText`: it is read back from its JSON text, if that has few enough levels
* `Expr.ofJson_eq_ok`: what is read has no more levels than what it is read from
* `Expr.json_round_trip`: all of that for values and documents
-/

namespace Michelson

namespace Primitive

/-- The bytes of a name as one number, by which names are told apart at little cost. -/
def nameNumber (p : Primitive) : Nat :=
  p.name.toByteArray.data.toList.foldl (fun n b => 256 * n + b.toNat) 0

/-- Whether numbers are different from one another. -/
def areDistinct : List Nat → Bool
  | n :: ns => ns.all (!n.beq ·) && areDistinct ns
  | [] => true

theorem nodup_of_areDistinct {ns : List Nat} (h : areDistinct ns = true) : ns.Nodup := by
  induction ns with
  | nil => exact List.nodup_nil
  | cons n ns ih =>
    rw [areDistinct, Bool.and_eq_true] at h
    refine List.nodup_cons.mpr ⟨fun hmem => ?_, ih h.2⟩
    simpa using List.all_eq_true.mp h.1 n hmem

theorem mem_all (p : Primitive) : p ∈ all := List.mem_of_getElem? (all_getElem?_tag p)

/-- Different primitives have different names. -/
theorem name_injective {p q : Primitive} (h : p.name = q.name) : p = q := by
  have hdistinct : areDistinct (all.map nameNumber) = true := by decide +kernel
  have hnumber : p.nameNumber = q.nameNumber := by rw [nameNumber, nameNumber, h]
  exact List.inj_on_of_nodup_map (nodup_of_areDistinct hdistinct) (mem_all p) (mem_all q) hnumber

/-- A primitive is found by its name. -/
theorem ofName?_name (p : Primitive) : ofName? p.name = some p := by
  rw [ofName?]
  cases hfind : all.find? (·.name == p.name) with
  | none => exact absurd (beq_self_eq_true p.name) (List.find?_eq_none.mp hfind p (mem_all p))
  | some q =>
    have hname : q.name = p.name := by simpa using List.find?_some hfind
    rw [name_injective hname]

end Primitive

namespace Expr

open Json (lookup?)

mutual
/-- **The expression as its JSON form tells it**: only applications have annotations, and none of
them is marked as packed. -/
def jsonCanonical : Expr → Expr
  | int n _ => int n
  | string s _ => string s
  | bytes b _ => bytes b
  | seq xs _ => seq (jsonCanonicalAll xs)
  | app p xs as _ => app p (jsonCanonicalAll xs) as
/-- The expressions as their JSON forms tell them. -/
def jsonCanonicalAll : List Expr → List Expr
  | [] => []
  | x :: xs => jsonCanonical x :: jsonCanonicalAll xs
end

@[simp] theorem jsonCanonicalAll_eq_map (xs : List Expr) :
    jsonCanonicalAll xs = xs.map jsonCanonical := by
  induction xs with
  | nil => rfl
  | cons x xs ih => rw [jsonCanonicalAll, ih, List.map_cons]

/-- **Whether only applications carry annotations**, so that all of them have a JSON form. -/
def AnnotatesApps (e : Expr) : Prop := ∀ node ∈ e.nodes, node.head? = none → node.annots = []

instance (e : Expr) : Decidable e.AnnotatesApps :=
  inferInstanceAs (Decidable (∀ node ∈ e.nodes, node.head? = none → node.annots = []))

theorem annotatesApps_seq_iff {xs : List Expr} {as : List String} :
    (seq xs as).AnnotatesApps ↔ as = [] ∧ ∀ x ∈ xs, x.AnnotatesApps := by
  rw [AnnotatesApps, forall_mem_nodes_iff]
  simp [head?, annots, children, AnnotatesApps]

theorem annotatesApps_app_iff {p : Primitive} {xs : List Expr} {as : List String} {flag : Bool} :
    (app p xs as flag).AnnotatesApps ↔ ∀ x ∈ xs, x.AnnotatesApps := by
  rw [AnnotatesApps, forall_mem_nodes_iff]
  simp [head?, children, AnnotatesApps]

/-- An expression is equal to what its JSON form tells, if all annotations have one. -/
theorem jsonCanonical_same {e : Expr} (h : e.AnnotatesApps) : same e.jsonCanonical e = true := by
  induction e with
  | int | string | bytes => simp_all [AnnotatesApps, head?, annots, jsonCanonical, same]
  | seq xs as ih =>
    rw [annotatesApps_seq_iff] at h
    have hxs := sameAll_map_of_forall fun x hx => ih x hx (h.2 x hx)
    simp [jsonCanonical, same, hxs, h.1]
  | app p xs as flag ih =>
    rw [annotatesApps_app_iff] at h
    have hxs := sameAll_map_of_forall fun x hx => ih x hx (h x hx)
    simp [jsonCanonical, same, hxs]

/-! ## The members of an application -/

@[simp] theorem toJsonAll_eq_map (xs : List Expr) : toJsonAll xs = xs.map toJson := by
  induction xs with
  | nil => rfl
  | cons x xs ih => rw [toJsonAll, ih, List.map_cons]

/-- The members of the object of an application. -/
def appMembers (p : Primitive) (args annots : List Json) : List (String × Json) :=
  ("prim", .string p.name) :: listMember "args" args ++ listMember "annots" annots

/-- The member with a list, if it is written. -/
def listMember? (items : List Json) : Option Json :=
  if items.isEmpty then none else some (.array items)

section Members

variable (p : Primitive) (args annots : List Json)

theorem nodup_appMembers : ((appMembers p args annots).map Prod.fst).Nodup := by
  cases args <;> cases annots <;> simp [appMembers, listMember]

theorem lookup?_appMembers :
    lookup? "int" (appMembers p args annots) = none ∧
    lookup? "string" (appMembers p args annots) = none ∧
    lookup? "bytes" (appMembers p args annots) = none ∧
    lookup? "prim" (appMembers p args annots) = some (.string p.name) ∧
    lookup? "args" (appMembers p args annots) = listMember? args ∧
    lookup? "annots" (appMembers p args annots) = listMember? annots := by
  cases args <;> cases annots <;> simp [appMembers, listMember, lookup?, listMember?]

end Members

/-- The arguments that a member `args` holds. A missing or null member holds none. -/
def argsOfJson (value : Json) : Option Json → Except DecodeError (List Expr)
  | none | some .null => .ok []
  | some (.array xs) => ofJsonAll xs
  | some _ => .error (.invalidJson .nonArrayArgs value)

theorem argsOfMembers_eq (value : Json) (members : List (String × Json)) :
    argsOfMembers value members = argsOfJson value (lookup? "args" members) := by
  induction members with
  | nil => rfl
  | cons m members ih =>
    obtain ⟨name, v⟩ := m
    by_cases hname : name = "args"
    · rw [lookup?, List.find?_cons_of_pos (by simp [hname])]
      cases v <;> simp [argsOfMembers, argsOfJson, hname]
    · rw [lookup?, List.find?_cons_of_neg (by simp [hname]), ← lookup?, ← ih]
      rw [argsOfMembers.eq_def]
      exact if_neg hname

theorem ofJsonAll_eq_mapM (xs : List Json) : ofJsonAll xs = xs.mapM ofJson := by
  induction xs with
  | nil => rfl
  | cons x xs ih => rw [ofJsonAll, ih, List.mapM_cons]

/-- An object is read as an application by its members, wherever they stand. -/
theorem ofJson_object_app {members : List (String × Json)} {p : Primitive} {xs : List Expr}
    {as : List String} (hliteral : literalOfMembers? members = none)
    (hprim : lookup? "prim" members = some (.string p.name))
    (hargs : argsOfJson (.object members) (lookup? "args" members) = .ok xs)
    (hannots : annotsOfJson (lookup? "annots" members) = .ok as) :
    ofJson (.object members) = .ok (app p xs as) := by
  rw [ofJson]
  simp only [hliteral, hprim, Primitive.ofName?_name, argsOfMembers_eq, hargs, hannots]
  rfl

/-- An object with a member of a literal is read as the literal. -/
theorem ofJson_object_literal {members : List (String × Json)} {e : Expr}
    (h : literalOfMembers? members = some (.ok e)) : ofJson (.object members) = .ok e := by
  rw [ofJson]
  simp only [h]
  rfl

theorem toJson_app (p : Primitive) (xs : List Expr) (as : List String) (flag : Bool) :
    toJson (app p xs as flag) = .object (appMembers p (xs.map toJson) (as.map .string)) := by
  rw [toJson, toJsonAll_eq_map]
  rfl

/-! ## Reading values back -/

section Rearranged

variable {f : Json → Json}

theorem ofJsonAll_rearranged {xs : List Expr}
    (h : ∀ x ∈ xs, ofJson (f x.toJson) = .ok x.jsonCanonical) :
    ofJsonAll ((xs.map toJson).map f) = .ok (xs.map jsonCanonical) := by
  rw [ofJsonAll_eq_mapM, mapM_eq_ok_iff, List.map_map, List.forall₂_map_left_iff,
    List.forall₂_map_right_iff, List.forall₂_same]
  exact h

variable (hf : Json.Rearranges f)

include hf

/-- A single member stays alone. -/
theorem lookup?_single (name : String) (v : Json) : ∃ members,
    f (.object [(name, v)]) = .object members ∧
      ∀ name', lookup? name' members = if name' = name then some (f v) else none := by
  obtain ⟨members, hmembers, hlookup⟩ := hf.object [(name, v)] (by simp)
  refine ⟨members, hmembers, fun name' => ?_⟩
  rw [hlookup, lookup?]
  by_cases hname : name' = name
  · simp [hname]
  · simp [hname, Ne.symm hname]

theorem argsOfJson_rearranged {value : Json} {xs : List Expr}
    (h : ∀ x ∈ xs, ofJson (f x.toJson) = .ok x.jsonCanonical) :
    argsOfJson value ((listMember? (xs.map toJson)).map f) = .ok (xs.map jsonCanonical) := by
  cases xs with
  | nil => rfl
  | cons x xs =>
    rw [listMember?, if_neg (by simp), Option.map_some, hf.array]
    exact ofJsonAll_rearranged h

theorem annotsOfJson_rearranged (as : List String) :
    annotsOfJson ((listMember? (as.map .string)).map f) = .ok as := by
  have hread : ((as.map Json.string).map f).mapM Json.string? = some as := by
    rw [List.map_map]
    induction as with
    | nil => rfl
    | cons a as ih =>
      rw [List.map_cons, List.mapM_cons, ih, Function.comp, hf.string]
      rfl
  cases as with
  | nil => rfl
  | cons a as =>
    rw [listMember?, if_neg (by simp), Option.map_some, hf.array, annotsOfJson, hread]

/-- **An expression is read back** from its JSON form, in whatever order the members stand. -/
theorem ofJson_toJson (e : Expr) : ofJson (f e.toJson) = .ok e.jsonCanonical := by
  induction e with
  | int n as =>
    obtain ⟨members, hmembers, hlookup⟩ := lookup?_single hf "int" (.string (toString n))
    rw [toJson, hmembers]
    refine ofJson_object_literal ?_
    simp only [literalOfMembers?, hlookup, if_pos, hf.string, intOfJson?,
      Text.readInteger?_toString, jsonCanonical]
  | string s as =>
    obtain ⟨members, hmembers, hlookup⟩ := lookup?_single hf "string" (.string s)
    rw [toJson, hmembers]
    refine ofJson_object_literal ?_
    simp [literalOfMembers?, hlookup, hf.string, jsonCanonical]
  | bytes b as =>
    obtain ⟨members, hmembers, hlookup⟩ :=
      lookup?_single hf "bytes" (.string (Text.Hex.encode b))
    rw [toJson, hmembers]
    refine ofJson_object_literal ?_
    simp [literalOfMembers?, hlookup, hf.string, Text.Hex.decode_encode, jsonCanonical]
  | seq xs as ih =>
    rw [toJson, toJsonAll_eq_map, hf.array, ofJson, ofJsonAll_rearranged ih, jsonCanonical,
      jsonCanonicalAll_eq_map]
    rfl
  | app p xs as flag ih =>
    obtain ⟨members, hmembers, hlookup⟩ := hf.object _ (nodup_appMembers p (xs.map toJson)
      (as.map .string))
    obtain ⟨hint, hstring, hbytes, hprim, hargs, hannots⟩ :=
      lookup?_appMembers p (xs.map toJson) (as.map .string)
    rw [toJson_app, hmembers, jsonCanonical, jsonCanonicalAll_eq_map]
    refine ofJson_object_app ?_ ?_ ?_ ?_
    · simp [literalOfMembers?, hlookup, hint, hstring, hbytes]
    · rw [hlookup, hprim, Option.map_some, hf.string]
    · rw [hlookup, hargs]
      exact argsOfJson_rearranged hf ih
    · rw [hlookup, hannots]
      exact annotsOfJson_rearranged hf as

end Rearranged

/-! ## Documents -/

theorem numberFree_listMember {name : String} {items : List Json}
    (h : ∀ item ∈ items, item.NumberFree) : ∀ m ∈ listMember name items, m.2.NumberFree := by
  rw [listMember]
  split
  · exact List.forall_mem_nil _
  · exact List.forall_mem_singleton.mpr (Json.numberFree_array_iff.mpr h)

/-- Integers are written as text, so that no number is. -/
theorem numberFree_toJson (e : Expr) : e.toJson.NumberFree := by
  induction e with
  | int | string | bytes =>
    exact Json.numberFree_object_iff.mpr (List.forall_mem_singleton.mpr trivial)
  | seq xs as ih =>
    rw [toJson, toJsonAll_eq_map, Json.numberFree_array_iff, List.forall_mem_map]
    exact ih
  | app p xs as flag ih =>
    rw [toJson_app, Json.numberFree_object_iff, appMembers, List.forall_mem_append,
      List.forall_mem_cons]
    refine ⟨⟨trivial, numberFree_listMember ?_⟩, numberFree_listMember ?_⟩
    · exact List.forall_mem_map.mpr ih
    · exact List.forall_mem_map.mpr fun _ _ => trivial

/-- **An expression is read back** from its JSON text, if that has few enough levels. -/
theorem ofJsonText_jsonText {e : Expr} (h : e.toJson.depth ≤ Json.maxLevels) :
    ofJsonText e.jsonText = .ok e.jsonCanonical := by
  rw [ofJsonText, jsonText, Json.parse?_compact (numberFree_toJson e) h]
  exact ofJson_toJson Json.rearranges_sorted e

/-! ## What is read -/

section Reading

variable {v : Json} {members : List (String × Json)} {e : Expr}

/-- The literal of an object has no annotations. -/
theorem literalOfMembers?_eq_ok (h : literalOfMembers? members = some (.ok e)) :
    e.isLiteral = true ∧ e.annots = [] := by
  unfold literalOfMembers? at h
  repeat' split at h
  all_goals
    cases h
    try exact ⟨rfl, rfl⟩

theorem argsOfJson_eq_ok {value : Json} {arg : Option Json} {xs : List Expr}
    (h : argsOfJson value arg = .ok xs) :
    xs = [] ∨ ∃ items, arg = some (.array items) ∧ ofJson (.array items) = .ok (seq xs) := by
  unfold argsOfJson at h
  split at h
  · cases h
    exact .inl rfl
  · cases h
    exact .inl rfl
  · next items =>
    refine .inr ⟨items, rfl, ?_⟩
    rw [ofJson, h]
    rfl
  · cases h

theorem annotsOfJson_eq_ok {annots : Option Json} {as : List String}
    (h : annotsOfJson annots = .ok as) : as = [] ∨ ∃ items, annots = some (.array items) := by
  unfold annotsOfJson at h
  split at h
  · cases h
    exact .inl rfl
  · cases h
    exact .inl rfl
  · exact .inr ⟨_, rfl⟩
  · cases h

/-- An object is read as a literal, or as an application of what its members say. -/
theorem ofJson_object_eq_ok (h : ofJson (.object members) = .ok e) :
    (e.isLiteral = true ∧ e.annots = []) ∨ ∃ p xs as, e = app p xs as ∧
      argsOfJson (.object members) (lookup? "args" members) = .ok xs ∧
      annotsOfJson (lookup? "annots" members) = .ok as := by
  rw [ofJson] at h
  dsimp only at h
  split at h
  · next literal hliteral =>
    cases literal with
    | ok e' =>
      cases h
      exact .inl (literalOfMembers?_eq_ok hliteral)
    | error flaw => cases h
  · split at h
    · next name hname =>
      split at h
      · next p hp =>
        rw [argsOfMembers_eq] at h
        obtain ⟨xs, hxs, h⟩ := bind_eq_ok_iff.mp h
        obtain ⟨as, has, h⟩ := bind_eq_ok_iff.mp h
        cases h
        refine .inr ⟨p, xs, as, rfl, hxs, ?_⟩
        cases hannots : annotsOfJson (lookup? "annots" members) with
        | ok as' =>
          rw [hannots] at has
          cases has
          rfl
        | error flaw =>
          rw [hannots] at has
          cases has
      · cases h
    · cases h

theorem depth_listMember_le {name : String} {items : List Json} {n : Nat}
    (h : items = [] ∨ (Json.array items).depth ≤ n) :
    ∀ m ∈ listMember name items, m.2.depth ≤ n := by
  rw [listMember]
  split
  · exact List.forall_mem_nil _
  · next hne =>
    refine List.forall_mem_singleton.mpr (h.resolve_left ?_)
    rintro rfl
    exact hne rfl

section ObjectMembers

theorem depth_member_le : ∀ m ∈ members, m.2.depth ≤ (Json.object members).depth - 1 :=
  (Json.depth_object_le_iff.mp (Nat.le_refl _)).2

/-- Arguments are read as the items of a sequence are, from the member that holds them. -/
theorem canonical_of_argsOfJson {value : Json} {xs : List Expr}
    (h : argsOfJson value (lookup? "args" members) = .ok xs)
    (hread : ∀ m ∈ members, ∀ e, ofJson m.2 = .ok e →
      e.jsonCanonical = e ∧ e.toJson.depth ≤ m.2.depth) :
    xs.map jsonCanonical = xs ∧ (xs.map toJson = [] ∨
      (Json.array (xs.map toJson)).depth ≤ (Json.object members).depth - 1) := by
  rcases argsOfJson_eq_ok h with rfl | ⟨items, hitems, hseq⟩
  · exact ⟨rfl, .inl rfl⟩
  · obtain ⟨m, hm, hitems⟩ := Json.exists_mem_of_lookup? hitems
    obtain ⟨hcanonical, hle⟩ := hread m hm _ (hitems ▸ hseq)
    rw [jsonCanonical, jsonCanonicalAll_eq_map] at hcanonical
    rw [toJson, toJsonAll_eq_map] at hle
    exact ⟨(Expr.seq.inj hcanonical).1, .inr (Nat.le_trans hle (depth_member_le m hm))⟩

/-- Annotations take the level of the member that holds them. -/
theorem depth_of_annotsOfJson {as : List String}
    (h : annotsOfJson (lookup? "annots" members) = .ok as) :
    as.map Json.string = [] ∨
      (Json.array (as.map .string)).depth ≤ (Json.object members).depth - 1 := by
  rcases annotsOfJson_eq_ok h with rfl | ⟨items, hitems⟩
  · exact .inl rfl
  · obtain ⟨m, hm, hitems⟩ := Json.exists_mem_of_lookup? hitems
    have hpos : 1 ≤ (Json.object members).depth - 1 := by
      refine Nat.le_trans ?_ (depth_member_le m hm)
      rw [hitems, Json.depth]
      omega
    refine .inr (Json.depth_array_le_iff.mpr ⟨hpos, ?_⟩)
    exact List.forall_mem_map.mpr fun _ _ => Nat.zero_le _

end ObjectMembers

theorem map_eq_self {f : Expr → Expr} {xs : List Expr} (h : ∀ x ∈ xs, f x = x) :
    xs.map f = xs :=
  (List.map_congr_left (g := id) h).trans (List.map_id xs)

/-- **What is read** is told by its JSON form as it is, and that has no more levels than what was
read. -/
theorem ofJson_eq_ok (h : ofJson v = .ok e) :
    e.jsonCanonical = e ∧ e.toJson.depth ≤ v.depth := by
  induction v generalizing e with
  | null | bool | number | string => cases h
  | array items ih =>
    rw [ofJson, ofJsonAll_eq_mapM] at h
    obtain ⟨xs, hxs, h⟩ := bind_eq_ok_iff.mp h
    cases h
    have hdepth : ∀ item ∈ items, item.depth ≤ (Json.array items).depth - 1 :=
      (Json.depth_array_le_iff.mp (Nat.le_refl _)).2
    have hread : ∀ x ∈ xs, x.jsonCanonical = x ∧ x.toJson.depth ≤ (Json.array items).depth - 1 :=
      forall_of_mapM_eq_ok hxs fun item hitem x hx =>
        ⟨(ih item hitem hx).1, Nat.le_trans (ih item hitem hx).2 (hdepth item hitem)⟩
    refine ⟨?_, ?_⟩
    · rw [jsonCanonical, jsonCanonicalAll_eq_map]
      exact congrArg (seq · []) (map_eq_self fun x hx => (hread x hx).1)
    · rw [toJson, toJsonAll_eq_map, Json.depth_array_le_iff, List.forall_mem_map]
      exact ⟨Nat.succ_pos _, fun x hx => (hread x hx).2⟩
  | object members ih =>
    rcases ofJson_object_eq_ok h with ⟨hliteral, hannots⟩ | ⟨p, xs, as, rfl, hargs, hannots⟩
    · cases e with
      | int | string | bytes =>
        refine ⟨by simp_all [jsonCanonical, annots], ?_⟩
        rw [toJson, Json.depth_object_le_iff]
        exact ⟨Nat.succ_pos _, List.forall_mem_singleton.mpr (Nat.zero_le _)⟩
      | seq | app => cases hliteral
    · obtain ⟨hcanonical, hxs⟩ := canonical_of_argsOfJson hargs fun m hm e he => ih m hm he
      have has := depth_of_annotsOfJson hannots
      refine ⟨?_, ?_⟩
      · rw [jsonCanonical, jsonCanonicalAll_eq_map, hcanonical]
      · rw [toJson_app, Json.depth_object_le_iff, appMembers, List.forall_mem_append,
          List.forall_mem_cons]
        exact ⟨Nat.succ_pos _, ⟨Nat.zero_le _, depth_listMember_le hxs⟩, depth_listMember_le has⟩

end Reading

/-- An expression in a document is the expression with the value of the document. -/
theorem ofJsonText_eq_ok_iff {text : String} {q : Expr} :
    ofJsonText text = .ok q ↔ ∃ v, Json.parse? Json.maxLevels text = some v ∧ ofJson v = .ok q := by
  rw [ofJsonText]
  cases Json.parse? Json.maxLevels text with
  | none => simp
  | some v => simp

/-- **The round trip of expressions through JSON.** An expression whose literals and sequences carry
no annotations is read back from its JSON value, with the members of objects as they are written or
sorted, and from its JSON text, if that has few enough levels. What is read from a document has no
more levels than the value of the document, and that no more than any limit that the document was
read within; so it is read back from its own text. -/
theorem json_round_trip :
    (∀ e : Expr, e.AnnotatesApps → ∃ p : Expr, (p == e) = true ∧
      ofJson e.toJson = .ok p ∧ ofJson e.toJson.sorted = .ok p ∧
      (e.toJson.depth ≤ Json.maxLevels → ofJsonText e.jsonText = .ok p)) ∧
    ∀ (text : String) (q : Expr), ofJsonText text = .ok q →
      (∀ levels v, Json.parse? levels text = some v →
        q.toJson.depth ≤ v.depth ∧ v.depth ≤ levels) ∧
      ofJsonText q.jsonText = .ok q := by
  refine ⟨fun e he => ?_, fun text q hq => ?_⟩
  · exact ⟨e.jsonCanonical, jsonCanonical_same he, ofJson_toJson Json.rearranges_id e,
      ofJson_toJson Json.rearranges_sorted e, ofJsonText_jsonText⟩
  · obtain ⟨v, hv, hread⟩ := ofJsonText_eq_ok_iff.mp hq
    obtain ⟨hcanonical, hle⟩ := ofJson_eq_ok hread
    constructor
    · intro levels w hw
      obtain rfl := Json.parse?_unique hv hw
      exact ⟨hle, Json.depth_le_of_parse? hw⟩
    · have hlevels : q.toJson.depth ≤ Json.maxLevels :=
        Nat.le_trans hle (Json.depth_le_of_parse? hv)
      rw [ofJsonText_jsonText hlevels, hcanonical]

/-- A pair that was read from packed bytes, with literals of every kind in it and with annotations
that have no plain form. -/
def annotatedPair : Expr :=
  .app (.data .pair)
    [.int (-1208925819614629174706176), .string "a \"quote\"\n", .bytes [0x00, 0xff],
      .seq [.app (.type .list) [.app (.type .unit) [] ["", "% two words"]]]] ["@v"] true

theorem json_round_trip_annotatedPair :
    annotatedPair.AnnotatesApps ∧ annotatedPair.toJson.depth ≤ Json.maxLevels ∧
    Json.parse? 7 annotatedPair.jsonText = some annotatedPair.toJson.sorted ∧
    ∃ p : Expr, (p == annotatedPair) = true ∧ ofJson annotatedPair.toJson = .ok p ∧
      ofJson annotatedPair.toJson.sorted = .ok p ∧ ofJsonText annotatedPair.jsonText = .ok p ∧
      p.toJson.depth ≤ 7 ∧ ofJsonText p.jsonText = .ok p := by
  have happs : annotatedPair.AnnotatesApps := by decide
  have hdepth : annotatedPair.toJson.depth ≤ 7 := by decide
  have hlevels : annotatedPair.toJson.depth ≤ Json.maxLevels := Nat.le_trans hdepth (by decide)
  have hparse := Json.parse?_compact (numberFree_toJson annotatedPair) hdepth
  obtain ⟨p, hsame, hvalue, hsorted, htext⟩ := json_round_trip.1 annotatedPair happs
  obtain ⟨hbounds, hagain⟩ := json_round_trip.2 _ p (htext hlevels)
  obtain ⟨hle, hle'⟩ := hbounds 7 _ hparse
  exact ⟨happs, hlevels, hparse, p, hsame, hvalue, hsorted, htext hlevels, Nat.le_trans hle hle',
    hagain⟩

end Expr

end Michelson

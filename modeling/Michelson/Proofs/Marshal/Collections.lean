import Mathlib.Data.List.Nodup
import Michelson.Proofs.Marshal.KeyOrder
import Michelson.Proofs.Marshal.MapForms

/-!
# Collections in the order of their keys

A set, a map or a big map is built item by item, and what is built is sorted by its keys, which are
the items of a set and the first components of entries. Sorted so, the items of a collection with a
comparable type of keys are the same as before and in order, and those with one key stand as they
were given. Items with one key are neither merged nor refused, though.

## Main definitions

* `Expr.keyType?`: the type of the keys of a collection
* `Typedef.Collects`: typedefs of collections
* `Typedef.marshalPart`, `Typedef.partKey`: one item of a collection, and its key

## Main results

* `Typedef.sorted_of_marshal`: collections are sorted
* `Typedef.ascending_iff_of_marshal`: those without repeated keys
* `Typedef.not_ascending_of_repeated_key`: a set with an item twice
-/

namespace Michelson

/-- **The type of the keys** of a set, a map or a big map, or of an option of one. The keys of a set
are its items. -/
def Expr.keyType? (e : Expr) : Option Expr :=
  match e.withoutOptions with
  | .app (.type .set) [key] _ _ | .app (.type .map) [key, _] _ _
  | .app (.type .bigMap) [key, _] _ _ => some key
  | _ => none

namespace Typedef

/-- **Whether a typedef is one of a collection** with keys that a typedef describes. -/
inductive Collects (key : Typedef) : Typedef → Prop
  | set {name optional path} : Collects key ⟨name, .type .set, optional, [key], path⟩
  | map {name optional value path} : Collects key ⟨name, .type .map, optional, [key, value], path⟩
  | bigMap {name optional value path} :
    Collects key ⟨name, .type .bigMap, optional, [key, value], path⟩

/-- **One item of a set or entry of a map**: what is built from the host value of it. -/
def marshalPart (form : ScalarForm) (t : Typedef) (host : Json) : Except MarshalError Expr :=
  match t.kind, t.args with
  | .type .set, item :: _ => item.marshal form host
  | _, keyType :: valueType :: _ => do
    let entry ← t.hostEntry host
    let key ← keyType.marshal form entry.1
    return .app (.data .elt) [key, ← valueType.marshal form entry.2]
  | _, _ => t.unsupported

/-- The key by which an item of a collection is sorted. -/
def partKey (t : Typedef) (part : Expr) : Expr :=
  if t.kind = .type .set then part else part.entryKey

/-- The items of a collection in the order of their keys, if they can be sorted. -/
def listParts? (t : Typedef) (parts : List Expr) : Option (List Expr) :=
  sort? (fun x y => (t.partKey x).precedes (t.partKey y)) parts

section Collections

variable {form : ScalarForm} {t key : Typedef} {value : Json} {hosts : List Json} {p : Expr}

theorem Collects.marshalHeld_array (h : Collects key t) :
    marshalHeld form t (.array hosts) =
      (do sortedSequence (t.listParts? (← hosts.mapM (marshalPart form t)))) := by
  cases h <;> rfl

/-- What is built from an array for a collection are the values of its items in order, if they can
be sorted. -/
theorem Collects.marshal_array (h : Collects key t) :
    t.marshal form (.array hosts) = do
      let e ← sortedSequence (t.listParts? (← hosts.mapM (marshalPart form t)))
      return if t.optional then .app (.data .some) [e] else e := by
  have hheld : t.marshal form (.array hosts) = do
      let e ← marshalHeld form t (.array hosts)
      return if t.optional then .app (.data .some) [e] else e := by
    rw [marshal_eq]
    cases t.optional <;> rfl
  rw [hheld, h.marshalHeld_array, bind_assoc]

theorem Collects.marshal_array_eq_ok_iff (h : Collects key t) :
    t.marshal form (.array hosts) = .ok p ↔
      ∃ items listed, hosts.mapM (marshalPart form t) = .ok items ∧
        t.listParts? items = some listed ∧
        p = if t.optional then .app (.data .some) [.seq listed] else .seq listed := by
  simp only [h.marshal_array, bind_eq_ok_iff, pure_eq_ok_iff, sortedSequence_eq_ok_iff]
  constructor
  · rintro ⟨items, hitems, _, ⟨listed, hlisted, rfl⟩, rfl⟩
    exact ⟨items, listed, hitems, hlisted, rfl⟩
  · rintro ⟨items, listed, hitems, hlisted, rfl⟩
    exact ⟨items, hitems, _, ⟨listed, hlisted, rfl⟩, rfl⟩

/-- The entries of an object are built as those of the array of its entries. An object is no set. -/
theorem Collects.marshal_hosts (h : Collects key t)
    (hhosts : (t.unwrapName value).asEntries = .array hosts)
    (hset : t.kind = .type .set → t.unwrapName value = .array hosts) :
    t.marshal form value = t.marshal form (.array hosts) := by
  have harray : t.unwrapName (.array hosts) = .array hosts := rfl
  cases hvalue : t.unwrapName value with
  | array items =>
    rw [hvalue] at hhosts
    cases hhosts
    exact marshal_congr (hvalue.trans harray.symm)
  | object members =>
    rw [hvalue, Json.asEntries] at hhosts
    rw [← hhosts]
    cases h with
    | map => exact marshal_ofEntries (.inl rfl) hvalue
    | bigMap => exact marshal_ofEntries (.inr rfl) hvalue
    | set => cases hvalue.symm.trans (hset rfl)
  | null | bool _ | number _ | string _ =>
    rw [hvalue] at hhosts
    cases hhosts

theorem Collects.unwrapName_eq_array (h : Collects key t) (hkind : t.kind = .type .set)
    (hhosts : (t.unwrapName value).asEntries = .array hosts) (hp : t.marshal form value = .ok p) :
    t.unwrapName value = .array hosts := by
  cases hvalue : t.unwrapName value with
  | array items =>
    rw [hvalue] at hhosts
    exact hhosts
  | object members =>
    cases h with
    | map | bigMap => cases hkind
    | @set _ optional _ =>
      rw [marshal_eq, hvalue] at hp
      cases optional <;> cases hp
  | null | bool _ | number _ | string _ =>
    rw [hvalue] at hhosts
    cases hhosts

theorem Collects.marshal_array_of_ok (h : Collects key t)
    (hhosts : (t.unwrapName value).asEntries = .array hosts) (hp : t.marshal form value = .ok p) :
    t.marshal form (.array hosts) = .ok p :=
  (h.marshal_hosts hhosts fun hkind => h.unwrapName_eq_array hkind hhosts hp).symm.trans hp

/-- What an optional typedef holds is told by its value. -/
theorem eq_of_held_eq {optional : Bool} {x y : Expr}
    (h : (if optional then Expr.app (.data .some) [x] else x) =
      if optional then .app (.data .some) [y] else y) : x = y := by
  cases optional with
  | true => exact (List.cons.inj (Expr.app.inj h).2.1).1
  | false => exact h

/-- The host value of a collection that is built as a sequence is an array or an object. -/
theorem Collects.exists_hosts_of_held (h : Collects key t) {xs : List Expr}
    (hp : marshalHeld form t value = .ok (.seq xs)) : ∃ hosts, value.asEntries = .array hosts := by
  cases value with
  | array items => exact ⟨items, rfl⟩
  | object members => exact ⟨_, rfl⟩
  | null | bool _ | string _ => cases h <;> cases hp
  | number n =>
    cases h with
    | set | map => cases hp
    | bigMap =>
      obtain ⟨n, hn⟩ := hostInteger_eq_ok hp
      cases hn

theorem Collects.exists_hosts (h : Collects key t) {listed : List Expr}
    (hp : t.marshal form value =
      .ok (if t.optional then .app (.data .some) [.seq listed] else .seq listed)) :
    ∃ hosts, (t.unwrapName value).asEntries = .array hosts := by
  rcases marshal_eq_ok hp with ⟨hsome, hnone⟩ | ⟨e, he, hheld⟩
  · rw [if_pos hsome] at hnone
    cases hnone
  · obtain rfl := eq_of_held_eq hheld
    exact h.exists_hosts_of_held he

/-- The key of an item is built for the typedef of the keys. -/
theorem Collects.exists_of_marshalPart (h : Collects key t) {host : Json} {x : Expr}
    (hx : marshalPart form t host = .ok x) : ∃ v, key.marshal form v = .ok (t.partKey x) := by
  cases h with
  | set => exact ⟨host, hx⟩
  | map | bigMap =>
    simp only [marshalPart, bind_eq_ok_iff, pure_eq_ok_iff] at hx
    obtain ⟨entry, -, k, hk, w, -, rfl⟩ := hx
    exact ⟨entry.1, hk⟩

/-- The items of a collection have keys that are ordered. -/
theorem Collects.ranked (h : Collects key t) (hkey : RanksValues form key) {items : List Expr}
    (hitems : hosts.mapM (marshalPart form t) = .ok items) :
    ∀ x ∈ items, ∀ y ∈ items, (t.partKey x).Ranked (t.partKey y) := by
  intro x hx y hy
  obtain ⟨host, hhost⟩ := exists_of_mapM_eq_ok hitems x hx
  obtain ⟨host', hhost'⟩ := exists_of_mapM_eq_ok hitems y hy
  obtain ⟨v, hv⟩ := h.exists_of_marshalPart hhost
  obtain ⟨w, hw⟩ := h.exists_of_marshalPart hhost'
  exact hkey v w _ _ hv hw

end Collections

/-- The collections among derived typedefs are those of types with keys. -/
theorem Derives.exists_collects {type keyType : Expr} {fallback : String} {path : List Nat}
    {t : Typedef} (h : Derives type fallback path t) (hkey : type.keyType? = some keyType) :
    ∃ key fallback' path', Collects key t ∧ Derives keyType fallback' path' key := by
  match h with
  | .struct _ | .union _ => cases hkey
  | .option hinner =>
    obtain ⟨key, fallback', path', hcollects, hder⟩ := hinner.exists_collects hkey
    refine ⟨key, fallback', path', ?_, hder⟩
    cases hcollects with
    | set => exact .set
    | map => exact .map
    | bigMap => exact .bigMap
  | @Derives.leaf c args _ _ _ _ _ hkind =>
    cases c <;> cases args <;> first | cases hkey | cases hkind
  | @Derives.unary c _ _ _ _ _ _ _ hc hx =>
    cases c <;> cases hc <;> cases hkey
    exact ⟨_, _, _, .set, hx⟩
  | @Derives.binary c _ _ _ _ _ _ _ _ _ _ hc hx _ =>
    cases c <;> cases hc <;> cases hkey
    · exact ⟨_, _, _, .map, hx⟩
    · exact ⟨_, _, _, .bigMap, hx⟩

section Listed

variable {t : Typedef} {items : List Expr}
  (hranked : ∀ x ∈ items, ∀ y ∈ items, (t.partKey x).Ranked (t.partKey y))

include hranked

/-- Items with keys that are ordered can be sorted. -/
theorem listParts?_eq_some : t.listParts? items =
    some (sortStably (fun x y => (t.partKey x).precedes (t.partKey y)) items) :=
  sort?_eq_some_sortStably (Expr.ordersStrictly_of_ranked hranked)

/-- Items of which no two have one key are sorted alike however they are given. -/
theorem listParts?_eq_of_perm (hkeys : (items.map t.partKey).Nodup) {items' : List Expr}
    (hperm : items'.Perm items) : t.listParts? items' = t.listParts? items := by
  rw [listParts?_eq_some hranked, listParts?_eq_some fun x hx y hy =>
    hranked x (hperm.mem_iff.mp hx) y (hperm.mem_iff.mp hy)]
  refine congrArg some (sortStably_eq_of_perm (Expr.ordersStrictly_of_ranked hranked) hperm ?_)
  intro x hx y hy hxy hyx
  exact List.inj_on_of_nodup_map hkeys hx hy ((hranked x hx y hy).eq_of_precedes_eq_false hxy hyx)

variable {listed : List Expr} (hlisted : t.listParts? items = some listed)

include hlisted

theorem pairwise_listed :
    (listed.map t.partKey).Pairwise fun k k' =>
      k.compareValues? k' = some .lt ∨ k.compareValues? k' = some .eq := by
  cases hlisted.symm.trans (listParts?_eq_some hranked)
  rw [List.pairwise_map]
  refine (pairwise_sortStably (Expr.ordersStrictly_of_ranked hranked)).imp_of_mem ?_
  intro x y hx hy hxy
  exact (hranked y (mem_sortStably.mp hy) x (mem_sortStably.mp hx)).precedes_eq_false_iff.mp hxy

theorem filter_listed (k : Expr) :
    listed.filter (fun x => k.compareValues? (t.partKey x) == some .eq) =
      items.filter (fun x => k.compareValues? (t.partKey x) == some .eq) := by
  cases hlisted.symm.trans (listParts?_eq_some hranked)
  refine filter_sortStably fun x _ y _ hx hy => ?_
  exact Expr.precedes_eq_false_of_level (by simpa using hx) (by simpa using hy)

/-- The keys of sorted items ascend strictly just if no two items have one key. -/
theorem pairwise_lt_listed_iff :
    (listed.map t.partKey).Pairwise (fun k k' => k.compareValues? k' = some .lt) ↔
      (items.map t.partKey).Nodup := by
  have hperm : (listed.map t.partKey).Perm (items.map t.partKey) := (sort?_perm hlisted).map _
  rw [← hperm.nodup_iff]
  constructor
  · refine List.Pairwise.imp fun hlt => ?_
    rintro rfl
    exact Expr.compareValues?_self_ne_lt _ hlt
  · intro hkeys
    refine ((pairwise_listed hranked hlisted).and hkeys).imp_of_mem fun {k k'} hk hk' h => ?_
    obtain ⟨x, hx, rfl⟩ := List.mem_map.mp (hperm.mem_iff.mp hk)
    obtain ⟨y, hy, rfl⟩ := List.mem_map.mp (hperm.mem_iff.mp hk')
    refine h.1.resolve_right fun heq => h.2 ?_
    obtain ⟨o, ho, hsame⟩ := hranked x hx y hy
    exact hsame (Option.some.inj (ho.symm.trans heq))

end Listed

/-- **Collections are sorted by their keys.** For a set, a map or a big map with comparable keys,
what is built from an array or an object lists what is built from its items one by one: all of it,
in the order of the keys, and where keys are level as it was given. If no two items have one key,
the items of an array in any other order are built into the same. -/
theorem sorted_of_marshal (type keyType : Expr) (hkey : type.keyType? = some keyType)
    (hcomparable : keyType.IsComparable) (fallback : String) (path : List Nat) (t : Typedef)
    (hbuild : build type fallback path = .ok t) (form : ScalarForm) (value : Json)
    (hosts : List Json) (hhosts : (t.unwrapName value).asEntries = .array hosts) (p : Expr)
    (hp : t.marshal form value = .ok p) :
    ∃ items listed, hosts.mapM (marshalPart form t) = .ok items ∧
      p = (if t.optional then .app (.data .some) [.seq listed] else .seq listed) ∧
      listed.Perm items ∧
      (listed.map t.partKey).Pairwise (fun k k' =>
        k.compareValues? k' = some .lt ∨ k.compareValues? k' = some .eq) ∧
      (∀ k : Expr, listed.filter (fun x => k.compareValues? (t.partKey x) == some .eq) =
        items.filter (fun x => k.compareValues? (t.partKey x) == some .eq)) ∧
      ((items.map t.partKey).Nodup → ∀ value' hosts', hosts'.Perm hosts →
        t.unwrapName value' = .array hosts' → t.marshal form value' = .ok p) := by
  obtain ⟨key, fallback', path', hcollects, hder⟩ :=
    (derives_of_build _ _ _ _ hbuild).exists_collects hkey
  obtain ⟨items, listed, hitems, hlisted, rfl⟩ :=
    hcollects.marshal_array_eq_ok_iff.mp (hcollects.marshal_array_of_ok hhosts hp)
  have hranked := hcollects.ranked (hder.ranksValues hcomparable form) hitems
  refine ⟨items, listed, hitems, rfl, sort?_perm hlisted, pairwise_listed hranked hlisted,
    filter_listed hranked hlisted, ?_⟩
  intro hkeys value' hosts' hperm hvalue'
  obtain ⟨items', hitems', hperm'⟩ := exists_mapM_eq_ok_of_perm hperm hitems
  rw [← listParts?_eq_of_perm hranked hkeys hperm'] at hlisted
  have harray : t.unwrapName (.array hosts') = .array hosts' := rfl
  rw [marshal_congr (hvalue'.trans harray.symm)]
  exact hcollects.marshal_array_eq_ok_iff.mpr ⟨items', listed, hitems', hlisted, rfl⟩

/-- An account that is known by a number, which may be left out, or by a flag. -/
def accountType : Expr :=
  .app (.type .or)
    [.app (.type .option) [.plainType .nat] ["%number"], .app (.type .bool) [] ["%flag"]]

/-- Three accounts, the last of them first. -/
def accounts : List Json :=
  [.object [("flag", .bool true)], .object [("number", .number (.integer 7))],
    .object [("number", .null)]]

theorem isComparable_accountType : accountType.IsComparable :=
  .or (.option (Expr.isComparable_plainType (by decide))) (.scalar (by decide))

theorem sorted_of_marshal_accounts :
    (Expr.app (.type .set) [accountType]).keyType? = some accountType ∧
      accountType.IsComparable ∧ ∃ t p,
        build (.app (.type .set) [accountType]) "accounts" [] = .ok t ∧
        (t.unwrapName (.array accounts)).asEntries = .array accounts ∧
        t.marshal .readable (.array accounts) = .ok p ∧
        t.marshal .readable (.array accounts.reverse) = .ok p := by
  refine ⟨rfl, isComparable_accountType, _, _, rfl, rfl, rfl, ?_⟩
  obtain ⟨items, -, hitems, -, -, -, -, hperm⟩ :=
    sorted_of_marshal (.app (.type .set) [accountType]) accountType rfl isComparable_accountType
      "accounts" [] _ rfl .readable (.array accounts) accounts rfl _ rfl
  cases hitems
  have hkeys : [Expr.app (.data .right) [boolExpr true],
      .app (.data .left) [.app (.data .some) [.int 7]],
      .app (.data .left) [.app (.data .none) []]].Nodup := by
    simp
  exact hperm hkeys _ _ (List.reverse_perm accounts) rfl

/-- **Keys ascend strictly just if none is repeated.** What is built as a sequence for a set, a map
or a big map has all the keys that are built from its items, so it has one twice if two items do. -/
theorem ascending_iff_of_marshal (type keyType : Expr) (hkey : type.keyType? = some keyType)
    (hcomparable : keyType.IsComparable) (fallback : String) (path : List Nat) (t : Typedef)
    (hbuild : build type fallback path = .ok t) (form : ScalarForm) (value : Json)
    (listed : List Expr)
    (hp : t.marshal form value =
      .ok (if t.optional then .app (.data .some) [.seq listed] else .seq listed)) :
    ∃ hosts items, (t.unwrapName value).asEntries = .array hosts ∧
      hosts.mapM (marshalPart form t) = .ok items ∧ listed.Perm items ∧
      ((listed.map t.partKey).Pairwise (fun k k' => k.compareValues? k' = some .lt) ↔
        (items.map t.partKey).Nodup) := by
  obtain ⟨key, fallback', path', hcollects, hder⟩ :=
    (derives_of_build _ _ _ _ hbuild).exists_collects hkey
  obtain ⟨hosts, hhosts⟩ := hcollects.exists_hosts hp
  obtain ⟨items, listed, hitems, hlisted, hheld⟩ :=
    hcollects.marshal_array_eq_ok_iff.mp (hcollects.marshal_array_of_ok hhosts hp)
  cases eq_of_held_eq hheld
  have hranked := hcollects.ranked (hder.ranksValues hcomparable form) hitems
  exact ⟨hosts, items, hhosts, hitems, sort?_perm hlisted, pairwise_lt_listed_iff hranked hlisted⟩

theorem ascending_iff_of_marshal_accounts :
    ∃ t listed, build (.app (.type .set) [accountType]) "accounts" [] = .ok t ∧
      t.marshal .readable (.array accounts) =
        .ok (if t.optional then .app (.data .some) [.seq listed] else .seq listed) ∧
      (listed.map t.partKey).Pairwise (fun k k' => k.compareValues? k' = some .lt) := by
  refine ⟨_, [.app (.data .left) [.app (.data .none) []],
    .app (.data .left) [.app (.data .some) [.int 7]],
    .app (.data .right) [boolExpr true]], rfl, rfl, ?_⟩
  obtain ⟨hosts, items, hhosts, hitems, -, hiff⟩ :=
    ascending_iff_of_marshal (.app (.type .set) [accountType]) accountType rfl
      isComparable_accountType "accounts" [] _ rfl .readable (.array accounts) _ rfl
  cases hhosts
  cases hitems
  refine hiff.mpr ?_
  show [Expr.app (.data .right) [boolExpr true],
    .app (.data .left) [.app (.data .some) [.int 7]],
    .app (.data .left) [.app (.data .none) []]].Nodup
  simp

/-- **Items with one key stay side by side**: a number and a text that spells it are two items of a
set. -/
theorem not_ascending_of_repeated_key :
    ∃ t listed, build (.app (.type .set) [.plainType .int]) "amounts" [] = .ok t ∧
      t.marshal .readable (.array [.number (.integer 1), .string "01"]) = .ok (.seq listed) ∧
      ¬(listed.map t.partKey).Pairwise (fun k k' => k.compareValues? k' = some .lt) := by
  refine ⟨_, [.int 1, .int 1], rfl, rfl, fun h => ?_⟩
  rw [List.map_cons, List.map_singleton, List.pairwise_pair] at h
  exact Expr.compareValues?_self_ne_lt _ h

end Typedef

end Michelson

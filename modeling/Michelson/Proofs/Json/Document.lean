import Mathlib.Data.List.Perm.Basic
import Michelson.Proofs.Json.Reader

/-!
# Reading compact documents back

The compact text of a value without numbers is read as that value with its members sorted, by
every reader that admits as many levels as the value has. Sorting only moves members about as long
as their names differ.

## Main definitions

* `Json.Reorders`, `Json.Rearranges`: ways to order the members of objects
* `Json.depth`: the number of levels that arrays and objects are nested in a value
* `Json.NumberFree`: values without numbers

## Main results

* `Reader.takes_value`: a value is read back from its compact text
* `parse?_compact`: a document is
-/

namespace Michelson.Json

/-- Induction over values, with a hypothesis for every item and every member. -/
@[elab_as_elim, induction_eliminator]
theorem children_induction {motive : Json → Prop} (null : motive null)
    (bool : ∀ b, motive (bool b)) (number : ∀ n, motive (number n))
    (string : ∀ s, motive (string s)) (array : ∀ xs, (∀ x ∈ xs, motive x) → motive (array xs))
    (object : ∀ ms, (∀ m ∈ ms, motive m.2) → motive (object ms)) (v : Json) : motive v :=
  @Json.rec motive (fun xs => ∀ x ∈ xs, motive x) (fun ms => ∀ m ∈ ms, motive m.2)
    (fun m => motive m.2) null bool number string array object (fun _ h => nomatch h)
    (fun _ _ hx hxs => List.forall_mem_cons.mpr ⟨hx, hxs⟩) (fun _ h => nomatch h)
    (fun _ _ hm hms => List.forall_mem_cons.mpr ⟨hm, hms⟩) (fun _ _ h => h) v

/-! ## Sorted members -/

section Members

variable {members members' : List (String × Json)} {name : String} {v : Json}

theorem exists_mem_of_lookup? (h : lookup? name members = some v) : ∃ m ∈ members, m.2 = v := by
  obtain ⟨m, hm, rfl⟩ := Option.map_eq_some_iff.mp h
  exact ⟨m, List.mem_of_find?_eq_some hm, rfl⟩

/-- With different names, each member is found under its own. -/
theorem lookup?_eq_some_iff (h : (members.map Prod.fst).Nodup) :
    lookup? name members = some v ↔ (name, v) ∈ members := by
  induction members with
  | nil => simp [lookup?]
  | cons m members ih =>
    rw [List.map_cons, List.nodup_cons] at h
    simp only [lookup?] at ih ⊢
    by_cases hname : m.1 = name
    · have hother : (name, v) ∉ members := fun hmem =>
        h.1 (hname ▸ List.mem_map_of_mem (f := Prod.fst) hmem)
      rw [List.find?_cons_of_pos (by simp [hname]), List.mem_cons, or_iff_left hother]
      simp [Prod.ext_iff, hname, eq_comm]
    · have hfirst : (name, v) ≠ m := fun heq => hname (heq ▸ rfl)
      rw [List.find?_cons_of_neg (by simp [hname]), List.mem_cons, or_iff_right hfirst]
      exact ih h.2

/-- The order of members with different names does not matter. -/
theorem lookup?_of_perm (hperm : members.Perm members') (h : (members.map Prod.fst).Nodup) :
    lookup? name members = lookup? name members' := by
  have h' : (members'.map Prod.fst).Nodup := (hperm.map Prod.fst).nodup_iff.mp h
  refine Option.ext fun v => ?_
  rw [lookup?_eq_some_iff h, lookup?_eq_some_iff h', hperm.mem_iff]

theorem keepLast_of_nodup (h : (members.map Prod.fst).Nodup) : keepLast members = members := by
  fun_induction keepLast members with
  | case1 a b rest heq ih => simp [heq] at h
  | case2 a b rest hne ih => rw [ih (List.nodup_cons.mp h).2]
  | case3 ms _ => rfl

theorem sortMembers_perm (h : (members.map Prod.fst).Nodup) :
    (sortMembers members).Perm members := by
  have hsorted := List.mergeSort_perm members fun a b => a.1 ≤ b.1
  rw [sortMembers, keepLast_of_nodup ((hsorted.map Prod.fst).nodup_iff.mpr h)]
  exact hsorted

end Members

@[simp] theorem sortedAll_eq_map (xs : List Json) : sortedAll xs = xs.map sorted := by
  induction xs with
  | nil => rfl
  | cons x xs ih => rw [sortedAll, ih, List.map_cons]

@[simp] theorem sortedMembers_eq_map (ms : List (String × Json)) :
    sortedMembers ms = ms.map (Prod.map id sorted) := by
  induction ms with
  | nil => rfl
  | cons m ms ih =>
    obtain ⟨name, v⟩ := m
    rw [sortedMembers, ih, List.map_cons]
    rfl

theorem lookup?_map (f : Json → Json) (name : String) (ms : List (String × Json)) :
    lookup? name (ms.map (Prod.map id f)) = (lookup? name ms).map f := by
  rw [lookup?, lookup?, List.find?_map, Option.map_map, Option.map_map]
  rfl

/-- **Ways to move the members of objects**: nothing else of a value is changed. -/
structure Reorders (f : Json → Json) : Prop where
  bool : ∀ b, f (bool b) = bool b
  number : ∀ n, f (number n) = number n
  string : ∀ s, f (string s) = string s
  array : ∀ xs, f (array xs) = array (xs.map f)
  object : ∀ ms, (ms.map Prod.fst).Nodup →
    ∃ ms', f (object ms) = object ms' ∧ ms'.Perm (ms.map (Prod.map id f))

theorem reorders_id : Reorders id where
  bool _ := rfl
  number _ := rfl
  string _ := rfl
  array xs := by rw [List.map_id]; rfl
  object ms _ := ⟨ms, rfl, by simp⟩

theorem reorders_sorted : Reorders sorted where
  bool _ := by simp [sorted]
  number _ := by simp [sorted]
  string _ := by simp [sorted]
  array xs := by rw [sorted, sortedAll_eq_map]
  object ms h := by
    have hnames : ((ms.map (Prod.map id sorted)).map Prod.fst).Nodup := by
      rw [List.map_map]
      exact h
    exact ⟨_, by rw [sorted, sortedMembers_eq_map], sortMembers_perm hnames⟩

/-- **Ways to order the members of objects**: every member is found under its name as before, and
itself rearranged. -/
structure Rearranges (f : Json → Json) : Prop where
  string : ∀ s, f (string s) = string s
  array : ∀ xs, f (array xs) = array (xs.map f)
  object : ∀ ms, (ms.map Prod.fst).Nodup → ∃ ms', f (object ms) = object ms' ∧
    ∀ name, lookup? name ms' = (lookup? name ms).map f

/-- Members of different names that are moved are found as before. -/
theorem Reorders.rearranges {f : Json → Json} (h : Reorders f) : Rearranges f where
  string := h.string
  array := h.array
  object ms hnames := by
    obtain ⟨ms', hms', hperm⟩ := h.object ms hnames
    have hnames' : (ms'.map Prod.fst).Nodup := by
      rw [(hperm.map Prod.fst).nodup_iff, List.map_map]
      exact hnames
    refine ⟨ms', hms', fun name => ?_⟩
    rw [lookup?_of_perm hperm hnames', lookup?_map]

theorem rearranges_id : Rearranges id := reorders_id.rearranges

theorem rearranges_sorted : Rearranges sorted := reorders_sorted.rearranges

/-! ## Levels -/

mutual
/-- **The number of levels** that arrays and objects are nested in a value. -/
def depth : Json → Nat
  | array xs => depthAll xs + 1
  | object ms => depthMembers ms + 1
  | _ => 0
/-- The number of levels of the deepest of some values. -/
def depthAll : List Json → Nat
  | [] => 0
  | x :: xs => max (depth x) (depthAll xs)
/-- The number of levels of the deepest of some members. -/
def depthMembers : List (String × Json) → Nat
  | [] => 0
  | (_, v) :: ms => max (depth v) (depthMembers ms)
end

mutual
/-- **Values without numbers.** -/
def NumberFree : Json → Prop
  | number _ => False
  | array xs => NumberFreeAll xs
  | object ms => NumberFreeMembers ms
  | _ => True
/-- Lists of values without numbers. -/
def NumberFreeAll : List Json → Prop
  | [] => True
  | x :: xs => NumberFree x ∧ NumberFreeAll xs
/-- Members whose values have no numbers. -/
def NumberFreeMembers : List (String × Json) → Prop
  | [] => True
  | (_, v) :: ms => NumberFree v ∧ NumberFreeMembers ms
end

theorem depthAll_le_iff {xs : List Json} {n : Nat} :
    depthAll xs ≤ n ↔ ∀ x ∈ xs, x.depth ≤ n := by
  induction xs with
  | nil => simp [depthAll]
  | cons x xs ih => rw [depthAll, Nat.max_le, ih, List.forall_mem_cons]

theorem depthMembers_le_iff {ms : List (String × Json)} {n : Nat} :
    depthMembers ms ≤ n ↔ ∀ m ∈ ms, m.2.depth ≤ n := by
  induction ms with
  | nil => simp [depthMembers]
  | cons m ms ih => rw [depthMembers, Nat.max_le, ih, List.forall_mem_cons]

theorem depth_array_le_iff {xs : List Json} {n : Nat} :
    (array xs).depth ≤ n ↔ 1 ≤ n ∧ ∀ x ∈ xs, x.depth ≤ n - 1 := by
  rw [depth, ← depthAll_le_iff]
  omega

theorem depth_object_le_iff {ms : List (String × Json)} {n : Nat} :
    (object ms).depth ≤ n ↔ 1 ≤ n ∧ ∀ m ∈ ms, m.2.depth ≤ n - 1 := by
  rw [depth, ← depthMembers_le_iff]
  omega

theorem numberFree_array_iff {xs : List Json} :
    (array xs).NumberFree ↔ ∀ x ∈ xs, x.NumberFree := by
  rw [NumberFree]
  induction xs with
  | nil => simp [NumberFreeAll]
  | cons x xs ih => rw [NumberFreeAll, ih, List.forall_mem_cons]

theorem numberFree_object_iff {ms : List (String × Json)} :
    (object ms).NumberFree ↔ ∀ m ∈ ms, m.2.NumberFree := by
  rw [NumberFree]
  induction ms with
  | nil => simp [NumberFreeMembers]
  | cons m ms ih => rw [NumberFreeMembers, ih, List.forall_mem_cons]

/-! ## Compact texts -/

theorem compactItems_eq_map (xs : List Json) : compactItems xs = xs.map compact := by
  induction xs with
  | nil => rfl
  | cons x xs ih => rw [compactItems, ih, List.map_cons]

theorem compactMembers_eq_map (ms : List (String × Json)) :
    compactMembers ms = ms.map fun m => quote m.1 ++ ":" ++ m.2.compact := by
  induction ms with
  | nil => rfl
  | cons m ms ih => rw [compactMembers, ih, List.map_cons]

theorem toList_compact_array (xs : List Json) :
    (array xs).compact.toList = Reader.arrayText (xs.map (·.compact.toList)) := by
  rw [compact, compactItems_eq_map, String.toList_append, String.toList_append,
    String.toList_intercalate, List.map_map]
  rfl

theorem toList_compact_object (ms : List (String × Json)) :
    (object ms).compact.toList = Reader.objectText (ms.map (Prod.map id (·.compact.toList))) := by
  have hmember : (fun m : String × Json => (quote m.1 ++ ":" ++ m.2.compact).toList) =
      Reader.memberText ∘ Prod.map id (·.compact.toList) := by
    funext m
    simp [Reader.memberText]
  rw [compact, compactMembers_eq_map, String.toList_append, String.toList_append,
    String.toList_intercalate, List.map_map, Reader.objectText, List.map_map, ← hmember]
  rfl

namespace Reader

variable {ε : Type} {v : Json} {levels : Nat}

/-- Compact texts of values without numbers start like values. -/
theorem opens_compact (h : v.NumberFree) : Opens v.compact.toList := by
  cases v with
  | null => exact ⟨'n', rfl, by decide, by decide, by decide⟩
  | bool b => cases b with
    | false => exact ⟨'f', rfl, by decide, by decide, by decide⟩
    | true => exact ⟨'t', rfl, by decide, by decide, by decide⟩
  | number n => exact h.elim
  | string s =>
    rw [compact]
    exact opens_quote s
  | array xs =>
    rw [toList_compact_array]
    exact ⟨'[', rfl, by decide, by decide, by decide⟩
  | object ms =>
    rw [toList_compact_object]
    exact ⟨'\x7b', rfl, by decide, by decide, by decide⟩

/-- A value that is neither array nor object takes no level. -/
theorem takes_value_of_scalar {text : List Char} {c : Char} (hc : text.head? = some c)
    (hblank : isBlank c = false) (harray : c ≠ '[') (hobject : c ≠ '\x7b')
    (h : (scalar : Reader ε Json).Takes text v) : (value (ε := ε) levels).Takes text v := by
  cases levels with
  | zero => exact Takes.skip hc hblank h
  | succ levels =>
    refine Takes.skip hc hblank (Takes.peek hc ?_)
    split
    · simp_all
    · simp_all
    · exact h

theorem takes_null : (scalar : Reader ε Json).Takes "null".toList .null :=
  Takes.peek rfl ((takes_expectWord "null").map fun _ => Json.null)

theorem takes_bool (b : Bool) :
    (scalar : Reader ε Json).Takes (compact (.bool b)).toList (.bool b) := by
  cases b with
  | false => exact Takes.peek rfl ((takes_expectWord "false").map fun _ => Json.bool false)
  | true => exact Takes.peek rfl ((takes_expectWord "true").map fun _ => Json.bool true)

theorem takes_text (s : String) : (scalar : Reader ε Json).Takes (quote s).toList (.string s) :=
  Takes.peek (c := '"') (by rw [toList_quote]; rfl) ((takes_string s).map Json.string)

/-- The members of an object are gathered in reverse. -/
theorem takesMembers_gather (item : Reader ε Json) {ms : List (String × Json)}
    (h : ∀ m ∈ ms, item.Takes m.2.compact.toList m.2.sorted) (acc : List (String × Json)) :
    TakesMembers (fun acc name => do return (name, ← item) :: acc) acc
      (ms.map (Prod.map id (·.compact.toList))) ((ms.map (Prod.map id sorted)).reverse ++ acc) := by
  induction ms generalizing acc with
  | nil => exact .nil acc
  | cons m ms ih =>
    rw [List.forall_mem_cons] at h
    rw [List.map_cons, List.map_cons, List.reverse_cons, List.append_assoc, List.singleton_append]
    exact .cons (h.1.map fun v => (m.1, v) :: acc) (ih h.2 _)

/-- **A value is read back** from its compact text, with its members sorted. -/
theorem takes_value (hfree : v.NumberFree) (hdepth : v.depth ≤ levels) :
    (value levels : Reader ε Json).Takes v.compact.toList v.sorted := by
  induction v generalizing levels with
  | null => exact takes_value_of_scalar rfl (by decide) (by decide) (by decide) takes_null
  | bool b =>
    cases b <;>
      exact takes_value_of_scalar rfl (by decide) (by decide) (by decide) (takes_bool _)
  | number n => exact hfree.elim
  | string s =>
    have hc : (quote s).toList.head? = some '"' := by rw [toList_quote]; rfl
    exact takes_value_of_scalar hc (by decide) (by decide) (by decide) (takes_text s)
  | array xs ih =>
    rw [numberFree_array_iff] at hfree
    rw [depth_array_le_iff] at hdepth
    obtain ⟨levels, rfl⟩ := Nat.exists_eq_succ_of_ne_zero (Nat.ne_of_gt hdepth.1)
    have hitems : List.Forall₂ (value (ε := ε) levels).Takes (xs.map (·.compact.toList))
        (xs.map sorted) := by
      rw [List.forall₂_map_left_iff, List.forall₂_map_right_iff, List.forall₂_same]
      exact fun x hx => ih x hx (hfree x hx) (hdepth.2 x hx)
    have hopens : ∀ text ∈ xs.map (·.compact.toList), Opens text := by
      rw [List.forall_mem_map]
      exact fun x hx => opens_compact (hfree x hx)
    rw [toList_compact_array, sorted, sortedAll_eq_map]
    exact Takes.skip rfl (by decide) (Takes.peek rfl ((takes_arrayOf hitems hopens).map Json.array))
  | object ms ih =>
    rw [numberFree_object_iff] at hfree
    rw [depth_object_le_iff] at hdepth
    obtain ⟨levels, rfl⟩ := Nat.exists_eq_succ_of_ne_zero (Nat.ne_of_gt hdepth.1)
    have hmembers := takesMembers_gather (value (ε := ε) levels)
      (fun m hm => ih m hm (hfree m hm) (hdepth.2 m hm)) []
    have hread := (takes_objectOf hmembers).map fun members => object (sortMembers members.reverse)
    rw [List.append_nil, List.reverse_reverse] at hread
    rw [toList_compact_object, sorted, sortedMembers_eq_map]
    exact Takes.skip rfl (by decide) (Takes.peek rfl hread)

end Reader

/-- **A document is read back** from its compact text by every reader that admits its levels. -/
theorem parse?_compact {v : Json} {levels : Nat} (hfree : v.NumberFree)
    (hdepth : v.depth ≤ levels) : parse? levels v.compact = some v.sorted := by
  rw [parse?, Reader.run_of_takes (Reader.takes_value hfree hdepth) (Reader.opens_compact hfree)]
  rfl

end Michelson.Json

import Michelson.Typedef.Derive
import Michelson.Typedef.Equivalence
import Michelson.Typedef.Unfold

/-!
# Names by position

Fields are named by position twice, when a struct is described and when its groups are replaced
by what they hold. What is left after the second time depends only on the fields with all names by
position taken away.

## Main definitions

* `Typedef.normalize`: the unfolded form without paths
* `Typedef.named`: a field with its position for a name
* `Typedef.unnumber`: fields without their names by position

## Main results

* `Typedef.strictEqual_of_normalize_eq`: strict equality of unfolded forms
* `Typedef.unnumber_numberFields`, `Typedef.renumber_eq`: names given and taken away
* `Typedef.unnumber_inlineGroups_numberFields`: what groups hold does not depend on their names
-/

namespace Michelson.Typedef

/-! ## Paths taken away -/

mutual
/-- The typedef without its paths. -/
def withoutPaths : Typedef → Typedef
  | ⟨name, kind, optional, args, _⟩ => ⟨name, kind, optional, withoutPathsAll args, []⟩
/-- The typedefs without their paths. -/
def withoutPathsAll : List Typedef → List Typedef
  | [] => []
  | t :: ts => withoutPaths t :: withoutPathsAll ts
end

@[simp] theorem withoutPathsAll_eq_map (ts : List Typedef) :
    withoutPathsAll ts = ts.map withoutPaths := by
  induction ts with
  | nil => rfl
  | cons t ts ih => simp [withoutPathsAll, ih]

mutual
/-- Typedefs that differ in their paths only are strictly equal. -/
theorem strictEqual_of_withoutPaths_eq {t u : Typedef} (h : t.withoutPaths = u.withoutPaths) :
    t.strictEqual u = true := by
  match t, u with
  | ⟨name, kind, optional, args, path⟩, ⟨name', kind', optional', args', path'⟩ =>
    simp only [withoutPaths, Typedef.mk.injEq, and_true] at h
    obtain ⟨rfl, rfl, rfl, hargs⟩ := h
    simp [strictEqual, strictEqualAll_of_withoutPathsAll_eq hargs]
theorem strictEqualAll_of_withoutPathsAll_eq {ts us : List Typedef}
    (h : withoutPathsAll ts = withoutPathsAll us) : strictEqualAll ts us = true := by
  match ts, us with
  | [], [] => rfl
  | t :: ts, u :: us =>
    simp only [withoutPathsAll, List.cons.injEq] at h
    simp [strictEqualAll, strictEqual_of_withoutPaths_eq h.1,
      strictEqualAll_of_withoutPathsAll_eq h.2]
end

/-- The unfolded form of a typedef without its paths. -/
def normalize (t : Typedef) : Typedef := t.unfold.withoutPaths

theorem strictEqual_of_normalize_eq {t u : Typedef} (h : t.normalize = u.normalize) :
    t.unfold.strictEqual u.unfold = true :=
  strictEqual_of_withoutPaths_eq h

section Renaming

variable {f : Typedef → Typedef}

theorem name_of_renaming (hf : ∀ t n, f { t with name := n } = { f t with name := n })
    (t : Typedef) : (f t).name = t.name := by
  obtain ⟨name, kind, optional, args, path⟩ := t
  have h := congrArg Typedef.name (hf ⟨name, kind, optional, args, path⟩ name)
  exact h

/-- Naming by position goes well with what respects names, whichever names are replaced. -/
theorem map_mapIdx_name (hf : ∀ t n, f { t with name := n } = { f t with name := n })
    (P : String → Prop) [DecidablePred P] (ts : List Typedef) :
    (ts.mapIdx fun i t => if P t.name then { t with name := toString i } else t).map f =
      (ts.map f).mapIdx fun i t => if P t.name then { t with name := toString i } else t := by
  refine List.ext_getElem (by simp) fun i _ _ => ?_
  simp only [List.getElem_map, List.getElem_mapIdx, name_of_renaming hf, apply_ite f, hf]

theorem map_numberFields (hf : ∀ t n, f { t with name := n } = { f t with name := n })
    (ts : List Typedef) : (numberFields ts).map f = numberFields (ts.map f) :=
  map_mapIdx_name hf (· = "") ts

theorem map_renumber (hf : ∀ t n, f { t with name := n } = { f t with name := n })
    (ts : List Typedef) : (renumber ts).map f = renumber (ts.map f) :=
  map_mapIdx_name hf (isPositionalName · = true) ts

end Renaming

section Blindness

variable {β : Type} {g : Typedef → β}

/-- What does not look at names does not see that some are given by position. -/
theorem map_mapIdx_name_of_blind (hg : ∀ t n, g { t with name := n } = g t) (P : String → Prop)
    [DecidablePred P] (ts : List Typedef) :
    (ts.mapIdx fun i t => if P t.name then { t with name := toString i } else t).map g =
      ts.map g := by
  refine List.ext_getElem (by simp) fun i _ _ => ?_
  simp only [List.getElem_map, List.getElem_mapIdx, apply_ite g, hg, ite_self]

theorem map_numberFields_of_blind (hg : ∀ t n, g { t with name := n } = g t)
    (ts : List Typedef) : (numberFields ts).map g = ts.map g :=
  map_mapIdx_name_of_blind hg (· = "") ts

theorem map_renumber_of_blind (hg : ∀ t n, g { t with name := n } = g t)
    (ts : List Typedef) : (renumber ts).map g = ts.map g :=
  map_mapIdx_name_of_blind hg (isPositionalName · = true) ts

end Blindness

theorem withoutPaths_rename (t : Typedef) (n : String) :
    withoutPaths { t with name := n } = { t.withoutPaths with name := n } := by
  obtain ⟨name, kind, optional, args, path⟩ := t
  rfl

theorem map_withoutPaths_inlineGroups (ts : List Typedef) :
    (inlineGroups ts).map withoutPaths = inlineGroups (ts.map withoutPaths) := by
  rw [inlineGroups, inlineGroups, List.map_flatMap, List.flatMap_map]
  congr 1
  funext ⟨name, kind, optional, args, path⟩
  have hgroup : isGroup (withoutPaths ⟨name, kind, optional, args, path⟩) =
      isGroup ⟨name, kind, optional, args, path⟩ := rfl
  rw [hgroup]
  split <;> simp [withoutPaths]

theorem normalize_mk (name : String) (kind : Kind) (optional : Bool) (args : List Typedef)
    (path : List Nat) :
    normalize ⟨name, kind, optional, args, path⟩ =
      ⟨name, kind, optional,
        if kind = .struct then renumber (inlineGroups (args.map normalize))
        else args.map normalize, []⟩ := by
  have hmap : (args.map unfold).map withoutPaths = args.map normalize := by
    rw [List.map_map]
    rfl
  rw [normalize, unfold, withoutPaths, unfoldAll_eq_map, withoutPathsAll_eq_map]
  split
  · rw [map_renumber withoutPaths_rename, map_withoutPaths_inlineGroups, hmap]
  · rw [hmap]

theorem normalize_eq (t : Typedef) :
    t.normalize =
      ⟨t.name, t.kind, t.optional,
        if t.kind = .struct then renumber (inlineGroups (t.args.map normalize))
        else t.args.map normalize, []⟩ := by
  obtain ⟨name, kind, optional, args, path⟩ := t
  exact normalize_mk name kind optional args path

theorem normalize_rename (t : Typedef) (n : String) :
    normalize { t with name := n } = { t.normalize with name := n } := by
  obtain ⟨name, kind, optional, args, path⟩ := t
  simp only [normalize_mk]

@[simp] theorem name_normalize (t : Typedef) : t.normalize.name = t.name :=
  name_of_renaming normalize_rename t

/-! ## Names by position given -/

/-- A field of a struct, with its position for a name if it has none. -/
def named (t : Typedef) (i : Nat) : Typedef :=
  if t.name = "" then { t with name := toString i } else t

theorem numberFields_eq_mapIdx (ts : List Typedef) :
    numberFields ts = ts.mapIdx fun i t => t.named i := rfl

/-- Nothing but the name of a field changes. -/
theorem exists_named_eq (i : Nat) (t : Typedef) : ∃ n, t.named i = { t with name := n } := by
  obtain ⟨name, kind, optional, args, path⟩ := t
  unfold named
  split
  · exact ⟨toString i, rfl⟩
  · exact ⟨name, rfl⟩

@[simp] theorem args_named (t : Typedef) (i : Nat) : (t.named i).args = t.args := by
  obtain ⟨n, hn⟩ := exists_named_eq i t
  rw [hn]

@[simp] theorem path_named (t : Typedef) (i : Nat) : (t.named i).path = t.path := by
  obtain ⟨n, hn⟩ := exists_named_eq i t
  rw [hn]

theorem name_named_ne_empty (t : Typedef) (i : Nat) : (t.named i).name ≠ "" := by
  unfold named
  split
  · exact Nat.repr_ne_empty
  · assumption

theorem exists_of_mem_numberFields {ts : List Typedef} {t : Typedef} (h : t ∈ numberFields ts) :
    ∃ u ∈ ts, ∃ i, t = u.named i := by
  obtain ⟨i, hi, rfl⟩ := List.exists_of_mem_mapIdx h
  exact ⟨ts[i], List.getElem_mem hi, i, rfl⟩

/-- Every field has a name once it is numbered. -/
theorem name_ne_empty_of_mem_numberFields {ts : List Typedef} {t : Typedef}
    (h : t ∈ numberFields ts) : t.name ≠ "" := by
  obtain ⟨u, -, i, rfl⟩ := exists_of_mem_numberFields h
  exact name_named_ne_empty u i

/-! ## Names by position taken away -/

@[simp] theorem isPositionalName_repr (i : Nat) : isPositionalName i.repr = true := by
  have hdigits (c : Char) (hc : c ∈ Nat.toDigits 10 i) : c.isDigit = true :=
    Nat.isDigit_of_mem_toDigits (by decide) (by decide) hc
  simpa [isPositionalName, Nat.repr_ne_empty] using hdigits

@[simp] theorem isPositionalName_empty : isPositionalName "" = false := rfl

@[simp] theorem isAnonymousName_empty : isAnonymousName "" = true := rfl

theorem isAnonymousName_of_isPositionalName {name : String} (h : isPositionalName name = true) :
    isAnonymousName name = true := by
  rw [isPositionalName, Bool.and_eq_true] at h
  rw [isAnonymousName, h.2, Bool.or_true]

/-- A field without its name, if that is a position. -/
def unname (t : Typedef) : Typedef := if isPositionalName t.name then { t with name := "" } else t

/-- Fields without their names by position. -/
def unnumber (ts : List Typedef) : List Typedef := ts.map unname

@[simp] theorem unnumber_append (ts us : List Typedef) :
    unnumber (ts ++ us) = unnumber ts ++ unnumber us := List.map_append

theorem unname_unname (t : Typedef) : unname (unname t) = unname t := by
  by_cases h : isPositionalName t.name = true <;> simp [unname, h]

@[simp] theorem unnumber_unnumber (ts : List Typedef) : unnumber (unnumber ts) = unnumber ts := by
  rw [unnumber, unnumber, List.map_map]
  exact List.map_congr_left fun t _ => unname_unname t

/-- A name given by position is taken away again. -/
theorem unname_named (t : Typedef) (i : Nat) : unname (t.named i) = unname t := by
  obtain ⟨name, kind, optional, args, path⟩ := t
  by_cases h : name = "" <;> simp [named, unname, h]

/-- A name by position is given anew after it is taken away. -/
theorem named_unname {t : Typedef} (h : t.name ≠ "") (i : Nat) :
    (unname t).named i =
      if isPositionalName t.name then { t with name := toString i } else t := by
  by_cases hpos : isPositionalName t.name = true <;> simp [named, unname, h, hpos]

theorem unnumber_numberFields (ts : List Typedef) : unnumber (numberFields ts) = unnumber ts := by
  refine List.ext_getElem (by simp [unnumber, numberFields]) fun i _ _ => ?_
  simp only [unnumber, numberFields_eq_mapIdx, List.getElem_map, List.getElem_mapIdx,
    unname_named]

theorem renumber_eq {ts : List Typedef} (h : ∀ t ∈ ts, t.name ≠ "") :
    renumber ts = numberFields (unnumber ts) := by
  refine List.ext_getElem (by simp [renumber, unnumber, numberFields]) fun i _ _ => ?_
  simp only [renumber, unnumber, numberFields_eq_mapIdx, List.getElem_map, List.getElem_mapIdx,
    named_unname (h _ (List.getElem_mem _))]

/-! ## Groups -/

theorem inlineGroups_cons (t : Typedef) (ts : List Typedef) :
    inlineGroups (t :: ts) = (if t.isGroup then t.args else [t]) ++ inlineGroups ts := rfl

/-- A group is one under whatever name by position. -/
theorem isGroup_named (t : Typedef) (i : Nat) : (t.named i).isGroup = t.isGroup := by
  obtain ⟨name, kind, optional, args, path⟩ := t
  by_cases h : name = ""
  · have hrepr := isAnonymousName_of_isPositionalName (isPositionalName_repr i)
    simp [named, h, isGroup, isStruct, isAnonymous, hrepr]
  · simp [named, h]

theorem unnumber_inlineGroups_mapIdx (ts : List Typedef) (rename : Nat → Typedef → Typedef)
    (hgroup : ∀ i t, (rename i t).isGroup = t.isGroup) (hargs : ∀ i t, (rename i t).args = t.args)
    (hname : ∀ i t, unname (rename i t) = unname t) :
    unnumber (inlineGroups (ts.mapIdx rename)) = unnumber (inlineGroups ts) := by
  induction ts generalizing rename with
  | nil => rfl
  | cons t ts ih =>
    rw [List.mapIdx_cons, inlineGroups_cons, inlineGroups_cons, unnumber_append, unnumber_append,
      ih _ (fun i => hgroup (i + 1)) (fun i => hargs (i + 1)) fun i => hname (i + 1), hgroup,
      hargs]
    split
    · rfl
    · exact congrArg ([·] ++ unnumber (inlineGroups ts)) (hname 0 t)

/-- What groups hold does not depend on the names that were given by position. -/
theorem unnumber_inlineGroups_numberFields (ts : List Typedef) :
    unnumber (inlineGroups (numberFields ts)) = unnumber (inlineGroups ts) :=
  unnumber_inlineGroups_mapIdx ts _ (fun i t => isGroup_named t i) (fun i t => args_named t i)
    fun i t => unname_named t i

end Michelson.Typedef

import Michelson.Proofs.Entrypoint.Signature

/-!
# Leaves and the ways to them

A parameter is split into its leaves from the left to the right, and with each leaf goes the way to
it. A way is read back from the parameter: it steps into alternatives that are split, it ends at the
leaf, and the leaves to the left of it are counted on the way.

## Main definitions

* `Entrypoints.leafTypes`: the leaves of a type, without the ways to them
* `Entrypoints.parameterLeaves`: the leaves of a parameter
* `Entrypoints.follow?`: what lies at the end of a way
* `Entrypoints.leavesBefore`: the number of leaves to the left of a way

## Main results

* `Entrypoints.leavesAt_of_leaves`: what is found are the leaves of the type
* `Entrypoints.LeavesAt.map_snd`: they are listed from the left to the right
* `Entrypoints.LeavesAt.follow?_eq_some`: the way to a leaf that is found leads to it
-/

namespace Michelson

/-- The ways to leaves are told apart by their texts. -/
theorem branchText_injective {sides sides' : List Side} (h : branchText sides = branchText sides') :
    sides = sides' := by
  have htexts := congrArg String.toList h
  simp only [branchText, String.toList_join] at htexts
  clear h
  induction sides generalizing sides' with
  | nil =>
    cases sides' with
    | nil => rfl
    | cons side' rest' => cases side' <;> simp at htexts
  | cons side rest ih =>
    cases sides' with
    | nil => cases side <;> simp at htexts
    | cons side' rest' =>
      cases side <;> cases side' <;> simp at htexts ⊢
      all_goals exact ih (by simpa using htexts)

namespace Entrypoints

section Ways

variable (keep : Expr → Bool)

/-- Whether a type is split into its sides: alternatives are, unless they are kept whole. -/
def isSplit (e : Expr) : Bool := e.applies (.type .or) && !keep e

/-- The leaves of a type from the left to the right. -/
def leafTypes : Expr → List Expr
  | .app (.type .or) [left, right] annots flag =>
    if keep (.app (.type .or) [left, right] annots flag) then
      [.app (.type .or) [left, right] annots flag]
    else leafTypes left ++ leafTypes right
  | e => [e]

/-- What lies at the end of a way that steps into alternatives that are split, and into nothing
else. -/
def follow? : Expr → List Side → Option Expr
  | e, [] => some e
  | .app (.type .or) [left, right] annots flag, side :: rest =>
    if keep (.app (.type .or) [left, right] annots flag) then none
    else match side with
      | .left => follow? left rest
      | .right => follow? right rest
  | _, _ :: _ => none

/-- The number of leaves to the left of a way: on each step to the right, all of those on the
left. -/
def leavesBefore : Expr → List Side → Nat
  | .app (.type .or) [left, _] _ _, .left :: rest => leavesBefore left rest
  | .app (.type .or) [left, right] _ _, .right :: rest =>
    (leafTypes keep left).length + leavesBefore right rest
  | _, _ => 0

/-- Whether a type carries an annotation that starts with one of the given texts. -/
def keepsWhole (keep : List String) (e : Expr) : Bool := keep.any (e.hasAnnotStarting ·)

/-- The leaves of a parameter type, or of the section that declares it. -/
def parameterLeaves (parameter : Expr) (keep : List String) : List Expr :=
  leafTypes (keepsWhole keep) (parameterType parameter)

end Ways

variable {keep : Expr → Bool}

section Split

variable {left right : Expr} {annots : List String} {flag : Bool}

theorem leafTypes_split (h : keep (.app (.type .or) [left, right] annots flag) = false) :
    leafTypes keep (.app (.type .or) [left, right] annots flag) =
      leafTypes keep left ++ leafTypes keep right := by
  rw [leafTypes, if_neg (by simp [h])]

theorem leafTypes_of_not_isSplit {e : Expr} (h : isSplit keep e = false) :
    leafTypes keep e = [e] := by
  unfold leafTypes
  split
  · refine if_pos ?_
    simpa [isSplit, Expr.applies, Expr.head?] using h
  · rfl

theorem follow?_left (h : keep (.app (.type .or) [left, right] annots flag) = false)
    (rest : List Side) :
    follow? keep (.app (.type .or) [left, right] annots flag) (.left :: rest) =
      follow? keep left rest := by
  rw [follow?, if_neg (by simp [h])]

theorem follow?_right (h : keep (.app (.type .or) [left, right] annots flag) = false)
    (rest : List Side) :
    follow? keep (.app (.type .or) [left, right] annots flag) (.right :: rest) =
      follow? keep right rest := by
  rw [follow?, if_neg (by simp [h])]

end Split

/-- **The leaves of a type** at the end of a way, with the ways to them. -/
inductive LeavesAt (keep : Expr → Bool) : List Side → Expr → List (List Side × Expr) → Prop
  | leaf {branch e} : isSplit keep e = false → LeavesAt keep branch e [(branch, e)]
  | split {branch left right annots flag ls rs} :
    keep (.app (.type .or) [left, right] annots flag) = false →
    LeavesAt keep (branch ++ [.left]) left ls → LeavesAt keep (branch ++ [.right]) right rs →
    LeavesAt keep branch (.app (.type .or) [left, right] annots flag) (ls ++ rs)

theorem leavesAt_of_leaves {branch : List Side} {e : Expr} {found : List (List Side × Expr)}
    (h : leaves keep branch e = .ok found) : LeavesAt keep branch e found := by
  induction branch, e using leaves.induct keep generalizing found with
  | case1 branch args annots flag hkeep =>
    unfold leaves at h
    rw [if_pos hkeep] at h
    cases h
    exact .leaf (by simp [isSplit, hkeep])
  | case2 branch annots flag left right hkeep ihl ihr =>
    rw [leaves, if_neg hkeep] at h
    simp only [bind_eq_ok_iff, pure_eq_ok_iff] at h
    obtain ⟨ls, hls, rs, hrs, rfl⟩ := h
    exact .split (by simpa using hkeep) (ihl hls) (ihr hrs)
  | case3 branch args annots flag hargs hkeep =>
    rw [leaves, if_neg hkeep] at h
    · cases h
    · exact hargs
  | case4 branch e hor =>
    rw [leaves] at h
    · cases h
      refine .leaf ?_
      have happlies : e.applies (.type .or) = false := by
        rw [← Bool.not_eq_true, Expr.applies_iff]
        rintro ⟨args, annots, flag, rfl⟩
        exact hor _ _ _ rfl
      rw [isSplit, happlies, Bool.false_and]
    · exact hor

/-- What is found are the leaves, from the left to the right. -/
theorem LeavesAt.map_snd {branch : List Side} {e : Expr} {found : List (List Side × Expr)}
    (h : LeavesAt keep branch e found) : found.map Prod.snd = leafTypes keep e := by
  induction h with
  | leaf he => rw [leafTypes_of_not_isSplit he, List.map_singleton]
  | split hkeep _ _ ihl ihr => rw [leafTypes_split hkeep, List.map_append, ihl, ihr]

/-- **The way to a leaf that is found**: it goes on from where the type lies, leads to the leaf, and
has as many leaves to its left as were found before. -/
theorem LeavesAt.follow?_eq_some {branch : List Side} {e : Expr} {found : List (List Side × Expr)}
    (h : LeavesAt keep branch e found) :
    ∀ i way leaf, found[i]? = some (way, leaf) →
      ∃ rest, way = branch ++ rest ∧ follow? keep e rest = some leaf ∧
        isSplit keep leaf = false ∧ leavesBefore keep e rest = i := by
  induction h with
  | leaf he =>
    intro i way leaf hi
    rw [List.getElem?_singleton] at hi
    split at hi
    next hzero =>
      cases hi
      exact ⟨[], by simp, by simp [follow?], he, by simp [leavesBefore, hzero]⟩
    · cases hi
  | @split branch left right annots flag ls rs hkeep hl hr ihl ihr =>
    intro i way leaf hi
    rcases Nat.lt_or_ge i ls.length with hlt | hge
    · rw [List.getElem?_append_left hlt] at hi
      obtain ⟨rest, rfl, hfollow, hsplit, hbefore⟩ := ihl i way leaf hi
      refine ⟨.left :: rest, by simp, ?_, hsplit, hbefore⟩
      rw [follow?_left hkeep, hfollow]
    · rw [List.getElem?_append_right hge] at hi
      obtain ⟨rest, rfl, hfollow, hsplit, hbefore⟩ := ihr _ way leaf hi
      refine ⟨.right :: rest, by simp, ?_, hsplit, ?_⟩
      · rw [follow?_right hkeep, hfollow]
      · have hlength := congrArg List.length hl.map_snd
        rw [List.length_map] at hlength
        rw [leavesBefore, hbefore, ← hlength]
        exact Nat.add_sub_cancel' hge

end Entrypoints

end Michelson

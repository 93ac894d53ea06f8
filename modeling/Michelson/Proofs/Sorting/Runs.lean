import Mathlib.Data.List.Chain
import Mathlib.Data.List.Forall2
import Michelson.Proofs.Sorting.Short
import Michelson.Sorting.Runs

/-!
# Runs joined to one

Each run has a stretch of the items, in order if it says so, and the runs on the stack have those
in front of the others. Runs are joined to runs of that kind, down to one run with all items. So
sorting by runs sorts, if what sorts the runs that wait does, and it fails only if that one or the
sorting in two halves fails.

## Main definitions

* `Sorting.Run.Holds`: whether a run has some items, in order if it says so
* `Sorting.SortsAll`: whether what a function returns is sorted

## Main results

* `Sorting.exists_holds_of_runs?`: the runs have the items, one stretch each
* `Sorting.collapse?_holds`, `Sorting.joinRuns?_holds`: joining keeps to that
* `Sorting.sorts_of_sortRuns?`, `Sorting.exists_sortRuns?_eq_some`: items sorted by runs
* `Sorting.map_sortRuns?`: nothing but the order matters
-/

namespace Michelson.Sorting

variable {α β : Type} {r : α → α → Bool} {xs ys zs : List α} {run : Run α}

/-- Whether a run has the given items, and has them in order if it says so. -/
structure Run.Holds (r : α → α → Bool) (xs : List α) (run : Run α) : Prop where
  rearranges : Rearranges r xs run.items
  inOrder : run.sorted = true → InOrder r run.items

theorem Sorts.holds (h : Sorts r xs ys) : Run.Holds r xs ⟨ys, true⟩ :=
  ⟨h.toRearranges, fun _ => h.inOrder⟩

theorem holds_unsorted (r : α → α → Bool) (xs : List α) : Run.Holds r xs ⟨xs, false⟩ :=
  ⟨.refl xs, nofun⟩

/-! ## Cutting -/

section Cutting

theorem stretch_pos (r : α → α → Bool) (descending : Bool) (x : α) (xs : List α) :
    0 < stretch r descending (x :: xs) := by
  rw [stretch.eq_def]
  split
  · split
    · exact Nat.succ_pos _
    · exact Nat.one_pos
  · exact Nat.succ_pos _

/-- In a stretch the items are all compared alike with the one before. -/
theorem isChain_stretch (r : α → α → Bool) (descending : Bool) (xs : List α) :
    (xs.take (stretch r descending xs)).IsChain fun x y => r y x = descending := by
  fun_induction stretch r descending xs with
  | case1 x y rest hyx ih =>
    rw [List.take_succ_cons]
    refine List.isChain_cons.mpr ⟨fun z hz => ?_, ih⟩
    rw [List.head?_take, if_neg (stretch_pos r descending y rest).ne'] at hz
    cases hz
    exact hyx
  | case2 x y rest hyx => exact List.isChain_singleton x
  | case3 xs hxs =>
    match xs with
    | [] => exact List.isChain_nil
    | [x] => exact List.isChain_singleton x
    | x :: y :: rest => exact absurd rfl (hxs x y rest)

theorem Orders.trans_strict (hr : Orders r) {x y z : α} (hxy : r x y = true) (hyz : r y z = true) :
    r x z = true := by
  rw [← Bool.not_eq_false]
  intro hxz
  rw [hr.trans (hr.asymm hxy) hxz] at hyz
  cases hyz

/-- A stretch in which no item precedes the one before is in order. -/
theorem inOrder_of_isChain (h : xs.IsChain fun x y => r y x = false) : InOrder r xs := by
  intro hr
  have : Trans (fun x y => r y x = false) (fun x y => r y x = false) fun x y => r y x = false :=
    ⟨fun hxy hyz => hr.trans hyz hxy⟩
  exact List.isChain_iff_pairwise.mp h

/-- **A stretch in which each item precedes the one before** is in order from its back. No two of
its items are level. -/
theorem sorts_reverse_of_isChain (h : xs.IsChain fun x y => r y x = true) :
    Sorts r xs xs.reverse := by
  refine sorts_of_perm (List.reverse_perm xs) fun hr => ?_
  have : Trans (fun x y => r y x = true) (fun x y => r y x = true) fun x y => r y x = true :=
    ⟨fun hxy hyz => hr.trans_strict hyz hxy⟩
  have hpairs : xs.Pairwise fun x y => r y x = true := List.isChain_iff_pairwise.mp h
  refine ⟨⟨List.reverse_perm xs, fun _ k => ?_⟩, fun _ =>
    List.pairwise_reverse.mpr (hpairs.imp fun hyx => hr.asymm hyx)⟩
  rw [List.filter_reverse]
  have hfilter := hpairs.sublist (List.filter_sublist (p := level r k))
  match hlevel : xs.filter (level r k) with
  | [] => rfl
  | [x] => rfl
  | x :: y :: rest =>
    have hk (z : α) (hz : z ∈ xs.filter (level r k)) : r k z = false ∧ r z k = false :=
      level_eq_true_iff.mp (List.mem_filter.mp hz).2
    rw [hlevel] at hfilter hk
    have hyx : r y x = true := (List.pairwise_cons.mp hfilter).1 y List.mem_cons_self
    rw [hr.trans (hk y (by simp)).2 (hk x List.mem_cons_self).1] at hyx
    cases hyx

variable {waits : Bool} {good : Nat}

theorem holds_of_firstRun? (h : firstRun? r waits good xs = some run) :
    run.Holds r (xs.take (firstLength r waits good xs)) := by
  rw [firstRun?] at h
  split at h
  next hgood =>
    cases h
    have hchain := isChain_stretch r (descends r xs) xs
    rw [firstLength, if_pos hgood, ordered]
    cases hdescends : descends r xs with
    | true =>
      rw [hdescends] at hchain
      exact (sorts_reverse_of_isChain hchain).holds
    | false =>
      rw [hdescends] at hchain
      exact (inOrder_of_isChain hchain).sorts.holds
  next =>
    split at h
    next =>
      cases h
      exact holds_unsorted r _
    next =>
      obtain ⟨ys, hys, rfl⟩ := Option.map_eq_some_iff.mp h
      exact (sorts_of_sortShort? hys).holds

/-- **The runs have the items**, one stretch each. -/
theorem exists_holds_of_runs? {runs : List (Run α)} (h : runs? r waits good xs = some runs) :
    ∃ pieces, List.Forall₂ (Run.Holds r) pieces runs ∧ pieces.flatten = xs := by
  fun_induction runs? r waits good xs generalizing runs with
  | case1 =>
    cases h
    exact ⟨[], .nil, rfl⟩
  | case2 x xs ih =>
    obtain ⟨run, hrun, h⟩ := Option.bind_eq_some_iff.mp h
    obtain ⟨rest, hrest, h⟩ := Option.bind_eq_some_iff.mp h
    cases h
    obtain ⟨pieces, hpieces, hflat⟩ := ih hrest
    refine ⟨_, .cons (holds_of_firstRun? hrun) hpieces, ?_⟩
    rw [List.flatten_cons, hflat, List.take_append_drop]

theorem exists_runs?_eq_some (hr : Orders r) (waits : Bool) (good : Nat) (xs : List α) :
    ∃ runs, runs? r waits good xs = some runs := by
  fun_induction runs? r waits good xs with
  | case1 => exact ⟨[], rfl⟩
  | case2 x xs ih =>
    obtain ⟨rest, hrest⟩ := ih
    obtain ⟨ys, hys⟩ :=
      exists_sortShort?_eq_some hr ((x :: xs).take (firstLength r waits good (x :: xs)))
    have hrun : ∃ run, firstRun? r waits good (x :: xs) = some run := by
      rw [firstRun?]
      split
      · exact ⟨_, rfl⟩
      · split
        · exact ⟨_, rfl⟩
        · exact ⟨_, congrArg (Option.map _) hys⟩
    obtain ⟨run, hrun⟩ := hrun
    exact ⟨run :: rest, by rw [hrun, hrest]; rfl⟩

end Cutting

/-! ## Joining -/

/-- Whether what a function returns is sorted. -/
def SortsAll (r : α → α → Bool) (sortAll? : List α → Option (List α)) : Prop :=
  ∀ xs ys, sortAll? xs = some ys → Sorts r xs ys

section Joining

variable {room : Nat} {sortAll? : List α → Option (List α)} {left right : Run α}
  {stack stack' : List (Run α × Nat)} {pieces : List (List α)} {depth : Nat} {run' : Run α}

theorem sorts_of_settle? (hsort : SortsAll r sortAll?) (hrun : run.Holds r xs)
    (h : run.settle? sortAll? = some ys) : Sorts r xs ys := by
  rw [Run.settle?] at h
  split at h
  next hsorted =>
    cases h
    exact hrun.rearranges.sorts (hrun.inOrder hsorted).sorts
  next => exact hrun.rearranges.sorts (hsort _ _ h)

theorem holds_of_join? (hsort : SortsAll r sortAll?) (hleft : left.Holds r xs)
    (hright : right.Holds r ys) (h : left.join? r room sortAll? right = some run) :
    run.Holds r (xs ++ ys) := by
  rw [Run.join?] at h
  split at h
  next =>
    cases h
    exact ⟨hleft.rearranges.append hright.rearranges, nofun⟩
  next =>
    obtain ⟨as, has, h⟩ := Option.bind_eq_some_iff.mp h
    obtain ⟨bs, hbs, h⟩ := Option.bind_eq_some_iff.mp h
    cases h
    have hxs := sorts_of_settle? hsort hleft has
    have hys := sorts_of_settle? hsort hright hbs
    exact ((hxs.toRearranges.append hys.toRearranges).sorts
      (sorts_joinLists hxs.inOrder hys.inOrder)).holds

/-- Whether the runs of a stack have the given items, one stretch each. -/
def Stacked (r : α → α → Bool) (pieces : List (List α)) (stack : List (Run α × Nat)) : Prop :=
  List.Forall₂ (fun xs top => Run.Holds r xs top.1) pieces stack

/-- **Runs joined with those before them** have the items of both. -/
theorem collapse?_holds (hsort : SortsAll r sortAll?) (hstack : Stacked r pieces stack)
    (hrun : run.Holds r xs)
    (h : collapse? r room sortAll? depth stack run = some (stack', run')) :
    ∃ taken pieces', pieces = taken ++ pieces' ∧ Stacked r pieces' stack' ∧
      run'.Holds r (taken.reverse.flatten ++ xs) := by
  fun_induction collapse? r room sortAll? depth stack run generalizing pieces xs with
  | case1 run =>
    cases h
    exact ⟨[], pieces, rfl, hstack, hrun⟩
  | case2 top d stack run hd ih =>
    obtain ⟨joined, hjoined, h⟩ := Option.bind_eq_some_iff.mp h
    cases hstack with
    | cons htop hstack =>
      rename_i piece pieces
      obtain ⟨taken, pieces', rfl, hstack', hrun'⟩ :=
        ih joined hstack (holds_of_join? hsort htop hrun hjoined) h
      refine ⟨piece :: taken, pieces', rfl, hstack', ?_⟩
      rwa [List.reverse_cons, List.flatten_append, List.flatten_singleton, List.append_assoc]
  | case3 top d stack run hd =>
    cases h
    exact ⟨[], pieces, rfl, hstack, hrun⟩

/-- All runs that stand before another are joined with it at depth zero. -/
theorem collapse?_zero (h : collapse? r room sortAll? 0 stack run = some (stack', run')) :
    stack' = [] := by
  induction stack generalizing run with
  | nil =>
    cases h
    rfl
  | cons top stack ih =>
    rw [collapse?, if_pos (Nat.zero_le _)] at h
    obtain ⟨joined, -, h⟩ := Option.bind_eq_some_iff.mp h
    exact ih h

/-- **All runs joined to one** have the items of all. -/
theorem joinRuns?_holds {total place : Nat} {rest : List (Run α)} {others : List (List α)}
    (hsort : SortsAll r sortAll?) (hstack : Stacked r pieces stack) (hrun : run.Holds r xs)
    (hrest : List.Forall₂ (Run.Holds r) others rest)
    (h : joinRuns? r room sortAll? total stack run place rest = some run') :
    run'.Holds r (pieces.reverse.flatten ++ xs ++ others.flatten) := by
  induction rest generalizing stack pieces run xs place others with
  | nil =>
    cases hrest
    obtain ⟨⟨stack', joined⟩, hcollapse, rfl⟩ := Option.map_eq_some_iff.mp h
    cases collapse?_zero hcollapse
    obtain ⟨taken, _, rfl, hnone, hjoined⟩ := collapse?_holds hsort hstack hrun hcollapse
    cases hnone
    rwa [List.append_nil, List.flatten_nil, List.append_nil]
  | cons next rest ih =>
    cases hrest with
    | cons hnext hrest =>
      obtain ⟨⟨stack', joined⟩, hcollapse, h⟩ := Option.bind_eq_some_iff.mp h
      obtain ⟨taken, pieces', rfl, hstack', hjoined⟩ := collapse?_holds hsort hstack hrun hcollapse
      have hall := ih (.cons hjoined hstack') hnext hrest h
      rw [List.reverse_cons, List.flatten_append, List.flatten_singleton] at hall
      rw [List.reverse_append, List.flatten_append, List.flatten_cons]
      simpa only [List.append_assoc] using hall

/-- **Items sorted by runs** are sorted. -/
theorem sorts_of_sortRuns? {waits : Bool} (hsort : SortsAll r sortAll?)
    (h : sortRuns? r room sortAll? waits xs = some ys) : Sorts r xs ys := by
  obtain ⟨runs, hruns, h⟩ := Option.bind_eq_some_iff.mp h
  obtain ⟨pieces, hpieces, rfl⟩ := exists_holds_of_runs? hruns
  cases hpieces with
  | nil =>
    cases h
    exact (show InOrder r [] from fun _ => List.Pairwise.nil).sorts
  | cons hrun hrest =>
    obtain ⟨run, hjoined, h⟩ := Option.bind_eq_some_iff.mp h
    exact sorts_of_settle? hsort (joinRuns?_holds hsort .nil hrun hrest hjoined) h

/-! ## No failure -/

section Total

variable (r room) (hsort : ∀ xs, ∃ ys, sortAll? xs = some ys)

include hsort

theorem exists_settle?_eq_some (run : Run α) : ∃ ys, run.settle? sortAll? = some ys := by
  rw [Run.settle?]
  split
  · exact ⟨_, rfl⟩
  · exact hsort run.items

theorem exists_join?_eq_some (left right : Run α) :
    ∃ run, left.join? r room sortAll? right = some run := by
  rw [Run.join?]
  split
  · exact ⟨_, rfl⟩
  · obtain ⟨xs, hxs⟩ := exists_settle?_eq_some hsort left
    obtain ⟨ys, hys⟩ := exists_settle?_eq_some hsort right
    exact ⟨⟨joinLists r xs ys, true⟩, by rw [hxs, hys]; rfl⟩

theorem exists_collapse?_eq_some (depth : Nat) (stack : List (Run α × Nat)) (run : Run α) :
    ∃ result, collapse? r room sortAll? depth stack run = some result := by
  induction stack generalizing run with
  | nil => exact ⟨_, rfl⟩
  | cons top stack ih =>
    rw [collapse?]
    split
    · obtain ⟨joined, hjoined⟩ := exists_join?_eq_some r room hsort top.1 run
      obtain ⟨result, hresult⟩ := ih joined
      exact ⟨result, by rw [hjoined]; exact hresult⟩
    · exact ⟨_, rfl⟩

theorem exists_joinRuns?_eq_some (total : Nat) (stack : List (Run α × Nat)) (run : Run α)
    (place : Nat) (rest : List (Run α)) :
    ∃ joined, joinRuns? r room sortAll? total stack run place rest = some joined := by
  induction rest generalizing stack run place with
  | nil =>
    obtain ⟨result, hresult⟩ := exists_collapse?_eq_some r room hsort 0 stack run
    exact ⟨result.2, by rw [joinRuns?, hresult, Option.map_some]⟩
  | cons next rest ih =>
    rw [joinRuns?]
    obtain ⟨result, hresult⟩ := exists_collapse?_eq_some r room hsort
      (joinDepth total (place - run.items.length) place (place + next.items.length)) stack run
    rw [hresult]
    exact ih _ next _

/-- **Sorting by runs does not fail** if the relation is an order. -/
theorem exists_sortRuns?_eq_some (hr : Orders r) (waits : Bool) (xs : List α) :
    ∃ ys, sortRuns? r room sortAll? waits xs = some ys := by
  rw [sortRuns?]
  obtain ⟨runs, hruns⟩ := exists_runs?_eq_some hr waits (goodLength xs.length) xs
  rw [hruns]
  match runs with
  | [] => exact ⟨[], rfl⟩
  | run :: rest =>
    obtain ⟨joined, hjoined⟩ := exists_joinRuns?_eq_some r room hsort xs.length [] run
      run.items.length rest
    obtain ⟨ys, hys⟩ := exists_settle?_eq_some hsort joined
    exact ⟨ys, by simpa [hjoined] using hys⟩

end Total

end Joining

/-! ## Nothing but the order matters -/

/-- A run with other items in place of its own. -/
def Run.map (f : α → β) (run : Run α) : Run β := ⟨run.items.map f, run.sorted⟩

section Map

variable (s : β → β → Bool) (f : α → β)

theorem descends_map (xs : List α) :
    descends s (xs.map f) = descends (fun x y => s (f x) (f y)) xs := by
  match xs with
  | [] | [_] | _ :: _ :: _ => rfl

theorem stretch_map (descending : Bool) (xs : List α) :
    stretch s descending (xs.map f) = stretch (fun x y => s (f x) (f y)) descending xs := by
  fun_induction stretch (fun x y => s (f x) (f y)) descending xs with
  | case1 x y rest hyx ih => rw [List.map_cons, List.map_cons, stretch, if_pos hyx, ← ih]; rfl
  | case2 x y rest hyx => rw [List.map_cons, List.map_cons, stretch, if_neg hyx]
  | case3 xs hxs =>
    match xs with
    | [] | [x] => rfl
    | x :: y :: rest => exact absurd rfl (hxs x y rest)

theorem ordered_map (xs : List α) :
    ordered s (xs.map f) = ordered (fun x y => s (f x) (f y)) xs := by
  rw [ordered, descends_map, stretch_map, ordered]

theorem firstLength_map (waits : Bool) (good : Nat) (xs : List α) :
    firstLength s waits good (xs.map f) =
      firstLength (fun x y => s (f x) (f y)) waits good xs := by
  rw [firstLength, ordered_map, firstLength]

theorem map_firstRun? (waits : Bool) (good : Nat) (xs : List α) :
    (firstRun? (fun x y => s (f x) (f y)) waits good xs).map (Run.map f) =
      firstRun? s waits good (xs.map f) := by
  rw [firstRun?, firstRun?, firstLength_map, ordered_map, descends_map, ← List.map_take]
  split
  · split
    · exact congrArg (fun items => some (Run.mk items true)) List.map_reverse
    · rfl
  · split
    · rfl
    · rw [← map_sortShort?, Option.map_map, Option.map_map]
      rfl

theorem map_runs? (waits : Bool) (good : Nat) (xs : List α) :
    (runs? (fun x y => s (f x) (f y)) waits good xs).map (List.map (Run.map f)) =
      runs? s waits good (xs.map f) := by
  fun_induction runs? (fun x y => s (f x) (f y)) waits good xs with
  | case1 => rw [List.map_nil, runs?]; rfl
  | case2 x xs ih =>
    rw [List.map_cons, runs?, ← List.map_cons, ← map_firstRun?, firstLength_map, ← List.map_drop,
      ← ih]
    simp only [Option.map_bind, Option.bind_map, Function.comp_def, Option.bind_eq_bind,
      Option.pure_def, Option.map_some, List.map_cons]

variable (room : Nat) {sortAll? : List α → Option (List α)} {sortAll'? : List β → Option (List β)}
  (hsort : ∀ xs, (sortAll? xs).map (List.map f) = sortAll'? (xs.map f))

include hsort

theorem map_settle? (run : Run α) :
    (run.settle? sortAll?).map (List.map f) = (run.map f).settle? sortAll'? := by
  rw [Run.settle?, Run.settle?, Run.map]
  split
  · rfl
  · exact hsort run.items

theorem map_join? (left right : Run α) :
    (left.join? (fun x y => s (f x) (f y)) room sortAll? right).map (Run.map f) =
      (left.map f).join? s room sortAll'? (right.map f) := by
  have hleft := map_settle? f hsort left
  have hright := map_settle? f hsort right
  rw [Run.join?, Run.join?, ← hleft, ← hright]
  simp only [Run.map, List.length_map]
  split
  · simp [Run.map]
  · simp only [Option.map_bind, Option.bind_map, Function.comp_def, Option.bind_eq_bind,
      Option.pure_def, Option.map_some, Run.map, map_joinLists]

theorem map_collapse? (depth : Nat) (stack : List (Run α × Nat)) (run : Run α) :
    (collapse? (fun x y => s (f x) (f y)) room sortAll? depth stack run).map
        (Prod.map (List.map (Prod.map (Run.map f) id)) (Run.map f)) =
      collapse? s room sortAll'? depth (stack.map (Prod.map (Run.map f) id)) (run.map f) := by
  induction stack generalizing run with
  | nil => rfl
  | cons top stack ih =>
    obtain ⟨top, d⟩ := top
    rw [List.map_cons, Prod.map_apply, id, collapse?, collapse?, ← map_join? s f room hsort]
    split
    · simp only [Option.map_bind, Option.bind_map, Function.comp_def, ← ih, Option.bind_eq_bind]
    · rfl

theorem map_joinRuns? (total : Nat) (stack : List (Run α × Nat)) (run : Run α) (place : Nat)
    (rest : List (Run α)) :
    (joinRuns? (fun x y => s (f x) (f y)) room sortAll? total stack run place rest).map
        (Run.map f) =
      joinRuns? s room sortAll'? total (stack.map (Prod.map (Run.map f) id)) (run.map f) place
        (rest.map (Run.map f)) := by
  have hlength (run : Run α) : (run.map f).items.length = run.items.length := List.length_map f
  induction rest generalizing stack run place with
  | nil =>
    rw [List.map_nil, joinRuns?, joinRuns?, ← map_collapse? s f room hsort, Option.map_map,
      Option.map_map]
    rfl
  | cons next rest ih =>
    rw [List.map_cons, joinRuns?, joinRuns?, hlength, hlength, ← map_collapse? s f room hsort]
    simp only [Option.map_bind, Option.bind_map, Function.comp_def, ih, Option.bind_eq_bind,
      List.map_cons, Prod.map_fst, Prod.map_snd, Prod.map_apply, id]

theorem map_sortRuns? (waits : Bool) (xs : List α) :
    (sortRuns? (fun x y => s (f x) (f y)) room sortAll? waits xs).map (List.map f) =
      sortRuns? s room sortAll'? waits (xs.map f) := by
  rw [sortRuns?, sortRuns?, List.length_map, ← map_runs?]
  simp only [Option.map_bind, Option.bind_map, Function.comp_def, Option.bind_eq_bind]
  refine congrArg _ (funext fun runs => ?_)
  match runs with
  | [] => rfl
  | run :: rest =>
    have hlength : (run.map f).items.length = run.items.length := List.length_map f
    have hjoined := map_joinRuns? s f room hsort xs.length [] run run.items.length rest
    simp only [List.map_nil] at hjoined
    simp only [List.map_cons, hlength, ← hjoined, Option.map_bind, Option.bind_map,
      Function.comp_def, map_settle? f hsort]

end Map

end Michelson.Sorting

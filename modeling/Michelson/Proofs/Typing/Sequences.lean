import Michelson.Proofs.Typing.Conformance

/-!
# Combs written as sequences

A tuple may be written as a pair of its items or as their sequence. The two are read alike item by
item along the types of the tuple, up to the last of these: what is left of a pair of more items is
a pair again, and what is left of a sequence is a sequence. A sequence is also a list, a map or a
piece of code, and a pair is also a ticket, so the last type may tell the two apart, but only if it
is left with two items or more.

## Main definitions

* `Expr.Layout`: a pair or a sequence
* `Expr.frontTypes`, `Expr.lastType`: the types along the right spine of nested pairs
* `Expr.FitsTail`: whether the last type takes what is left for it
* `Expr.takesSequences`: the types that have sequences for values
* `Expr.Layout.fits`: the types but for pairs that have tuples of a layout for values

## Main results

* `Expr.exists_front`: all types but the last one see the items only
* `Typedef.check_pair_iff_check_sequence`: when a typedef accepts the pair and the sequence alike
-/

namespace Michelson

namespace Expr

/-- How the items of a tuple are put together. -/
inductive Layout where
  | pair | sequence

/-- The tuple of some items. -/
def Layout.comb : Layout → List Expr → Expr
  | pair, xs => .app (.data .pair) xs
  | sequence, xs => .seq xs

section Combs

variable {P Q : Expr → Prop} {x y z : Expr} {rest : List Expr} (layout : Layout)

theorem isPairOf_comb_two : (layout.comb [x, y]).IsPairOf .checked P Q ↔ P x ∧ Q y := by
  constructor
  · rintro ⟨left, right, hsplit, hleft, hright⟩
    cases layout <;> cases hsplit <;> exact ⟨hleft, hright⟩
  · rintro ⟨hx, hy⟩
    cases layout with
    | pair => exact ⟨x, y, .pair, hx, hy⟩
    | sequence => exact ⟨x, y, .items trivial, hx, hy⟩

/-- What is left of a longer tuple without its first item has the same layout. -/
theorem isPairOf_comb_more :
    (layout.comb (x :: y :: z :: rest)).IsPairOf .checked P Q ↔
      P x ∧ Q (layout.comb (y :: z :: rest)) := by
  constructor
  · rintro ⟨left, right, hsplit, hleft, hright⟩
    cases layout <;> cases hsplit <;> exact ⟨hleft, hright⟩
  · rintro ⟨hx, hrest⟩
    cases layout with
    | pair => exact ⟨x, _, .longerPair trivial, hx, hrest⟩
    | sequence => exact ⟨x, _, .moreItems trivial, hx, hrest⟩

end Combs

mutual
/-- The types of the items of a tuple but for the last one: those along the right spine of nested
pairs, whatever their annotations. -/
def frontTypes : Expr → List Expr
  | .app (.type .pair) args _ _ => combFronts args
  | _ => []
/-- The types of the items but for the last one in the comb whose arguments these are. -/
def combFronts : List Expr → List Expr
  | [first, second] => first :: frontTypes second
  | first :: second :: third :: rest => first :: combFronts (second :: third :: rest)
  | _ => []
end

mutual
/-- The type of the last item of a tuple. A type that is no pair is the only one. -/
def lastType : Expr → Expr
  | .app (.type .pair) args annots flag => combLast (.app (.type .pair) args annots flag) args
  | e => e
/-- The type of the last item in the comb whose arguments these are, if there are two or more. -/
def combLast (default : Expr) : List Expr → Expr
  | [_, second] => lastType second
  | _ :: second :: third :: rest => combLast default (second :: third :: rest)
  | _ => default
end

/-- **Whether the last type takes what is left for it**, if that is more than one item. -/
def FitsTail (fronts : List Expr) (last : Expr) (xs : List Expr) (layout : Layout) : Prop :=
  fronts.length + 1 < xs.length → last.HasType .checked (layout.comb (xs.drop fronts.length))

theorem fitsTail_cons {fronts : List Expr} {last : Expr} (first x : Expr) (xs : List Expr)
    (layout : Layout) :
    FitsTail (first :: fronts) last (x :: xs) layout ↔ FitsTail fronts last xs layout := by
  simp [FitsTail]

/-- One type more in front sees one item more. -/
theorem exists_front_pairOf {P Q : Expr → Prop} {fronts : List Expr} {last : Expr}
    (hQ : ∀ xs : List Expr, 2 ≤ xs.length →
      ∃ front : Prop, ∀ layout : Layout,
        Q (layout.comb xs) ↔ front ∧ FitsTail fronts last xs layout)
    (first : Expr) (xs : List Expr) (hxs : 2 ≤ xs.length) :
    ∃ front : Prop, ∀ layout : Layout,
      (layout.comb xs).IsPairOf .checked P Q ↔
        front ∧ FitsTail (first :: fronts) last xs layout := by
  rcases xs with _ | ⟨x, _ | ⟨y, _ | ⟨z, rest⟩⟩⟩
  · simp at hxs
  · simp at hxs
  · refine ⟨P x ∧ Q y, fun layout => ?_⟩
    rw [isPairOf_comb_two, fitsTail_cons]
    simp [FitsTail]
  · obtain ⟨front, hfront⟩ := hQ (y :: z :: rest) (by simp)
    refine ⟨P x ∧ front, fun layout => ?_⟩
    rw [isPairOf_comb_more, hfront, fitsTail_cons, and_assoc]

/-- A type that is no pair is the only one. -/
theorem lastType_of_ne {e : Expr}
    (h : ∀ args annots flag, e ≠ .app (.type .pair) args annots flag) :
    e.frontTypes = [] ∧ e.lastType = e := by
  constructor
  · rw [frontTypes]
    exact h
  · rw [lastType]
    exact h

/-- **All types but the last one see the items only**, not how these are put together. -/
theorem exists_front (e : Expr) (xs : List Expr) (hxs : 2 ≤ xs.length) :
    ∃ front : Prop, ∀ layout : Layout,
      e.HasType .checked (layout.comb xs) ↔ front ∧ FitsTail e.frontTypes e.lastType xs layout := by
  refine frontTypes.induct
    (fun e => ∀ xs : List Expr, 2 ≤ xs.length → ∃ front : Prop, ∀ layout : Layout,
      e.HasType .checked (layout.comb xs) ↔ front ∧ FitsTail e.frontTypes e.lastType xs layout)
    (fun args => ∀ default, ∀ xs : List Expr, 2 ≤ xs.length → ∃ front : Prop, ∀ layout : Layout,
      HasCombType .checked args (layout.comb xs) ↔
        front ∧ FitsTail (combFronts args) (combLast default args) xs layout)
    ?pair ?other ?two ?more ?few e xs hxs
  case pair =>
    intro args annots flag ih xs hxs
    simp only [HasType, frontTypes, lastType]
    exact ih _ xs hxs
  case other =>
    intro e he xs hxs
    obtain ⟨hfronts, hlast⟩ := lastType_of_ne he
    refine ⟨True, fun layout => ?_⟩
    rw [hfronts, hlast, FitsTail, true_and]
    exact ⟨fun h _ => h, fun h => h hxs⟩
  case two =>
    intro first second ih default xs hxs
    simp only [HasCombType, combFronts, combLast]
    exact exists_front_pairOf ih first xs hxs
  case more =>
    intro first second third rest ih default xs hxs
    simp only [HasCombType, combFronts, combLast]
    exact exists_front_pairOf (ih default) first xs hxs
  case few =>
    intro args htwo hmore default xs hxs
    refine ⟨False, fun layout => ?_⟩
    rw [HasCombType, false_and]
    · exact htwo
    · exact hmore

/-- The last type is no pair, or else one of too few arguments, which has no values. -/
theorem lastType_cases (e : Expr) :
    (∀ args annots flag, e.lastType ≠ .app (.type .pair) args annots flag) ∨
      ∀ v, ¬ e.lastType.HasType .checked v := by
  refine lastType.induct
    (fun e => (∀ args annots flag, e.lastType ≠ .app (.type .pair) args annots flag) ∨
      ∀ v, ¬ e.lastType.HasType .checked v)
    (fun default args => (args.length < 2 → ∀ v, ¬ default.HasType .checked v) →
      (∀ args' annots flag, combLast default args ≠ .app (.type .pair) args' annots flag) ∨
        ∀ v, ¬ (combLast default args).HasType .checked v)
    ?pair ?other ?two ?more ?few e
  case pair =>
    intro args annots flag ih
    rw [lastType]
    refine ih fun hargs v => ?_
    rcases args with _ | ⟨first, _ | ⟨second, rest⟩⟩
    · simp [HasType, HasCombType]
    · simp [HasType, HasCombType]
    · rw [List.length_cons, List.length_cons] at hargs
      omega
  case other =>
    intro e he
    rw [(lastType_of_ne he).2]
    exact .inl he
  case two =>
    intro default first second ih _
    rw [combLast]
    exact ih
  case more =>
    intro default first second third rest ih _
    rw [combLast]
    exact ih (by simp)
  case few =>
    intro args default htwo hmore hdefault
    have hargs : args.length < 2 := by
      rcases args with _ | ⟨first, _ | ⟨second, _ | ⟨third, rest⟩⟩⟩
      · simp
      · simp
      · exact absurd rfl (htwo first second)
      · exact absurd rfl (hmore first second third rest)
    rw [combLast]
    · exact .inr (hdefault hargs)
    · exact htwo
    · exact hmore

/-! ## Types that tell the layouts apart -/

/-- The types that have sequences for values. -/
def takesSequences (e : Expr) : Bool :=
  [.list, .set, .map, .bigMap, .lambda, .saplingState].any fun c => e.applies (.type c)

/-- The types that are no pairs and have tuples of a layout for values. -/
def Layout.fits : Layout → Expr → Bool
  | pair, e => e.applies (.type .ticket)
  | sequence, e => e.takesSequences

section Apart

variable {e : Expr} {xs : List Expr} {layout : Layout}

theorem fits_of_hasType (he : ∀ args annots flag, e ≠ .app (.type .pair) args annots flag)
    (h : e.HasType .checked (layout.comb xs)) : layout.fits e = true := by
  rw [HasType.eq_def] at h
  split at h
  case h_1 => exact absurd rfl (he _ _ _)
  all_goals cases layout
  all_goals first
    | rfl
    | cases h; done
    | simp [Layout.comb, isSequenceOf_iff, applies, head?] at h

/-- No type has tuples of both layouts. -/
theorem takesSequences_eq_false_of_ticket (h : e.applies (.type .ticket) = true) :
    e.takesSequences = false := by
  obtain ⟨args, annots, flag, rfl⟩ := applies_iff.mp h
  rfl

/-- Only a type that fits the layout takes what is left of a tuple. -/
theorem FitsTail.fits (h : FitsTail e.frontTypes e.lastType xs layout)
    (hxs : e.frontTypes.length + 1 < xs.length) : layout.fits e.lastType = true := by
  rcases lastType_cases e with hlast | hnone
  · exact fits_of_hasType hlast (h hxs)
  · exact absurd (h hxs) (hnone _)

end Apart

end Expr

namespace Typedef

/-- **Pairs and sequences are read alike** along the types of a tuple. A typedef that is derived
from a type accepts the pair and the sequence of some items alike, unless there are more items than
types and the last type is one of sequences, when it does not accept the pair, or a ticket, when it
does not accept the sequence. -/
theorem check_pair_iff_check_sequence (type : Expr) (name : String) (t : Typedef)
    (h : derive type name = .ok t) (xs : List Expr) (hxs : 2 ≤ xs.length) :
    let last := (sectionType type).lastType
    let count := (sectionType type).frontTypes.length + 1
    (xs.length ≤ count ∨ last.takesSequences = false ∧ last.applies (.type .ticket) = false →
      (t.check (.app (.data .pair) xs) = .ok () ↔ t.check (.seq xs) = .ok ())) ∧
    (count < xs.length → last.takesSequences = true →
      t.check (.app (.data .pair) xs) ≠ .ok ()) ∧
    (count < xs.length → last.applies (.type .ticket) = true → t.check (.seq xs) ≠ .ok ()) := by
  intro last count
  obtain ⟨front, hfront⟩ := Expr.exists_front (sectionType type) xs hxs
  have hcheck (layout : Expr.Layout) : t.check (layout.comb xs) = .ok () ↔
      front ∧ Expr.FitsTail (sectionType type).frontTypes last xs layout := by
    rw [← accepts_iff, (derives_of_build _ _ _ _ h).accepts_iff, hfront]
  have hpair := hcheck .pair
  have hsequence := hcheck .sequence
  simp only [Expr.Layout.comb] at hpair hsequence
  have hticket (hcount : count < xs.length)
      (htail : Expr.FitsTail (sectionType type).frontTypes last xs .pair) :
      last.applies (.type .ticket) = true := htail.fits hcount
  have htakes (hcount : count < xs.length)
      (htail : Expr.FitsTail (sectionType type).frontTypes last xs .sequence) :
      last.takesSequences = true := htail.fits hcount
  refine ⟨fun hlast => ?_, fun hcount hlast haccepted => ?_, fun hcount hlast haccepted => ?_⟩
  · rw [hpair, hsequence]
    refine and_congr_right fun _ => ?_
    rcases hlast with hcount | ⟨hnone, hnoTicket⟩
    · exact ⟨fun _ hlt => absurd hlt (by omega), fun _ hlt => absurd hlt (by omega)⟩
    · constructor
      · intro htail hlt
        exact absurd (hticket hlt htail) (ne_true_of_eq_false hnoTicket)
      · intro htail hlt
        exact absurd (htakes hlt htail) (ne_true_of_eq_false hnone)
  · have hnone := Expr.takesSequences_eq_false_of_ticket (hticket hcount (hpair.mp haccepted).2)
    exact absurd hlast (ne_true_of_eq_false hnone)
  · have hnone := Expr.takesSequences_eq_false_of_ticket hlast
    exact absurd (htakes hcount (hsequence.mp haccepted).2) (ne_true_of_eq_false hnone)

/-- A tuple of a number, a text under a label and a list. -/
def orderType : Expr :=
  .app (.type .pair) [.plainType .nat,
    .app (.type .pair) [.plainType .string, .app (.type .list) [.plainType .nat]] ["%rest"]]

theorem check_pair_iff_check_sequence_order :
    ∃ t, derive orderType "order" = .ok t ∧ 2 ≤ [Expr.int 4, .string "a", .seq [.int 1]].length ∧
      t.check (.app (.data .pair) [.int 4, .string "a", .seq [.int 1]]) = .ok () ∧
      t.check (.seq [.int 4, .string "a", .seq [.int 1]]) = .ok () ∧
      t.check (.app (.data .pair) [.int 4, .string "a", .int 1, .int 2]) ≠ .ok () := by
  have haccepts : (derive orderType "order").map
      (·.accepts (.app (.data .pair) [.int 4, .string "a", .seq [.int 1]])) = .ok true := by rfl
  obtain ⟨t, ht, hacc⟩ := map_eq_ok_iff.mp haccepts
  have hpair := accepts_iff.mp hacc
  have halike := check_pair_iff_check_sequence orderType "order" t ht
  refine ⟨t, ht, by decide, hpair, ?_, ?_⟩
  · exact ((halike _ (by decide)).1 (.inl (by decide))).mp hpair
  · exact (halike _ (by decide)).2.1 (by decide) (by decide)

/-- With more items than types, a list at the end takes what is left of a sequence, but not what is
left of a pair. -/
theorem check_pair_not_iff_of_list :
    ∃ t,
      derive (.app (.type .pair) [.plainType .nat, .app (.type .list) [.plainType .nat]]) "root" =
        .ok t ∧
      t.check (.seq [.int 1, .int 2, .int 3]) = .ok () ∧
      t.check (.app (.data .pair) [.int 1, .int 2, .int 3]) ≠ .ok () ∧
      ¬ ∀ xs : List Expr, 2 ≤ xs.length →
        (t.check (.app (.data .pair) xs) = .ok () ↔ t.check (.seq xs) = .ok ()) := by
  have hboth : (derive (.app (.type .pair) [.plainType .nat, .app (.type .list) [.plainType .nat]])
      "root").map (fun t => (t.accepts (.seq [.int 1, .int 2, .int 3]),
        t.accepts (.app (.data .pair) [.int 1, .int 2, .int 3]))) = .ok (true, false) := by rfl
  obtain ⟨t, ht, hacc⟩ := map_eq_ok_iff.mp hboth
  obtain ⟨hsequence, hpair⟩ := Prod.mk.inj hacc
  have hsequence' := accepts_iff.mp hsequence
  have hpair' : t.check (.app (.data .pair) [.int 1, .int 2, .int 3]) ≠ .ok () := by
    rw [← Bool.not_eq_true, accepts_iff] at hpair
    exact hpair
  refine ⟨t, ht, hsequence', hpair', fun hall => ?_⟩
  exact hpair' ((hall [.int 1, .int 2, .int 3] (by decide)).mpr hsequence')

end Typedef

end Michelson

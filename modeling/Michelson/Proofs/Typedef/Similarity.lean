import Michelson.Proofs.Typedef.Equality

/-!
# Similarity of typedefs

Similarity goes one way: a mandatory typedef may serve for an optional one, whatever the two
describe, but not the other way round. It holds at every level or comes to an end at the first pair
of parts of which one is optional and the other is not. Chains of similar typedefs are similar as
long as no link of them is a sequence of unknown items, for these are similar to all collections.
If no items are unknown on either side, then typedefs that may serve for one another are equal.

## Main definitions

* `Typedef.KnowsItems`: typedefs that hold no list and no set of unknown items

## Main results

* `Typedef.similar_iff`: what similar typedefs have in common, one level deep
* `Typedef.similar_refl`, `Typedef.similar_trans`: similarity is a preorder
* `Typedef.equal_of_similar`: typedefs that may serve for one another
* `Typedef.similar_preorder`: all of this
-/

namespace Michelson.Typedef

variable {t u v : Typedef} {ts us vs : List Typedef}

/-- **Whether the items of all lists and sets are known** that a typedef holds. -/
def KnowsItems (t : Typedef) : Prop :=
  ∀ d ∈ t.nodes, isOpenSequence d.kind d.args = false

instance (t : Typedef) : Decidable t.KnowsItems :=
  inferInstanceAs (Decidable (∀ d ∈ t.nodes, isOpenSequence d.kind d.args = false))

theorem KnowsItems.isOpenSequence_eq (h : t.KnowsItems) : isOpenSequence t.kind t.args = false := by
  apply h
  rw [mem_nodes]
  left
  rfl

theorem KnowsItems.of_mem_args (h : t.KnowsItems) {arg : Typedef} (harg : arg ∈ t.args) :
    arg.KnowsItems := by
  intro d hd
  apply h
  rw [mem_nodes]
  right
  exact ⟨arg, harg, hd⟩

/-- A sequence of unknown items is a collection. -/
theorem isCollection_of_isOpenSequence {kind : Kind}
    (h : isOpenSequence kind ts = true) : kind.isCollection = true := by
  rw [isOpenSequence, Bool.and_eq_true] at h
  rw [Kind.isCollection, h.2]
  rfl

/-! ## One level -/

/-- Whether two typedefs that are both optional or both mandatory are similar for their kinds and
components: as collections of which one has unknown items, or part by part. -/
def AlikeWithin (t u : Typedef) : Prop :=
  (isOpenSequence t.kind t.args = true ∧ u.kind.isCollection = true) ∨
    (isOpenSequence u.kind u.args = true ∧ t.kind.isCollection = true) ∨
    (t.kind = u.kind ∧ similarAll t.args u.args = true)

/-- **Similar typedefs**, one level deep. -/
theorem similar_iff :
    t.similar u = true ↔
      (t.optional = true ∧ u.optional = false) ∨
        (t.optional = u.optional ∧ t.AlikeWithin u) := by
  obtain ⟨name, kind, optional, args, path⟩ := t
  obtain ⟨name', kind', optional', args', path'⟩ := u
  rw [similar]
  by_cases hoptional : optional = optional'
  · subst hoptional
    rw [if_neg (by simp)]
    cases optional <;> simp [AlikeWithin, or_assoc]
  · rw [if_pos hoptional]
    cases optional <;> cases optional' <;> simp_all

theorem similarAll_iff_forall₂ :
    similarAll ts us = true ↔ List.Forall₂ (fun t u => t.similar u = true) ts us := by
  induction ts generalizing us with
  | nil => cases us <;> simp [similarAll]
  | cons t ts ih => cases us <;> simp [similarAll, ih]

/-- If all items are known, similar typedefs of the same option have similar parts. -/
theorem AlikeWithin.parts (h : t.AlikeWithin u) (ht : t.KnowsItems) (hu : u.KnowsItems) :
    t.kind = u.kind ∧ similarAll t.args u.args = true := by
  rcases h with ⟨hopen, -⟩ | ⟨hopen, -⟩ | hparts
  · rw [ht.isOpenSequence_eq] at hopen
    cases hopen
  · rw [hu.isOpenSequence_eq] at hopen
    cases hopen
  · exact hparts

/-! ## The laws -/

/-- Equal typedefs are similar. -/
theorem similar_of_equal (h : t.equal u = true) : t.similar u = true := by
  induction t using args_induction generalizing u with
  | node t ih =>
    obtain ⟨hkind, hoptional, hargs⟩ := equal_iff.mp h
    rw [equalAll_iff_forall₂] at hargs
    have hparts : List.Forall₂ (fun t u => t.similar u = true) t.args u.args := by
      have hboth := (List.forall₂_and_left t.args u.args).mpr ⟨@ih, hargs⟩
      exact hboth.imp fun _ _ h => h.1 h.2
    rw [similar_iff]
    right
    exact ⟨hoptional, .inr (.inr ⟨hkind, similarAll_iff_forall₂.mpr hparts⟩)⟩

theorem similar_refl (t : Typedef) : t.similar t = true :=
  similar_of_equal (equal_equivalence.refl t)

/-- Similarity of lists is transitive if it is so in the middle. -/
theorem similarAll_trans
    (hus : ∀ u ∈ us, ∀ t v : Typedef, t.similar u = true → u.similar v = true →
      t.similar v = true)
    (h : similarAll ts us = true) (h' : similarAll us vs = true) : similarAll ts vs = true := by
  rw [similarAll_iff_forall₂] at h h' ⊢
  induction h generalizing vs with
  | nil => exact h'
  | @cons t u ts us htu _ ih =>
    rw [List.forall_mem_cons] at hus
    obtain ⟨v, vs, huv, hvs, rfl⟩ := List.forall₂_cons_left_iff.mp h'
    constructor
    · exact hus.1 t v htu huv
    · exact ih hus.2 hvs

/-- **Similarity is transitive** as long as the typedef in the middle knows its items. -/
theorem similar_trans (hu : u.KnowsItems) (h : t.similar u = true) (h' : u.similar v = true) :
    t.similar v = true := by
  -- Induction on the typedef in the middle, and at each level first the options of all three: from
  -- one link to the next an option may be lost, but none is gained.
  induction u using args_induction generalizing t v with
  | node u ih =>
    rw [similar_iff] at h h' ⊢
    rcases h with ⟨htaken, hlost⟩ | ⟨hoptional, h⟩
    · left
      rcases h' with ⟨htaken', -⟩ | ⟨hoptional', -⟩
      · rw [hlost] at htaken'
        cases htaken'
      · exact ⟨htaken, hoptional' ▸ hlost⟩
    rcases h' with ⟨htaken', hlost'⟩ | ⟨hoptional', h'⟩
    · left
      exact ⟨hoptional.trans htaken', hlost'⟩
    right
    refine ⟨hoptional.trans hoptional', ?_⟩
    have hknown := hu.isOpenSequence_eq
    rcases h with ⟨hopen, hcollection⟩ | ⟨hopen, -⟩ | ⟨hkind, hargs⟩
    · left
      refine ⟨hopen, ?_⟩
      rcases h' with ⟨hopen', -⟩ | ⟨hopen', -⟩ | ⟨hkind', -⟩
      · rw [hknown] at hopen'
        cases hopen'
      · exact isCollection_of_isOpenSequence hopen'
      · exact hkind' ▸ hcollection
    · rw [hknown] at hopen
      cases hopen
    · right
      rcases h' with ⟨hopen', -⟩ | ⟨hopen', hcollection⟩ | ⟨hkind', hargs'⟩
      · rw [hknown] at hopen'
        cases hopen'
      · left
        exact ⟨hopen', hkind ▸ hcollection⟩
      · right
        refine ⟨hkind.trans hkind', similarAll_trans (fun arg harg t v => ?_) hargs hargs'⟩
        exact ih arg harg (hu.of_mem_args harg)

/-- An option that is lost one way is not gained the other way. -/
theorem alikeWithin_of_similar (h : t.similar u = true) (h' : u.similar t = true) :
    t.optional = u.optional ∧ t.AlikeWithin u ∧ u.AlikeWithin t := by
  rw [similar_iff] at h h'
  rcases h with ⟨htaken, hlost⟩ | ⟨hoptional, h⟩
  · simp [htaken, hlost] at h'
  · rcases h' with ⟨htaken, hlost⟩ | ⟨-, h'⟩
    · rw [hoptional, htaken] at hlost
      cases hlost
    · exact ⟨hoptional, h, h'⟩

/-- Lists that are similar both ways are equal if their items are. -/
theorem equalAll_of_similarAll
    (hts : ∀ t ∈ ts, ∀ u ∈ us, t.similar u = true → u.similar t = true → t.equal u = true)
    (h : similarAll ts us = true) (h' : similarAll us ts = true) : equalAll ts us = true := by
  rw [similarAll_iff_forall₂] at h h'
  rw [equalAll_iff_forall₂]
  induction h with
  | nil => exact .nil
  | @cons t u ts us htu _ ih =>
    rw [List.forall₂_cons] at h'
    constructor
    · exact hts t (.head _) u (.head _) htu h'.1
    · refine ih (fun t ht u hu => ?_) h'.2
      exact hts t (.tail _ ht) u (.tail _ hu)

/-- **Typedefs that may serve for one another are equal** if they know their items. -/
theorem equal_of_similar (ht : t.KnowsItems) (hu : u.KnowsItems) (h : t.similar u = true)
    (h' : u.similar t = true) : t.equal u = true := by
  induction t using args_induction generalizing u with
  | node t ih =>
    obtain ⟨hoptional, hwithin, hwithin'⟩ := alikeWithin_of_similar h h'
    obtain ⟨hkind, hargs⟩ := hwithin.parts ht hu
    obtain ⟨-, hargs'⟩ := hwithin'.parts hu ht
    rw [equal_iff]
    refine ⟨hkind, hoptional, equalAll_of_similarAll ?_ hargs hargs'⟩
    intro arg harg other hother
    exact ih arg harg (ht.of_mem_args harg) (hu.of_mem_args hother)

/-- **Similarity is a preorder** whose symmetric part is equality. Every typedef is similar to
itself. What is similar to a typedef that is similar to a third one is similar to that, too, if the
one in the middle has no list and no set of unknown items. Two typedefs without these are similar
both ways just if they are equal. -/
theorem similar_preorder :
    (∀ t : Typedef, t.similar t = true) ∧
      (∀ t u v : Typedef, u.KnowsItems → t.similar u = true → u.similar v = true →
        t.similar v = true) ∧
      ∀ t u : Typedef, t.KnowsItems → u.KnowsItems →
        ((t.similar u = true ∧ u.similar t = true) ↔ t.equal u = true) := by
  refine ⟨similar_refl, fun t u v => similar_trans, fun t u ht hu => ⟨?_, fun h => ?_⟩⟩
  · rintro ⟨h, h'⟩
    exact equal_of_similar ht hu h h'
  · exact ⟨similar_of_equal h, similar_of_equal (equal_equivalence.symm h)⟩

/-- A struct with a list of numbers and a text, of which either may be optional. -/
def listing (name : String) (item last : Bool) : Typedef :=
  ⟨name, .struct, false,
    [⟨"items", .type .list, false, [⟨"@item", .type .nat, item, [], [0, 0]⟩], [0]⟩,
      ⟨"last", .type .string, last, [], [1]⟩], []⟩

/-- Two options are lost one after the other, and names do not count. -/
theorem similar_preorder_listing :
    (listing "full" true true).similar (listing "entry" true false) = true ∧
      (listing "entry" true false).similar (listing "bare" false false) = true ∧
      (listing "full" true true).similar (listing "bare" false false) = true ∧
      ((listing "entry" true false).similar (listing "item" true false) = true ∧
        (listing "item" true false).similar (listing "entry" true false) = true) := by
  obtain ⟨-, htrans, hequal⟩ := similar_preorder
  have hfirst : (listing "full" true true).similar (listing "entry" true false) = true := by decide
  have hsecond : (listing "entry" true false).similar (listing "bare" false false) = true := by
    decide
  refine ⟨hfirst, hsecond, htrans _ _ _ (by decide) hfirst hsecond, ?_⟩
  exact (hequal _ _ (by decide) (by decide)).mpr (by decide)

/-- A list of unknown items in the middle is similar to lists and to sets, which are not similar to
one another. -/
example :
    let number : Typedef := ⟨"@item", .type .nat, false, [], [0]⟩
    let text : Typedef := ⟨"@item", .type .string, false, [], [0]⟩
    let numbers : Typedef := ⟨"numbers", .type .list, false, [number], []⟩
    let unknown : Typedef := ⟨"unknown", .type .list, false, [], []⟩
    let texts : Typedef := ⟨"texts", .type .set, false, [text], []⟩
    numbers.similar unknown = true ∧ unknown.similar texts = true ∧
      numbers.similar texts = false := by
  decide

end Michelson.Typedef

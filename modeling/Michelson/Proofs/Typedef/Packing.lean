import Michelson.Proofs.Expr.PackedFlags
import Michelson.Proofs.Typedef.Formation
import Michelson.Proofs.Typedef.NormalForm

/-!
# Typedefs of unpacked types

A pair that was read from packed bytes is not flattened into the comb around it. Flags therefore
change which struct a field is listed in, what it is named by its position, and where it lies. They
do not change whether there is a typedef, since that is a matter of the arguments alone, nor its
unfolded form, since an unnamed pair that was left standing is replaced by its fields there.

## Main results

* `Expr.isType_congr`: flags do not tell whether an expression is a type
* `Typedef.exists_derive_of_same`: the typedefs of types that are equal up to flags
* `Typedef.length_args_of_build_markPacked`: combs that are marked are not flattened
* `Typedef.packing_round_trip`: unpacked expressions, and the typedefs of unpacked types
-/

namespace Michelson

namespace Expr

theorem isType_unmarked (e : Expr) : e.unmarked.IsType ↔ e.IsType := by
  induction e with
  | int | string | bytes | seq => constructor <;> (intro h; cases h)
  | app p args annots flag ih =>
    cases p with
    | keyword | data | instruction => constructor <;> (intro h; cases h)
    | type c =>
      rw [unmarked, unmarkedAll_eq_map]
      cases hc : c.isSapling with
      | true => exact iff_of_true (.sapling hc) (.sapling hc)
      | false =>
        rw [isType_app_iff hc, isType_app_iff hc, List.length_map, List.forall_mem_map]
        exact and_congr_right fun _ => forall₂_congr ih

/-- **Flags do not tell** whether an expression is a type. -/
theorem isType_congr {x y : Expr} (h : same x y = true) : x.IsType ↔ y.IsType := by
  rw [← isType_unmarked x, same_iff.mp h, isType_unmarked]

end Expr

namespace Typedef

open Michelson.Expr Michelson.Binary

theorem sectionType_unmarked (e : Expr) :
    sectionType e.unmarked = (sectionType e).unmarked := by
  cases e with
  | int | string | bytes | seq => rfl
  | app p args annots flag =>
    rcases args with _ | ⟨x, _ | ⟨y, rest⟩⟩
    all_goals
      cases p with
      | keyword k => cases k <;> rfl
      | type | data | instruction => rfl

theorem sectionType_same {x y : Expr} (h : x.same y = true) :
    (sectionType x).same (sectionType y) = true := by
  rw [same_iff, ← sectionType_unmarked, same_iff.mp h, sectionType_unmarked]

/-- **Typedefs of types that are equal up to flags**: if one of them has a typedef then so has the
other, and the unfolded forms are strictly equal. -/
theorem exists_derive_of_same {x y : Expr} (h : x.same y = true) {name : String} {t : Typedef}
    (ht : derive x name = .ok t) :
    ∃ u, derive y name = .ok u ∧ u.unfold.strictEqual t.unfold = true := by
  have hsection := sectionType_same h
  have htype : (sectionType y).IsType := by
    rw [← isType_congr hsection, ← exists_build_iff_isType name []]
    exact ⟨t, ht⟩
  obtain ⟨u, hu⟩ := (exists_build_iff_isType name []).mpr htype
  refine ⟨u, hu, strictEqual_of_normalize_eq ?_⟩
  rw [(derives_of_build _ _ _ _ hu).normalize_eq, (derives_of_build _ _ _ _ ht).normalize_eq]
  exact ((agree_of_same hsection).1 name).symm

/-! ## Combs of unpacked types -/

/-- A comb of which no argument goes on with it has a field for each of its arguments. -/
theorem DerivesFields.length_eq {args : List Expr} {path : List Nat} {ts : List Typedef}
    (h : DerivesFields args path ts) (hargs : ∀ x ∈ args, continuesComb x = false) :
    ts.length = args.length := by
  induction args generalizing path ts with
  | nil => cases h
  | cons x rest ih =>
    rw [List.forall_mem_cons] at hargs
    cases h with
    | nest _ _ =>
      have hlast := hargs.2 _ (.head _)
      rw [continuesComb] at hlast
      cases hlast
    | last _ _ _ => rfl
    | next _ hs => rw [List.length_cons, List.length_cons, ih hs hargs.2]

/-- A pair that is marked does not go on with the comb around it. -/
theorem continuesComb_markPacked (e : Expr) : continuesComb e.markPacked = false := by
  rw [← Bool.not_eq_true]
  intro hcomb
  obtain ⟨args, hargs⟩ := exists_of_continuesComb hcomb
  have hflag := (packed_markPacked_iff e).mpr (.inr (.inr (by rw [hargs]; rfl)))
  rw [hargs] at hflag
  cases hflag

/-- **A comb that is marked is not flattened**: its typedef has a field for each argument. -/
theorem length_args_of_build_markPacked {args : List Expr} {annots : List String} {flag : Bool}
    {fallback : String} {path : List Nat} {t : Typedef}
    (h : build (markPacked (.app (.type .pair) args annots flag)) fallback path = .ok t) :
    t.args.length = args.length := by
  have hmarked : ∀ x ∈ args.map markPacked, continuesComb x = false := by
    rw [List.forall_mem_map]
    intro x _
    exact continuesComb_markPacked x
  rw [markPacked, markPackedAll_eq_map] at h
  rw [← List.length_map markPacked]
  generalize args.map markPacked = marked at h hmarked ⊢
  cases derives_of_build _ _ _ _ h with
  | struct hfields =>
    show (numberFields _).length = marked.length
    rw [numberFields, List.length_mapIdx, hfields.length_eq hmarked]
  | leaf hkind | unary hkind | binary hkind => cases hkind

/-- **The round trip through packed data.** An expression that is not nested too deeply, whose
lengths fit and whose annotations are plain, is unpacked as an equal one, in which the flag is set
at the pairs and at no other node. If it is a type, then so is the unpacked one, and the unfolded
forms of their typedefs are strictly equal. -/
theorem packing_round_trip (p : Expr) (hheight : p.height ≤ maxDepth)
    (hannots : p.PlainlyAnnotated) (hfits : p.FitsLengths) :
    ∃ q, unpack p.pack = .ok q ∧ (q == p) = true ∧
      (∀ node ∈ q.nodes, node.packed = true ↔
        node.applies (.data .pair) = true ∨ node.applies (.type .pair) = true) ∧
      ∀ name t, derive p name = .ok t →
        ∃ u, derive q name = .ok u ∧ u.unfold.strictEqual t.unfold = true := by
  have hsame : p.canonical.markPacked.same p = true :=
    same_trans (markPacked_same p.canonical) (canonical_same hannots)
  refine ⟨p.canonical.markPacked, unpack_pack hfits hheight, hsame, ?_, ?_⟩
  · intro node hnode
    exact packed_iff_of_mem_nodes_markPacked hnode
  · intro name t ht
    exact exists_derive_of_same (same_symm hsame) ht

/-- A comb of a list of triples, two fields beside it, and a pair of two more at its end. -/
def journalType : Expr :=
  .app (.type .pair)
    [.app (.type .list)
      [.app (.type .pair)
        [.plainType .nat, .app (.type .pair) [.plainType .string, .plainType .int]]] ["%entries"],
     .app (.type .address) [] ["%owner"],
     .app (.type .option) [.plainType .bytes],
     .app (.type .pair) [.plainType .nat, .app (.type .mutez) [] [":fee"]]]

/-- The pairs at the ends of the combs stand apart in the typedef of the unpacked type, which has
four fields and not five, until it is unfolded. -/
theorem packing_round_trip_journalType :
    ∃ q t u, unpack journalType.pack = .ok q ∧ (q == journalType) = true ∧
      derive journalType "journal" = .ok t ∧ t.args.length = 5 ∧
      derive q "journal" = .ok u ∧ u.args.length = 4 ∧
      u.unfold.strictEqual t.unfold = true := by
  have hfits : journalType.FitsLengths := by decide
  obtain ⟨q, hq, hequal, -, htypedef⟩ :=
    packing_round_trip journalType (by decide) (by decide) hfits
  obtain ⟨u, hu, hunfold⟩ := htypedef "journal" _ rfl
  have hmarked : q = journalType.canonical.markPacked :=
    Except.ok.inj (hq.symm.trans (unpack_pack hfits (by decide)))
  have hcount : u.args.length = 4 := by
    subst hmarked
    have hbuild : build (markPacked (.app (.type .pair) (journalType.children.map canonical)))
        "journal" [] = .ok u := hu
    exact length_args_of_build_markPacked hbuild
  exact ⟨q, _, u, hq, hequal, rfl, rfl, hu, hcount, hunfold⟩

end Typedef

end Michelson

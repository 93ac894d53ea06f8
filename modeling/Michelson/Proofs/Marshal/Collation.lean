import Mathlib.Data.List.Pairwise
import Michelson.Proofs.Marshal.Listing
import Michelson.Proofs.Typedef.Placement

/-!
# The order of collections in the two forms

The outlines for one typedef have the same shape, so that any two of them are ordered alike in the
readable and in the compact form unless they clash. As the keys of a collection are outlines for one
typedef, the collection is listed in the same order in both forms unless two of its keys clash.

## Main definitions

* `Typedef.Collates`: whether the outlines for a typedef are ordered alike unless they clash

## Main results

* `Typedef.collates`: the outlines for a typedef with branches that part
* `Typedef.listed_alike_of_marshal`: the collections in what is built for a derived typedef
* `Typedef.listed_differently_fiveDigit`: a set whose members clash
-/

namespace Michelson

namespace Typedef

/-! ## Outlines for one typedef -/

/-- Whether any two outlines for a typedef are ordered alike in the two forms unless they clash, and
so are the keys of the collections within them. -/
structure Collates (t : Typedef) : Prop where
  coherent : ∀ value o, t.outline value = .ok o → o.Coherent
  alike : ∀ value value' x y, t.outline value = .ok x → t.outline value' = .ok y → x.Alike y

section Parts

variable {ts : List Typedef} (h : ∀ t ∈ ts, t.Collates)

include h

theorem coherent_of_outlineFields {struct : Typedef} {value : Json} {position : Nat}
    {fields : List (List Nat × Outline)}
    (hfields : outlineFields struct value position (parts ts) = .ok fields) :
    ∀ f ∈ fields, f.2.Coherent := by
  induction ts generalizing position fields with
  | nil =>
    cases hfields
    simp
  | cons t ts ih =>
    rw [List.forall_mem_cons] at h
    simp only [parts, outlineFields, bind_eq_ok_iff, pure_eq_ok_iff] at hfields
    obtain ⟨v, -, o, ho, rest, hrest, rfl⟩ := hfields
    exact List.forall_mem_cons.mpr ⟨h.1.coherent v o ho, ih h.2 hrest⟩

theorem alike_of_outlineFields {struct : Typedef} {value value' : Json} {position : Nat}
    {fields fields' : List (List Nat × Outline)}
    (hfields : outlineFields struct value position (parts ts) = .ok fields)
    (hfields' : outlineFields struct value' position (parts ts) = .ok fields') :
    RelatedParts Outline.Alike fields fields' := by
  induction ts generalizing position fields fields' with
  | nil =>
    cases hfields
    cases hfields'
    exact .nil
  | cons t ts ih =>
    rw [List.forall_mem_cons] at h
    simp only [parts, outlineFields, bind_eq_ok_iff, pure_eq_ok_iff] at hfields hfields'
    obtain ⟨v, -, o, ho, rest, hrest, rfl⟩ := hfields
    obtain ⟨v', -, o', ho', rest', hrest', rfl⟩ := hfields'
    exact .cons ⟨rfl, h.1.alike v v' o o' ho ho'⟩ (ih h.2 hrest hrest')

theorem exists_of_outlineItems {collection : Typedef} {value : Json} {items : List Outline}
    (hitems : outlineItems collection value (parts ts) = .ok items) :
    (∀ o ∈ items, o.Coherent) ∧ ∀ x ∈ items, ∀ y ∈ items, x.Alike y := by
  cases ts with
  | nil => cases hitems
  | cons t ts =>
    obtain ⟨hosts, -, hitems⟩ := bind_eq_ok_iff.mp hitems
    have ht := h t List.mem_cons_self
    refine ⟨fun o ho => ?_, fun x hx y hy => ?_⟩
    · obtain ⟨v, hv⟩ := exists_of_mapM_eq_ok hitems o ho
      exact ht.coherent v o hv
    · obtain ⟨v, hv⟩ := exists_of_mapM_eq_ok hitems x hx
      obtain ⟨v', hv'⟩ := exists_of_mapM_eq_ok hitems y hy
      exact ht.alike v v' x y hv hv'

theorem exists_of_outlineEntries {collection : Typedef} {value : Json} {entries : List Outline}
    (hentries : outlineEntries collection value (parts ts) = .ok entries) :
    (∀ o ∈ entries, o.Coherent) ∧
      ∀ x ∈ entries, ∀ y ∈ entries, x.entryKey.Alike y.entryKey := by
  match ts, h with
  | [], _ | [_], _ => cases hentries
  | t :: u :: ts, h =>
    rw [List.forall_mem_cons, List.forall_mem_cons] at h
    have hentry : ∀ o ∈ entries, ∃ v v' key value, t.outline v = .ok key ∧
        u.outline v' = .ok value ∧ o = .app (.data .elt) [key, value] := by
      intro o ho
      cases value with
      | object members =>
        obtain ⟨m, hm⟩ := exists_of_mapM_eq_ok hentries o ho
        simp only [bind_eq_ok_iff, pure_eq_ok_iff] at hm
        obtain ⟨key, hkey, value, hvalue, rfl⟩ := hm
        exact ⟨_, m.2, key, value, hkey, hvalue, rfl⟩
      | array items =>
        obtain ⟨item, hitem⟩ := exists_of_mapM_eq_ok hentries o ho
        simp only [bind_eq_ok_iff, pure_eq_ok_iff] at hitem
        obtain ⟨⟨v, v'⟩, -, key, hkey, value, hvalue, rfl⟩ := hitem
        exact ⟨v, v', key, value, hkey, hvalue, rfl⟩
      | _ => cases hentries
    refine ⟨fun o ho => ?_, fun x hx y hy => ?_⟩
    · obtain ⟨v, v', key, value, hkey, hvalue, rfl⟩ := hentry o ho
      refine Outline.coherent_app _ ?_
      rw [List.forall_mem_cons, List.forall_mem_singleton]
      exact ⟨h.1.coherent v key hkey, h.2.1.coherent v' value hvalue⟩
    · obtain ⟨v, -, key, value, hkey, -, rfl⟩ := hentry x hx
      obtain ⟨v', -, key', value', hkey', -, rfl⟩ := hentry y hy
      exact h.1.alike v v' key key' hkey hkey'

end Parts

theorem exists_of_outlineBranch {union : Typedef} {name : String} {inner : Json}
    {ts : List Typedef} {o : Outline}
    (h : outlineBranch union name inner (parts ts) = .ok o) :
    ∃ t ∈ ts, ∃ x, t.outline inner = .ok x ∧ o = .wrap (t.pathFrom union) x := by
  induction ts with
  | nil => cases h
  | cons t ts ih =>
    rw [parts, outlineBranch] at h
    split at h
    · obtain ⟨x, hx, h⟩ := bind_eq_ok_iff.mp h
      cases h
      exact ⟨t, List.mem_cons_self, x, hx, rfl⟩
    · obtain ⟨u, hu, x, hx, ho⟩ := ih h
      exact ⟨u, List.mem_cons_of_mem _ hu, x, hx, ho⟩

/-- Whether the values of two branches of a union are ordered alike unless they clash. -/
def BranchesAlike (union a b : Typedef) : Prop :=
  ∀ value value' x y, a.outline value = .ok x → b.outline value' = .ok y →
    (Outline.wrap (a.pathFrom union) x).Alike (.wrap (b.pathFrom union) y)

theorem branchesAlike {union : Typedef} (hkind : union.kind = .union) (hparts : union.BranchesPart)
    (h : ∀ arg ∈ union.args, arg.Collates) {a b : Typedef} (ha : a ∈ union.args)
    (hb : b ∈ union.args) : BranchesAlike union a b := by
  refine hparts.forall_mem_args hkind ?_ ?_ a ha b hb
  · intro c hc value value' x y hx hy
    exact ((h c hc).alike value value' x y hx hy).wrap _
  · intro a b front rest rest' ha hb
    constructor
    all_goals
      intro value value' x y _ _
      rw [ha, hb]
    · exact Outline.alike_wrap_of_ne (by decide) front rest rest' x y
    · exact Outline.alike_wrap_of_ne (by decide) front rest' rest x y

section Held

variable {t : Typedef} (h : ∀ arg ∈ t.args, arg.Collates) {value value' : Json} {x y : Outline}
  (hx : outlineHeld t (parts t.args) value = .ok x)
  (hy : outlineHeld t (parts t.args) value' = .ok y)

include h hx hy

theorem collates_struct (hkind : t.kind = .struct) : x.Coherent ∧ x.Alike y := by
  simp only [outlineHeld, hkind] at hx hy
  obtain ⟨fields, hfields, hx⟩ := bind_eq_ok_iff.mp hx
  obtain ⟨fields', hfields', hy⟩ := bind_eq_ok_iff.mp hy
  split at hx
  next comb hcomb =>
    cases hx
    split at hy
    next comb' hcomb' =>
      cases hy
      have hcoherent := coherent_of_outlineFields h hfields
      have halike := alike_of_outlineFields h hfields hfields'
      exact ⟨Outline.coherent_of_assemble? hcoherent hcomb,
        Outline.alike_of_assemble? halike hcomb hcomb'⟩
    next => cases hy
  next => cases hx

theorem collates_union (hkind : t.kind = .union) (hparts : t.BranchesPart) :
    x.Coherent ∧ x.Alike y := by
  simp only [outlineHeld, hkind] at hx hy
  obtain ⟨⟨branch, inner⟩, -, hx⟩ := bind_eq_ok_iff.mp hx
  obtain ⟨⟨branch', inner'⟩, -, hy⟩ := bind_eq_ok_iff.mp hy
  obtain ⟨a, ha, o, ho, rfl⟩ := exists_of_outlineBranch hx
  obtain ⟨b, hb, o', ho', rfl⟩ := exists_of_outlineBranch hy
  exact ⟨((h a ha).coherent inner o ho).wrap _,
    branchesAlike hkind hparts h ha hb inner inner' o o' ho ho'⟩

theorem collates_type {c : TypeConstructor} (hkind : t.kind.head? = some (.type c)) :
    x.Coherent ∧ x.Alike y := by
  have hgiven {items : List Outline} (hitems : outlineItems t value (parts t.args) = .ok items) :
      (Outline.seq .asGiven items).Coherent :=
    Outline.coherent_seq (exists_of_outlineItems h hitems).1 fun _ hkey => nomatch hkey
  have hvalues {items : List Outline} (hitems : outlineItems t value (parts t.args) = .ok items) :
      (Outline.seq .byValue items).Coherent := by
    refine Outline.coherent_seq (exists_of_outlineItems h hitems).1 ?_
    rintro key hkey
    cases hkey
    exact (exists_of_outlineItems h hitems).2
  have hkeys {value : Json} {entries : List Outline}
      (hentries : outlineEntries t value (parts t.args) = .ok entries) :
      (Outline.seq .byKey entries).Coherent := by
    refine Outline.coherent_seq (exists_of_outlineEntries h hentries).1 ?_
    rintro key hkey
    cases hkey
    exact (exists_of_outlineEntries h hentries).2
  rcases Kind.head?_eq_type_iff.mp hkind with hkind | ⟨size, hkind⟩
  all_goals
    simp only [outlineHeld, hkind] at hx hy
    cases c with
    | list =>
      obtain ⟨items, hitems, hx⟩ := bind_eq_ok_iff.mp hx
      cases hx
      exact ⟨hgiven hitems, Outline.alike_seq_left _ _ _⟩
    | set =>
      obtain ⟨items, hitems, hx⟩ := bind_eq_ok_iff.mp hx
      cases hx
      exact ⟨hvalues hitems, Outline.alike_seq_left _ _ _⟩
    | map =>
      obtain ⟨entries, hentries, hx⟩ := bind_eq_ok_iff.mp hx
      cases hx
      exact ⟨hkeys hentries, Outline.alike_seq_left _ _ _⟩
    | bigMap =>
      cases value with
      | number n =>
        obtain ⟨e, -, hx⟩ := bind_eq_ok_iff.mp hx
        cases hx
        refine ⟨Outline.coherent_plain e, ?_⟩
        cases value' with
        | number n' =>
          obtain ⟨e', -, hy⟩ := bind_eq_ok_iff.mp hy
          cases hy
          exact Outline.alike_plain e e'
        | _ =>
          obtain ⟨entries, -, hy⟩ := bind_eq_ok_iff.mp hy
          cases hy
          exact Outline.alike_seq_right _ _ _
      | _ =>
        obtain ⟨entries, hentries, hx⟩ := bind_eq_ok_iff.mp hx
        cases hx
        exact ⟨hkeys hentries, Outline.alike_seq_left _ _ _⟩
    | _ => exact ⟨Outline.coherent_of_outlineScalar hx, alike_of_outlineScalar hx hy⟩

/-- What an option holds. -/
theorem collates_held (hparts : t.BranchesPart) : x.Coherent ∧ x.Alike y := by
  cases hkind : t.kind with
  | struct => exact collates_struct h hx hy hkind
  | union => exact collates_union h hx hy hkind hparts
  | type c => exact collates_type h hx hy (congrArg Kind.head? hkind)
  | sapling p size =>
    cases p with
    | type c => exact collates_type h hx hy (congrArg Kind.head? hkind)
    | _ =>
      unfold outlineHeld at hx
      rw [hkind] at hx
      cases hx

end Held

/-- An outline is nothing for an option, or else it has what the host value stands for. -/
theorem outline_eq_ok {t : Typedef} {value : Json} {o : Outline} (h : t.outline value = .ok o) :
    (t.optional = true ∧ o = .app (.data .none) []) ∨
      ∃ x, outlineHeld t (parts t.args) (t.unwrapName value) = .ok x ∧
        o = if t.optional then .app (.data .some) [x] else x := by
  rw [outline_eq, outlineWith] at h
  split at h
  next hoptional _ =>
    cases h
    exact .inl ⟨hoptional, rfl⟩
  · obtain ⟨x, hx, h⟩ := bind_eq_ok_iff.mp h
    cases h
    exact .inr ⟨x, hx, rfl⟩

/-- **Outlines for one typedef** are ordered alike unless they clash, if the branches of its unions
part. -/
theorem collates {t : Typedef} (hparts : ∀ d ∈ t.nodes, d.BranchesPart) : t.Collates := by
  induction t using args_induction with
  | node t ih =>
    have hargs : ∀ arg ∈ t.args, arg.Collates := fun arg harg =>
      ih arg harg fun d hd => hparts d (mem_nodes.mpr (.inr ⟨arg, harg, hd⟩))
    have hself := hparts t (mem_nodes.mpr (.inl rfl))
    constructor
    · intro value o ho
      rcases outline_eq_ok ho with ⟨-, rfl⟩ | ⟨x, hx, rfl⟩
      · exact Outline.coherent_app _ (List.forall_mem_nil _)
      · have hheld := (collates_held hargs hx hx hself).1
        split
        · exact Outline.coherent_app _ (List.forall_mem_singleton.mpr hheld)
        · exact hheld
    · intro value value' o o' ho ho'
      rcases outline_eq_ok ho with ⟨hsome, rfl⟩ | ⟨x, hx, rfl⟩
      · rcases outline_eq_ok ho' with ⟨-, rfl⟩ | ⟨y, -, rfl⟩
        · exact Outline.alike_app _ .nil
        · rw [if_pos hsome]
          exact Outline.alike_app_of_ne (by decide) _ _
      · rcases outline_eq_ok ho' with ⟨hsome, rfl⟩ | ⟨y, hy, rfl⟩
        · rw [if_pos hsome]
          exact Outline.alike_app_of_ne (by decide) _ _
        · have hheld := (collates_held hargs hx hy hself).2
          split
          · exact Outline.alike_app _ (.cons hheld .nil)
          · exact hheld

/-! ## Collections in the two forms -/

/-- **Collections are listed alike in the two forms** unless two of their keys clash. What is built
from a host value for a typedef that is derived from a type is in both forms written for one outline
of the host value. Each collection within it is listed once in each form, item for item, and in the
same order in both forms if no two keys clash. -/
theorem listed_alike_of_marshal (type : Expr) (name : String) (t : Typedef)
    (hderive : derive type name = .ok t) (value : Json) (p q : Expr)
    (hp : t.marshal .readable value = .ok p) (hq : t.marshal .optimized value = .ok q) :
    ∃ o, t.outline value = .ok o ∧ p = o.write .readable ∧ q = o.write .optimized ∧
      ∀ arrangement items, .seq arrangement items ∈ o.nodes →
        ∃ listing : ScalarForm → List Outline,
          (∀ form, (listing form).Perm items ∧
            .seq ((listing form).map (Outline.write form)) ∈ (o.write form).nodes) ∧
          ((∀ key ∈ arrangement.key?, ∀ x ∈ items, ∀ y ∈ items, ¬(key x).Clash (key y)) →
            listing .readable = listing .optimized) := by
  obtain ⟨o, ho, hforms⟩ := outlines_marshal t value p hp
  have hcollates : t.Collates := by
    refine collates fun d hd => ?_
    obtain ⟨x, -, hx⟩ := (derives_of_build _ _ _ _ hderive).of_mem_nodes d hd
    exact hx.branchesPart
  have hwrite {form : ScalarForm} {e : Expr} (he : t.marshal form value = .ok e) :
      e = o.write form := by
    rcases hforms form with hfails | hwritten
    · cases he.symm.trans hfails
    · exact Except.ok.inj (he.symm.trans hwritten)
  refine ⟨o, ho, hwrite hp, hwrite hq, fun arrangement items hmem => ?_⟩
  refine ⟨fun form => arrangement.list form items, fun form => ⟨arrangement.list_perm form items, ?_⟩,
    fun hclash => Arrangement.list_eq fun key hkey x hx y hy => ?_⟩
  · have hwritten := Outline.write_mem_nodes form hmem
    rwa [Outline.write_seq, arrangement.sort_map_write] at hwritten
  · exact hcollates.coherent value o ho arrangement items hmem key hkey x hx y hy
      (hclash key hkey x hx y hy)

/-- The type of sets of moments. -/
def momentsType : Expr := .app (.type .set) [.plainType .timestamp]

/-- The moments of a set. -/
def momentTypedef : Typedef := ⟨"@item", .type .timestamp, false, [], [0]⟩

/-- The typedef of sets of moments. -/
def momentsTypedef : Typedef := ⟨"moments", .type .set, false, [momentTypedef], []⟩

/-- Two moments of years with four digits, the later one first. -/
def fourDigitMoments : Json := .array [.number (.integer 1709294400), .number (.integer 5)]

/-- What the host values stand for. -/
def fourDigitOutlines : List Outline :=
  [.datum (.moment 1709294400 "2024-03-01T12:00:00Z"), .datum (.moment 5 "1970-01-01T00:00:05Z")]

/-- The earlier one comes first in both forms. -/
theorem listed_alike_of_marshal_fourDigit :
    derive momentsType "moments" = .ok momentsTypedef ∧
      momentsTypedef.marshal .readable fourDigitMoments =
        .ok (.seq [.string "1970-01-01T00:00:05Z", .string "2024-03-01T12:00:00Z"]) ∧
      momentsTypedef.marshal .optimized fourDigitMoments =
        .ok (.seq [.int 5, .int 1709294400]) ∧
      ∃ o, momentsTypedef.outline fourDigitMoments = .ok o ∧
        ∃ listing : List Outline, listing.Perm fourDigitOutlines ∧
          ∀ form, .seq (listing.map (Outline.write form)) ∈ (o.write form).nodes := by
  refine ⟨rfl, rfl, rfl, .seq .byValue fourDigitOutlines, rfl, ?_⟩
  obtain ⟨o, ho, -, -, hlisted⟩ := listed_alike_of_marshal momentsType "moments" momentsTypedef rfl
    fourDigitMoments _ _ rfl rfl
  cases ho
  obtain ⟨listing, hlisting, halike⟩ := hlisted .byValue fourDigitOutlines List.mem_cons_self
  have hsame : listing .readable = listing .optimized := by
    refine halike ?_
    rintro key hkey x hx y hy hclash
    cases hkey
    have hyears : ∀ m ∈ [1709294400, 5], 0 ≤ Timestamp.yearOf (m / 86400) ∧
        Timestamp.yearOf (m / 86400) ≤ 9999 := by
      decide +kernel
    rw [fourDigitOutlines, List.mem_cons, List.mem_singleton] at hx hy
    rcases hx with rfl | rfl <;> rcases hy with rfl | rfl
    all_goals
      cases hclash with
      | datum hclash =>
        refine Datum.clash_moment.mp hclash ?_
        exact Timestamp.compare_yearText (hyears _ (by decide)) (hyears _ (by decide))
  refine ⟨listing .readable, (hlisting .readable).1, fun form => ?_⟩
  cases form with
  | readable => exact (hlisting .readable).2
  | optimized =>
    rw [hsame]
    exact (hlisting .optimized).2

/-- A moment of the first year with five digits, and an earlier one. -/
def fiveDigitMoments : List Json := [.number (.integer 253402300800), .number (.integer 5)]

/-- **Moments may be listed differently.** The later one comes first in readable form, because its
year has a sign, and last in the other form. So no order of the host values gives both lists. -/
theorem listed_differently_fiveDigit :
    derive momentsType "moments" = .ok momentsTypedef ∧
      momentsTypedef.marshal .readable (.array fiveDigitMoments) =
        .ok (.seq [.string "+10000-01-01T00:00:00Z", .string "1970-01-01T00:00:05Z"]) ∧
      momentsTypedef.marshal .optimized (.array fiveDigitMoments) =
        .ok (.seq [.int 5, .int 253402300800]) ∧
      ¬∃ order : List Json, order.Perm fiveDigitMoments ∧
        order.mapM (momentTypedef.marshal .readable) =
          .ok [.string "+10000-01-01T00:00:00Z", .string "1970-01-01T00:00:05Z"] ∧
        order.mapM (momentTypedef.marshal .optimized) = .ok [.int 5, .int 253402300800] := by
  refine ⟨rfl, rfl, rfl, ?_⟩
  rintro ⟨order, horder, hreadable, hoptimized⟩
  rw [mapM_eq_ok_iff] at hreadable hoptimized
  obtain ⟨first, rest, hlate, -, rfl⟩ := List.forall₂_cons_right_iff.mp hreadable
  have hearly := (List.forall₂_cons.mp hoptimized).1
  have hfirst := horder.mem_iff.mp List.mem_cons_self
  rw [fiveDigitMoments, List.mem_cons, List.mem_singleton] at hfirst
  rcases hfirst with rfl | rfl
  · cases hearly
  · have htext : momentTypedef.marshal .readable (.number (.integer 5)) =
        .ok (.string "1970-01-01T00:00:05Z") := rfl
    injection htext.symm.trans hlate with hsame
    injection hsame with hsame
    exact absurd hsame (by decide)

end Typedef

end Michelson

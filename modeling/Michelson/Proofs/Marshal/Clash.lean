import Michelson.Expr.Order
import Michelson.Proofs.Identifier.Forms
import Michelson.Proofs.Identifier.Leads
import Michelson.Proofs.Marshal.Outline
import Michelson.Proofs.Text.TimestampOrder
import Michelson.Proofs.Text.Utf8Order

/-!
# Where the two forms are ordered differently

Two values of one type are ordered alike in the readable and in the compact form, unless the first
of their parts that differ are two identifiers or moments that clash: an account and a contract or
rollup, keys whose kinds have tags in another order than what their texts begin with, signatures of
two kinds, or moments of two years whose texts are in another order than the years.

## Main definitions

* `Datum.Clash`, `Outline.Clash`: what is ordered differently
* `Datum.IsOf`: the identifiers and moments that stand for values of a type
* `Outline.Alike`: whether two outlines that do not clash are ordered alike

## Main results

* `Datum.compare_text_eq_compare_compact_iff`: identifiers and moments of one type
* `Outline.alike_app`, `Outline.alike_app_of_ne`: values with several components
* `Typedef.alike_of_outlineScalar`: scalars of one type
-/

namespace Michelson

open Timestamp

/-! ## Identifiers and moments -/

namespace Datum

/-- **Whether identifiers or moments are ordered differently** in the two forms. For those of one type
it is just these that are. -/
inductive Clash : Datum → Datum → Prop
  | address {a b : Address} {entrypoint entrypoint' : Option String} :
    a.kind.isImplicit ≠ b.kind.isImplicit → Clash (address a entrypoint) (address b entrypoint')
  | key {k l : Key} :
    compare k.kind.lead l.kind.lead ≠ compare k.kind.tag l.kind.tag → Clash (key k) (key l)
  | signature {s s' : Signature} :
    s.kind ≠ s'.kind → compare s.kind.lead s'.kind.lead ≠ compare s.data s'.data →
    Clash (signature s) (signature s')
  | moment {seconds seconds' : Int} {text text' : String} :
    compare (yearText (yearOf (seconds / 86400))) (yearText (yearOf (seconds' / 86400))) ≠
      compare (yearOf (seconds / 86400)) (yearOf (seconds' / 86400)) →
    Clash (moment seconds text) (moment seconds' text')

theorem clash_address {a b : Address} {entrypoint entrypoint' : Option String} :
    Clash (address a entrypoint) (address b entrypoint') ↔
      a.kind.isImplicit ≠ b.kind.isImplicit :=
  ⟨fun | .address hne => hne, .address⟩

theorem clash_key {k l : Key} :
    Clash (key k) (key l) ↔
      compare k.kind.lead l.kind.lead ≠ compare k.kind.tag l.kind.tag :=
  ⟨fun | .key hne => hne, .key⟩

theorem clash_signature {s s' : Signature} :
    Clash (signature s) (signature s') ↔
      s.kind ≠ s'.kind ∧ compare s.kind.lead s'.kind.lead ≠ compare s.data s'.data :=
  ⟨fun | .signature hkind hne => ⟨hkind, hne⟩, fun h => .signature h.1 h.2⟩

theorem clash_moment {seconds seconds' : Int} {text text' : String} :
    Clash (moment seconds text) (moment seconds' text') ↔
      compare (yearText (yearOf (seconds / 86400))) (yearText (yearOf (seconds' / 86400))) ≠
        compare (yearOf (seconds / 86400)) (yearOf (seconds' / 86400)) :=
  ⟨fun | .moment hne => hne, .moment⟩

/-- Whether an identifier or a moment stands for a value of a type. -/
def IsOf (c : TypeConstructor) : Datum → Prop
  | address _ entrypoint => (c = .address ∨ c = .contract) ∧ entrypoint ≠ some ""
  | keyHash a bytes => c = .keyHash ∧ a.keyHashBytes = .ok bytes
  | layer2 a => c = .txRollupL2Address ∧ a.kind = .bls12381
  | key k => c = .key ∧ k.data.length = k.kind.format.length
  | signature s => c = .signature ∧ s.data.length = s.kind.format.length
  | chainId _ => c = .chainId
  | moment seconds text => c = .timestamp ∧ render? seconds = some text

/-- What is written behind an address. -/
def entrypointText : Option String → String
  | none => ""
  | some name => "%" ++ name

/-- The bytes behind an address. -/
def entrypointBytes : Option String → List UInt8
  | none => []
  | some name => Text.utf8 name

theorem compare_entrypoint {entrypoint entrypoint' : Option String} (h : entrypoint ≠ some "")
    (h' : entrypoint' ≠ some "") :
    compare (entrypointText entrypoint) (entrypointText entrypoint') =
      compare (entrypointBytes entrypoint) (entrypointBytes entrypoint') := by
  have hempty (name : String) (hname : name ≠ "") : compare "" name = .lt := by
    obtain ⟨c, cs, hcs⟩ := List.exists_cons_of_ne_nil (mt String.toList_eq_nil_iff.mp hname)
    rw [compare_string, hcs]
    rfl
  have hmark (name : String) : "%" ++ name ≠ "" := by simp
  cases entrypoint with
  | none =>
    cases entrypoint' with
    | none => rfl
    | some name' =>
      have hname : name' ≠ "" := fun heq => h' (congrArg some heq)
      exact (hempty _ (hmark name')).trans ((hempty _ hname).symm.trans (Text.compare_utf8 _ _).symm)
  | some name =>
    cases entrypoint' with
    | none =>
      have hname : name ≠ "" := fun heq => h (congrArg some heq)
      have hbytes : compare (Text.utf8 "") (Text.utf8 name) = .lt := by
        rw [Text.compare_utf8, hempty name hname]
      have htext := hempty _ (hmark name)
      rw [Std.OrientedOrd.eq_swap, Ordering.swap_eq_lt] at htext hbytes
      exact htext.trans hbytes.symm
    | some name' =>
      rw [entrypointText, entrypointText, compare_string, String.toList_append,
        String.toList_append, compare_append rfl, Std.ReflOrd.compare_self, Ordering.eq_then,
        ← compare_string]
      exact (Text.compare_utf8 name name').symm

theorem text_address (a : Address) (entrypoint : Option String) :
    (address a entrypoint).text = a.text ++ entrypointText entrypoint := by
  cases entrypoint with
  | none => exact (String.append_empty).symm
  | some name => exact String.append_assoc

theorem compact_address (a : Address) (entrypoint : Option String) :
    (address a entrypoint).compact = .bytes (a.toBytes ++ entrypointBytes entrypoint) := by
  cases entrypoint with
  | none => rw [entrypointBytes, List.append_nil]; rfl
  | some name => rfl

/-- **Identifiers and moments of one type** are ordered alike in both forms just if they do not
clash. -/
theorem compare_text_eq_compare_compact_iff {c : TypeConstructor} {d d' : Datum} (hd : d.IsOf c)
    (hd' : d'.IsOf c) :
    some (compare d.text d'.text) = d.compact.compareValues? d'.compact ↔ ¬d.Clash d' := by
  cases d with
  | address a entrypoint =>
    cases d' with
    | address b entrypoint' =>
      have hforms := Address.compare_text_eq_compare_toBytes_iff (a := a) (b := b)
        (compare_entrypoint hd.2 hd'.2)
      rw [text_address, text_address, compact_address, compact_address, clash_address, not_not]
      exact Option.some_inj.trans hforms
    | _ => simp_all [IsOf]
  | keyHash a bytes =>
    cases d' with
    | keyHash b bytes' =>
      have hforms := Address.compare_text_eq_compare_keyHash hd.2 hd'.2
      exact ⟨fun _ hclash => (nomatch hclash), fun _ => congrArg some hforms⟩
    | _ => simp_all [IsOf]
  | layer2 a =>
    cases d' with
    | layer2 b =>
      have hforms := Address.compare_text (hd.2.trans hd'.2.symm) "" ""
      rw [String.append_empty, String.append_empty, Std.ReflOrd.compare_self,
        Ordering.then_eq] at hforms
      exact ⟨fun _ hclash => (nomatch hclash), fun _ => congrArg some hforms⟩
    | _ => simp_all [IsOf]
  | key k =>
    cases d' with
    | key l =>
      rw [clash_key, not_not]
      exact Option.some_inj.trans (Key.compare_text_eq_compare_toBytes_iff hd.2 hd'.2)
    | _ => simp_all [IsOf]
  | signature s =>
    cases d' with
    | signature s' =>
      rw [clash_signature, ← not_or, not_not]
      exact Option.some_inj.trans (Signature.compare_text_eq_compare_toBytes_iff hd.2 hd'.2)
    | _ => simp_all [IsOf]
  | chainId id =>
    cases d' with
    | chainId id' =>
      exact ⟨fun _ hclash => (nomatch hclash), fun _ => congrArg some (ChainId.compare_text id id')⟩
    | _ => simp_all [IsOf]
  | moment seconds text =>
    cases d' with
    | moment seconds' text' =>
      rw [clash_moment, not_not]
      exact Option.some_inj.trans (compare_render_eq_iff hd.2 hd'.2)
    | _ => simp_all [IsOf]

end Datum

/-! ## Outlines -/

namespace Outline

/-- The order of what is written for two outlines. -/
def compare? (form : ScalarForm) (x y : Outline) : Option Ordering :=
  (x.write form).compareValues? (y.write form)

/-- **Whether two outlines are ordered differently**, as far as that is told by the first of their
parts that differ. -/
inductive Clash : Outline → Outline → Prop
  | datum {d d' : Datum} : d.Clash d' → Clash (datum d) (datum d')
  | head {p : Primitive} {x y : Outline} {xs ys : List Outline} :
    Clash x y → Clash (app p (x :: xs)) (app p (y :: ys))
  | tail {p : Primitive} {x y : Outline} {xs ys : List Outline} :
    compare? .optimized x y = some .eq → Clash (app p xs) (app p ys) →
    Clash (app p (x :: xs)) (app p (y :: ys))

/-- Whether two outlines are ordered alike in the two forms unless they clash. -/
def Alike (x y : Outline) : Prop :=
  ¬x.Clash y → compare? .readable x y = compare? .optimized x y

theorem alike_plain (e e' : Expr) : Alike (plain e) (plain e') := fun _ => rfl

/-- Identifiers and moments of one type are ordered alike unless they clash. -/
theorem alike_datum {c : TypeConstructor} {d d' : Datum} (hd : d.IsOf c) (hd' : d'.IsOf c) :
    Alike (datum d) (datum d') := by
  intro hclash
  exact (Datum.compare_text_eq_compare_compact_iff hd hd').mpr fun h => hclash (.datum h)

/-- Sequences have no order. -/
theorem alike_seq_left (arrangement : Arrangement) (items : List Outline) (y : Outline) :
    Alike (seq arrangement items) y := by
  have hnone (xs : List Expr) (e : Expr) : (Expr.seq xs).compareValues? e = none := by
    cases e <;> rfl
  intro _
  rw [compare?, compare?, write_seq, write_seq, hnone, hnone]

/-- Sequences have no order. -/
theorem alike_seq_right (arrangement : Arrangement) (items : List Outline) (x : Outline) :
    Alike x (seq arrangement items) := by
  have hnone (xs : List Expr) (e : Expr) : e.compareValues? (Expr.seq xs) = none := by
    cases e <;> rfl
  intro _
  rw [compare?, compare?, write_seq, write_seq, hnone, hnone]

/-- Different constructors decide by themselves. -/
theorem alike_app_of_ne {p q : Primitive} (h : p ≠ q) (xs ys : List Outline) :
    Alike (app p xs) (app q ys) := by
  intro _
  rw [compare?, compare?, write_app, write_app, write_app, write_app, Expr.compareValues?,
    Expr.compareValues?]
  split
  next family i family' j hp hq =>
    split
    · rfl
    next hfamily =>
      split
      · rfl
      next hplace =>
        rw [ne_eq, not_not] at hfamily hplace
        rw [← hfamily, ← hplace] at hq
        exact absurd (Primitive.rank?_injective hp hq) h
  next => rfl

/-- **Values with several components** are ordered alike if their components are. -/
theorem alike_app {xs ys : List Outline} (p : Primitive) (h : List.Forall₂ Alike xs ys) :
    Alike (app p xs) (app p ys) := by
  have hfields (hclash : ¬Clash (app p xs) (app p ys)) :
      Expr.compareFields? (xs.map (write .readable)) (ys.map (write .readable)) =
        Expr.compareFields? (xs.map (write .optimized)) (ys.map (write .optimized)) := by
    induction h with
    | nil => rfl
    | @cons x y xs ys hxy _ ih =>
      have hhead := hxy fun h => hclash (.head h)
      rw [compare?, compare?] at hhead
      simp only [List.map_cons, Expr.compareFields?, hhead]
      split
      next heq => exact ih fun h => hclash (.tail heq h)
      next => rfl
  intro hclash
  rw [compare?, compare?, write_app, write_app, write_app, write_app, Expr.compareValues?,
    Expr.compareValues?, hfields hclash]

/-- Combs are ordered alike if their fields are. -/
theorem alike_of_assemble? {fields fields' : List (List Nat × Outline)} {comb comb' : Outline}
    (h : RelatedParts Alike fields fields') (hcomb : assemble? fields = some comb)
    (hcomb' : assemble? fields' = some comb') : Alike comb comb' := by
  have hpair (x y x' y' : Outline) (hleft : Alike x y) (hright : Alike x' y') :
      Alike (app (.data .pair) [x, x']) (app (.data .pair) [y, y']) :=
    alike_app _ (.cons hleft (.cons hright .nil))
  have hrel := rel_assembleWith? hpair h
  rw [assemble?] at hcomb hcomb'
  rw [hcomb, hcomb'] at hrel
  cases hrel with
  | some halike => exact halike

/-- Values of one branch are ordered alike if what is wrapped is. -/
theorem Alike.wrap {x y : Outline} (h : Alike x y) (steps : List Nat) :
    Alike (wrap steps x) (wrap steps y) := by
  induction steps with
  | nil => exact h
  | cons step steps ih => exact alike_app _ (.cons ih .nil)

/-- Values of two branches are ordered by the branches. -/
theorem alike_wrap_of_ne {i j : Nat} (h : ¬(i = 0 ↔ j = 0)) (front rest rest' : List Nat)
    (x y : Outline) : Alike (wrap (front ++ i :: rest) x) (wrap (front ++ j :: rest') y) := by
  have hsides : Primitive.data (if i = 0 then .left else .right) ≠
      .data (if j = 0 then .left else .right) := by
    by_cases hi : i = 0
    · have hj : ¬j = 0 := fun hj => h ⟨fun _ => hj, fun _ => hi⟩
      rw [if_pos hi, if_neg hj]
      decide
    · have hj : j = 0 := by
        by_contra hj
        exact h ⟨fun hi' => absurd hi' hi, fun hj' => absurd hj' hj⟩
      rw [if_neg hi, if_pos hj]
      decide
  rw [Outline.wrap, Outline.wrap, List.foldr_append, List.foldr_append]
  exact (alike_app_of_ne hsides _ _).wrap front

end Outline

/-! ## Scalars -/

namespace Typedef

variable {t : Typedef} {c : TypeConstructor} {value value' : Json} {x y : Outline}

theorem exists_of_hostIdentifier {α : Type} {read : String → Except IdentifierError α} {a : α}
    (h : t.hostIdentifier read value = .ok a) : ∃ text, read text = .ok a := by
  obtain ⟨text, -, h⟩ := bind_eq_ok_iff.mp h
  split at h
  next hread =>
    cases h
    exact ⟨text, hread⟩
  next => cases h

/-- A scalar is an identifier or a moment of its type, or the type has none of these. -/
theorem outlineScalar_cases (h : t.outlineScalar c value = .ok x) :
    (∃ d, x = .datum d ∧ d.IsOf c) ∨ (∃ e, x = .plain e) ∧ ∀ d : Datum, ¬d.IsOf c := by
  cases c with
  | timestamp =>
    obtain ⟨seconds, -, h⟩ := bind_eq_ok_iff.mp h
    split at h
    next text htext =>
      cases h
      exact .inl ⟨_, rfl, rfl, htext⟩
    next => cases h
  | address | contract =>
    obtain ⟨s, -, h⟩ := bind_eq_ok_iff.mp h
    split at h
    split at h
    · cases h
    next a _ =>
      split at h
      · cases h
        exact .inl ⟨_, rfl, by simp, by simp⟩
      next name =>
        simp only at h
        split at h
        · cases h
        next hbytes =>
          cases h
          refine .inl ⟨_, rfl, by simp, ?_⟩
          intro hname
          cases hname
          exact hbytes rfl
  | txRollupL2Address =>
    obtain ⟨a, -, h⟩ := bind_eq_ok_iff.mp h
    split at h
    next hkind =>
      cases h
      exact .inl ⟨_, rfl, rfl, hkind⟩
    next => cases h
  | keyHash =>
    obtain ⟨a, -, h⟩ := bind_eq_ok_iff.mp h
    split at h
    next hbytes =>
      cases h
      exact .inl ⟨_, rfl, rfl, hbytes⟩
    next => cases h
  | key =>
    obtain ⟨k, hk, h⟩ := bind_eq_ok_iff.mp h
    cases h
    obtain ⟨text, hread⟩ := exists_of_hostIdentifier hk
    exact .inl ⟨_, rfl, rfl, (Key.ofText_eq_ok_iff.mp hread).1⟩
  | signature =>
    obtain ⟨s, hs, h⟩ := bind_eq_ok_iff.mp h
    cases h
    obtain ⟨text, hread⟩ := exists_of_hostIdentifier hs
    exact .inl ⟨_, rfl, rfl, (Signature.ofText_eq_ok_iff.mp hread).1⟩
  | chainId =>
    obtain ⟨id, -, h⟩ := bind_eq_ok_iff.mp h
    cases h
    exact .inl ⟨_, rfl, rfl⟩
  | _ =>
    obtain ⟨e, -, h⟩ := bind_eq_ok_iff.mp h
    cases h
    refine .inr ⟨⟨e, rfl⟩, fun d => ?_⟩
    cases d <;> simp [Datum.IsOf]

/-- **Scalars of one type** are ordered alike unless they clash. -/
theorem alike_of_outlineScalar (hx : t.outlineScalar c value = .ok x)
    (hy : t.outlineScalar c value' = .ok y) : x.Alike y := by
  rcases outlineScalar_cases hx with ⟨d, rfl, hd⟩ | ⟨⟨e, rfl⟩, hnone⟩
  · rcases outlineScalar_cases hy with ⟨d', rfl, hd'⟩ | ⟨-, hnone⟩
    · exact Outline.alike_datum hd hd'
    · exact absurd hd (hnone d)
  · rcases outlineScalar_cases hy with ⟨d', -, hd'⟩ | ⟨⟨e', rfl⟩, -⟩
    · exact absurd hd' (hnone d')
    · exact Outline.alike_plain e e'

end Typedef

end Michelson

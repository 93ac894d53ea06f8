import Mathlib.Algebra.Ring.Nat
import Mathlib.Data.List.Flatten
import Mathlib.Data.List.Induction
import Michelson.Proofs.Binary.RoundTrip
import Michelson.Proofs.Success

/-!
# Reading normalizes

The reader admits more than one binary form of an expression: integers with bytes too many or with
the sign of a negative zero, the tag of an application with many arguments in front of few, and
annotations with spaces at will. What it gives is in normal form whatever it was read from: its own
binary form is no longer than the bytes that were read, and is read back as the same expression.

A reader is described by what it gives for how many bytes. Such descriptions are put together as
readers are, first for the parts of a node and then by induction on the depth to which nodes are
read.

## Main definitions

* `Reader.Gives`: what a reader gives, and for how many bytes
* `Reader.Normal`: expressions in normal form up to a height

## Main results

* `Reader.givesNormal_expr`: expressions are read in normal form, and none grows when written
* `decode_encode_of_decode`: the same for the expression that a byte string holds
-/

namespace Michelson

/-! ## Texts and their pieces -/

namespace Text

/-- Bytes that are well formed are those of the text that is read from them. -/
theorem utf8_of_ofUtf8?_eq_some {bytes : List UInt8} {s : String} (h : ofUtf8? bytes = some s) :
    utf8 s = bytes := by
  unfold ofUtf8? String.fromUTF8? at h
  split at h
  · have hbytes : s.toByteArray = bytes.toByteArray := by
      cases h
      rfl
    rw [← toByteArray_utf8] at hbytes
    exact List.toByteArray_inj.mp hbytes
  · cases h

end Text

namespace Binary

/-- Pieces between spaces hold no space. -/
theorem space_notMem_of_mem_pieces (cs : List Char) : ∀ piece ∈ pieces cs, ' ' ∉ piece := by
  induction cs with
  | nil => simp [pieces]
  | cons c cs ih =>
    intro piece hpiece
    rw [pieces] at hpiece
    by_cases hc : c = ' '
    · rw [if_pos hc, List.mem_cons] at hpiece
      rcases hpiece with rfl | hpiece
      · exact List.not_mem_nil
      · exact ih piece hpiece
    · obtain ⟨first, others, h⟩ := List.exists_cons_of_ne_nil (pieces_ne_nil cs)
      rw [h, List.forall_mem_cons] at ih
      rw [if_neg hc, h] at hpiece
      rcases List.mem_cons.mp hpiece with rfl | hpiece
      · rw [List.mem_cons, not_or]
        exact ⟨fun heq => hc heq.symm, ih.1⟩
      · exact ih.2 piece hpiece

/-- The words of a text are neither empty nor do they hold spaces. -/
theorem plain_of_mem_words {s a : String} (h : a ∈ words s) : a ≠ "" ∧ ' ' ∉ a.toList := by
  obtain ⟨piece, hpiece, rfl⟩ := List.mem_map.mp h
  rw [List.mem_filter] at hpiece
  have hspace := space_notMem_of_mem_pieces _ piece hpiece.1
  refine ⟨fun hempty => ?_, by simpa using hspace⟩
  have hnil : piece = [] := by simpa using congrArg String.toList hempty
  simp [hnil] at hpiece

/-- Joining fewer lists gives a part of what joining all of them gives. -/
theorem sublist_intercalate {α : Type} (sep : List α) {xs ys : List (List α)}
    (h : xs.Sublist ys) : (sep.intercalate xs).Sublist (sep.intercalate ys) := by
  induction h with
  | slnil => exact List.Sublist.refl _
  | @cons xs ys y h ih =>
    cases ys with
    | nil =>
      cases h
      exact List.nil_sublist _
    | cons z zs =>
      rw [List.intercalate_cons_cons, List.append_assoc]
      exact ih.trans ((List.sublist_append_right _ _).trans (List.sublist_append_right _ _))
  | @cons_cons xs ys y h ih =>
    cases xs with
    | nil =>
      cases ys with
      | nil => exact List.Sublist.refl _
      | cons z zs =>
        rw [List.intercalate_singleton, List.intercalate_cons_cons, List.append_assoc]
        exact List.sublist_append_left _ _
    | cons x xs =>
      obtain ⟨z, zs, rfl⟩ : ∃ z zs, ys = z :: zs := by
        cases ys with
        | nil => cases h
        | cons z zs => exact ⟨z, zs, rfl⟩
      rw [List.intercalate_cons_cons, List.intercalate_cons_cons]
      exact ih.append_left _

/-- Joined again, the words of a text take no more bytes than the text. -/
theorem length_utf8_intercalate_words_le (s : String) :
    (Text.utf8 (String.intercalate " " (words s))).length ≤ (Text.utf8 s).length := by
  have hjoined : ([' '].intercalate ((pieces s.toList).filter (!·.isEmpty))).Sublist s.toList := by
    have hfilter := sublist_intercalate [' ']
      (List.filter_sublist (l := pieces s.toList) (p := fun piece => !piece.isEmpty))
    rwa [pieces_eq_splitOn s.toList, List.intercalate_splitOn ' ', ← pieces_eq_splitOn] at hfilter
  have hwords : (String.intercalate " " (words s)).toList =
      [' '].intercalate ((pieces s.toList).filter (!·.isEmpty)) := by
    rw [String.toList_intercalate, words, List.map_map]
    simp [Function.comp_def]
  rw [Text.utf8, Text.utf8, hwords]
  exact (hjoined.flatMap _).length_le

namespace Zarith

/-- The further bytes of a number are no more than those from which it was read. -/
theorem length_encodeTail_le_of_spellTail {bytes : List UInt8} {n count : Nat}
    (h : spellTail bytes = some (n, count)) :
    (encodeTail n).length ≤ count ∧ count ≤ bytes.length := by
  induction bytes generalizing n count with
  | nil => cases h
  | cons b rest ih =>
    rw [spellTail] at h
    split at h
    next hlast =>
      cases h
      have hb : b.toNat < 128 := (lt_128_iff b).mp hlast
      rw [encodeTail]
      split
      · simp
      · have hzero : b.toNat / 128 = 0 := Nat.div_eq_of_lt hb
        simp [hzero, encodeTail_zero]
    next hmore =>
      obtain ⟨⟨m, k⟩, hm, heq⟩ := Option.map_eq_some_iff.mp h
      cases heq
      have hb : b.toNat < 256 := b.toNat_lt
      have hge : ¬ b.toNat < 128 := fun hlt => hmore ((lt_128_iff b).mpr hlt)
      obtain ⟨hle, hcount⟩ := ih hm
      rw [encodeTail, List.length_cons]
      split
      · exact ⟨Nat.zero_le _, by omega⟩
      · have hdiv : (b.toNat - 128 + 128 * m) / 128 = m := by omega
        rw [List.length_cons, hdiv]
        exact ⟨by omega, by omega⟩

end Zarith

/-! ## What readers give -/

namespace Reader

variable {α β : Type}

/-- **What a reader gives**, and the number of bytes that it takes for it. -/
def Gives (reader : Reader α) (P : Nat → α → Prop) : Prop :=
  ∀ (c c' : Cursor) (x : α), reader c = .ok (x, c') →
    ∃ taken, c.rest.length = taken + c'.rest.length ∧ P taken x

theorem bind_eq_ok {r : Reader α} {f : α → Reader β} {c c'' : Cursor} {y : β}
    (h : (r >>= f) c = .ok (y, c'')) : ∃ x c', r c = .ok (x, c') ∧ f x c' = .ok (y, c'') := by
  obtain ⟨⟨x, c'⟩, hx, hy⟩ := bind_eq_ok_iff.mp h
  exact ⟨x, c', hx, hy⟩

section Combinators

variable {P Q : Nat → α → Prop} {R : Nat → β → Prop}

theorem gives_pure {x : α} (h : P 0 x) : (pure x : Reader α).Gives P := by
  intro c c' y hy
  cases hy
  exact ⟨0, by simp, h⟩

theorem gives_throw {e : DecodeError} : (throw e : Reader α).Gives P := by
  intro c c' x h
  cases h

theorem Gives.imp {r : Reader α} (hr : r.Gives P) (h : ∀ taken x, P taken x → Q taken x) :
    r.Gives Q := by
  intro c c' x hx
  obtain ⟨taken, hlength, hP⟩ := hr c c' x hx
  exact ⟨taken, hlength, h taken x hP⟩

/-- Of readers one after the other, the bytes that they take add up. -/
theorem Gives.bind {r : Reader α} {f : α → Reader β} (hr : r.Gives P)
    (hf : ∀ taken x, P taken x → (f x).Gives fun more y => R (taken + more) y) :
    (r >>= f).Gives R := by
  intro c c'' y hy
  obtain ⟨x, c', hx, hy⟩ := bind_eq_ok hy
  obtain ⟨taken, hlength, hP⟩ := hr c c' x hx
  obtain ⟨more, hlength', hR⟩ := hf taken x hP c' c'' y hy
  exact ⟨taken + more, by omega, hR⟩

theorem Gives.map {r : Reader α} (hr : r.Gives P) {f : α → β}
    (h : ∀ taken x, P taken x → R taken (f x)) : Gives (do return f (← r)) R :=
  hr.bind fun taken x hP => gives_pure (h taken x hP)

end Combinators

/-! ## Bytes, texts and numbers -/

theorem gives_offset : offset.Gives fun taken _ => taken = 0 := by
  intro c c' x h
  cases h
  exact ⟨0, by simp, rfl⟩

theorem gives_byte : byte.Gives fun taken _ => taken = 1 := by
  intro c c' x h
  unfold byte at h
  split at h
  next b rest hrest =>
    cases h
    exact ⟨1, by rw [hrest, List.length_cons, Nat.add_comm], rfl⟩
  next => cases h

theorem gives_take (count : Nat) :
    (take count).Gives fun taken bytes => taken = count ∧ bytes.length = count := by
  intro c c' x h
  unfold take at h
  simp only at h
  split at h
  next hlength =>
    cases h
    refine ⟨count, ?_, rfl, hlength⟩
    rw [List.length_take] at hlength
    rw [List.length_drop]
    omega
  next => cases h

theorem spell_lt (bytes : List UInt8) : spell bytes < 256 ^ bytes.length := by
  induction bytes using List.reverseRecOn with
  | nil => simp [spell]
  | append_singleton bytes b ih =>
    have hb : b.toNat < 256 := b.toNat_lt
    rw [spell, List.foldl_append, ← spell, List.length_append]
    simp only [List.foldl_cons, List.foldl_nil, List.length_singleton, Nat.pow_succ]
    omega

/-- Four bytes tell no more than a length that fits. -/
theorem gives_sized :
    sized.Gives fun taken bytes => taken = bytes.length + 4 ∧ bytes.length < 0x100000000 := by
  refine (gives_take 4).bind fun taken length hlength => ?_
  obtain ⟨rfl, hfour⟩ := hlength
  refine (gives_take (spell length)).imp fun more bytes hbytes => ?_
  have hspell := spell_lt length
  rw [hfour] at hspell
  obtain ⟨rfl, hbytes⟩ := hbytes
  exact ⟨by omega, by omega⟩

theorem gives_text : text.Gives fun taken s =>
    taken = (Text.utf8 s).length + 4 ∧ (Text.utf8 s).length < 0x100000000 := by
  refine gives_offset.bind fun none start hnone => gives_sized.bind fun taken bytes hbytes => ?_
  subst hnone
  cases hs : Text.ofUtf8? bytes with
  | none => exact gives_throw
  | some s =>
    rw [← Text.utf8_of_ofUtf8?_eq_some hs] at hbytes
    exact gives_pure (by simpa using hbytes)

/-- Annotations are read as words, which take no more bytes than those that were read. -/
theorem gives_annots : Reader.annots.Gives fun taken as =>
    (Text.utf8 (String.intercalate " " as)).length + 4 ≤ taken ∧
      (Text.utf8 (String.intercalate " " as)).length < 0x100000000 ∧
      ∀ a ∈ as, a ≠ "" ∧ ' ' ∉ a.toList := by
  refine gives_text.map fun taken s hs => ?_
  have hle := length_utf8_intercalate_words_le s
  exact ⟨by omega, by omega, fun a ha => plain_of_mem_words ha⟩

theorem gives_primitive : primitive.Gives fun taken _ => taken = 1 := by
  refine gives_byte.bind fun taken tag htaken => ?_
  cases Primitive.ofTag? tag with
  | none => exact gives_throw
  | some p => exact gives_pure htaken

theorem gives_readTail : Zarith.readTail.Gives fun taken n =>
    (Zarith.encodeTail n).length ≤ taken := by
  intro c c' n h
  unfold Zarith.readTail at h
  split at h
  next m count hspell =>
    cases h
    obtain ⟨hle, hcount⟩ := Zarith.length_encodeTail_le_of_spellTail hspell
    exact ⟨count, by rw [List.length_drop]; omega, hle⟩
  next => cases h

/-- An integer is written in no more bytes than those from which it was read, whether they began
with zeros or had the sign of a negative zero. -/
theorem gives_zarith : Zarith.read.Gives fun taken n => (Zarith.encode n).length ≤ taken := by
  refine gives_byte.bind fun taken first htaken => ?_
  have hsigned (count more : Nat) (hcount : (Zarith.encodeTail more).length ≤ count) :
      Gives (pure (if first.toNat / 64 % 2 = 1 then -((first.toNat % 64 + 64 * more : Nat) : Int)
        else ((first.toNat % 64 + 64 * more : Nat) : Int)))
        fun rest n => (Zarith.encode n).length ≤ taken + (count + rest) := by
    refine gives_pure ?_
    have habs (n : Int) (hn : n.natAbs = first.toNat % 64 + 64 * more) :
        (Zarith.encode n).length ≤ taken + (count + 0) := by
      have hdiv : n.natAbs / 64 = more := by omega
      rw [Zarith.encode, hdiv, List.length_cons]
      omega
    split
    · exact habs _ (by omega)
    · exact habs _ (by omega)
  by_cases hlast : first < 128
  · have hnone : (Zarith.encodeTail 0).length ≤ 0 := by
      rw [Zarith.encodeTail_zero]
      exact Nat.le_refl 0
    simp only [if_pos hlast]
    exact (gives_pure hnone).bind hsigned
  · simp only [if_neg hlast]
    exact gives_readTail.bind hsigned

theorem gives_annotsIf (annotated : Bool) : (annotsIf annotated).Gives fun taken as =>
    (as ≠ [] → (Text.utf8 (String.intercalate " " as)).length + 4 ≤ taken ∧
      (Text.utf8 (String.intercalate " " as)).length < 0x100000000) ∧
      ∀ a ∈ as, a ≠ "" ∧ ' ' ∉ a.toList := by
  cases annotated with
  | false => exact gives_pure ⟨fun h => absurd rfl h, by simp⟩
  | true => exact gives_annots.imp fun taken as h => ⟨fun _ => ⟨h.1, h.2.1⟩, h.2.2⟩

/-! ## Expressions in normal form -/

/-- **Expressions in normal form** up to a height: those that are read back as they are. -/
structure Normal (levels : Nat) (e : Expr) : Prop where
  height_le : e.height ≤ levels
  fitsLengths : e.FitsLengths
  canonical_eq : e.canonical = e

/-- Whether a reader gives expressions in normal form that do not grow when they are written. -/
def GivesNormal (levels : Nat) (reader : Reader Expr) : Prop :=
  reader.Gives fun taken e => Normal levels e ∧ e.encode.length ≤ taken

theorem map_canonical_eq {levels : Nat} {xs : List Expr} (h : ∀ x ∈ xs, Normal levels x) :
    xs.map Expr.canonical = xs := by
  have hself : xs.map Expr.canonical = xs.map id :=
    List.map_congr_left fun x hx => (h x hx).canonical_eq
  rwa [List.map_id] at hself

theorem heightAll_le {levels : Nat} {xs : List Expr} (h : ∀ x ∈ xs, Normal levels x) :
    Expr.heightAll xs ≤ levels :=
  (Expr.heightAll_le_iff xs levels).mpr fun x hx => (h x hx).height_le

/-- An application of expressions in normal form, if the lengths fit that it writes itself. -/
theorem normal_app {levels : Nat} (p : Primitive) {xs : List Expr} {as : List String}
    (hxs : ∀ x ∈ xs, Normal levels x) (has : ∀ a ∈ as, a ≠ "" ∧ ' ' ∉ a.toList)
    (hfits : ∀ body ∈ (Expr.app p xs as).bodies, body.length < 0x100000000) :
    Normal (levels + 1) (.app p xs as) where
  height_le := Nat.succ_le_succ (heightAll_le hxs)
  fitsLengths :=
    (Expr.fitsLengths_app_iff p xs as false).mpr ⟨hfits, fun x hx => (hxs x hx).fitsLengths⟩
  canonical_eq := by
    rw [Expr.canonical, Expr.canonicalAll_eq_map, map_canonical_eq hxs,
      Expr.canonicalAnnots_of_plain has]

theorem length_encodeAnnots (as : List String) :
    (encodeAnnots as).length = (Text.utf8 (String.intercalate " " as)).length + 4 := by
  rw [encodeAnnots, Binary.sized, List.length_append, length_big4, Nat.add_comm]

/-- What an application writes itself: its tag and its primitive, the length of its arguments if
they are many, and its annotations if they are many or if there are annotations. -/
theorem length_encode_app (p : Primitive) (xs : List Expr) (as : List String) :
    (Expr.app p xs as).encode.length =
      (Expr.encodeAll xs).length + (if xs.length < 3 then 2 else 6) +
        if xs.length < 3 ∧ as = [] then 0
        else (Text.utf8 (String.intercalate " " as)).length + 4 := by
  by_cases h : xs.length < 3
  · rw [encode_app_of_lt p as false h, if_pos h]
    cases as with
    | nil =>
      simp only [List.isEmpty_nil, List.length_cons, List.length_append, List.length_nil, h,
        and_self, if_true]
      omega
    | cons a as =>
      simp only [List.isEmpty_cons, Bool.false_eq_true, reduceCtorEq, and_false, if_false,
        List.length_cons, List.length_append, List.length_nil, length_encodeAnnots]
      omega
  · rw [encode_app_of_ge p as false (Nat.not_lt.mp h), if_neg h, if_neg fun hshort => h hshort.1]
    simp only [Binary.sized, List.length_cons, List.length_append, List.length_nil, length_big4,
      length_encodeAnnots]
    omega

section Node

variable {levels : Nat} {child : Reader Expr} (hchild : GivesNormal levels child)

include hchild

theorem gives_exactly (count : Nat) : (exactly child count).Gives fun taken xs =>
    xs.length = count ∧ (∀ x ∈ xs, Normal levels x) ∧ (Expr.encodeAll xs).length ≤ taken := by
  induction count with
  | zero => exact gives_pure ⟨rfl, by simp, Nat.le_refl 0⟩
  | succ count ih =>
    refine hchild.bind fun taken x hx => ih.bind fun more xs hxs => gives_pure ?_
    obtain ⟨hnormal, hlength⟩ := hx
    obtain ⟨hcount, hnormals, hlengths⟩ := hxs
    refine ⟨by simp [hcount], List.forall_mem_cons.mpr ⟨hnormal, hnormals⟩, ?_⟩
    rw [Expr.encodeAll, List.length_append]
    omega

theorem gives_itemsUntilEnd (fuel : List UInt8) : (itemsUntilEnd child fuel).Gives fun taken xs =>
    (∀ x ∈ xs, Normal levels x) ∧ (Expr.encodeAll xs).length ≤ taken := by
  have hnil : (pure [] : Reader (List Expr)).Gives fun taken xs =>
      (∀ x ∈ xs, Normal levels x) ∧ (Expr.encodeAll xs).length ≤ taken :=
    gives_pure ⟨by simp, Nat.le_refl 0⟩
  induction fuel with
  | nil => exact hnil
  | cons b fuel ih =>
    intro c c' xs h
    rw [itemsUntilEnd, bind_of_ok (get_apply c)] at h
    split at h
    · exact hnil c c' xs h
    · have hcons : Gives (do let x ← child; return x :: (← itemsUntilEnd child fuel))
          fun taken xs => (∀ x ∈ xs, Normal levels x) ∧ (Expr.encodeAll xs).length ≤ taken := by
        refine hchild.bind fun taken x hx => ih.bind fun more xs hxs => gives_pure ?_
        refine ⟨List.forall_mem_cons.mpr ⟨hx.1, hxs.1⟩, ?_⟩
        rw [Expr.encodeAll, List.length_append]
        omega
      exact hcons c c' xs h

/-- Children after their length: what they are written in fits the length, too. -/
theorem gives_children : (children child).Gives fun taken xs =>
    (∀ x ∈ xs, Normal levels x) ∧ (Expr.encodeAll xs).length + 4 ≤ taken ∧
      (Expr.encodeAll xs).length < 0x100000000 := by
  refine gives_offset.bind fun none start hnone => gives_sized.bind fun taken body hbody => ?_
  intro c c' xs h
  obtain ⟨⟨ys, inner⟩, hinner, heq⟩ := map_eq_ok_iff.mp h
  cases heq
  rw [untilEnd, bind_of_ok (get_apply _)] at hinner
  obtain ⟨used, hused, hnormal, hlength⟩ := gives_itemsUntilEnd hchild body _ _ _ hinner
  simp only at hused
  exact ⟨0, by simp, hnormal, by omega, by omega⟩

/-- An application behind a tag that tells the number of its arguments. -/
theorem givesNormal_app (p : Primitive) {arity : Nat} (harity : arity < 3) (annotated : Bool) :
    Gives (do
        let args ← exactly child arity
        return .app p args (← annotsIf annotated))
      fun taken e => Normal (levels + 1) e ∧ e.encode.length ≤ taken + 2 := by
  refine (gives_exactly hchild arity).bind fun taken xs hxs =>
    (gives_annotsIf annotated).map fun more as has => ?_
  obtain ⟨hcount, hnormal, hlength⟩ := hxs
  have hshort : xs.length < 3 := hcount ▸ harity
  refine ⟨normal_app p hnormal has.2 ?_, ?_⟩
  · intro body hbody
    have hannots : as ≠ [] ∧ body = Text.utf8 (String.intercalate " " as) := by
      simpa [Expr.bodies, Nat.not_le.mpr hshort] using hbody
    rw [hannots.2]
    exact (has.1 hannots.1).2
  · rw [length_encode_app, if_pos hshort]
    split
    · omega
    · next hsome =>
      have hannots := (has.1 fun hnone => hsome ⟨hshort, hnone⟩).1
      omega

/-- An application behind the tag for any number of arguments, which is written shorter if they
are few. -/
theorem givesNormal_appMany (p : Primitive) :
    Gives (do
        let args ← children child
        return .app p args (← Reader.annots))
      fun taken e => Normal (levels + 1) e ∧ e.encode.length ≤ taken + 2 := by
  refine (gives_children hchild).bind fun taken xs hxs => gives_annots.map fun more as has => ?_
  obtain ⟨hnormal, hlength, hfits⟩ := hxs
  obtain ⟨hannots, hfits', hplain⟩ := has
  refine ⟨normal_app p hnormal hplain ?_, ?_⟩
  · intro body hbody
    have hcases : body = Expr.encodeAll xs ∨ body = Text.utf8 (String.intercalate " " as) := by
      rw [Expr.bodies, List.mem_append] at hbody
      refine hbody.imp (fun h => ?_) (fun h => ?_)
      all_goals
        split at h
        · exact List.mem_singleton.mp h
        · cases h
    rcases hcases with rfl | rfl
    · exact hfits
    · exact hfits'
  · have htag : (if xs.length < 3 then 2 else 6) ≤ 6 := by split <;> omega
    rw [length_encode_app]
    split
    · split <;> omega
    · split <;> omega

/-- **A node in normal form**, from children that are read to one level less. -/
theorem givesNormal_node : GivesNormal (levels + 1) (node child) := by
  refine gives_offset.bind fun none start hnone => gives_byte.bind fun one tag hone => ?_
  subst hnone hone
  have hlevel : 1 ≤ levels + 1 := Nat.le_add_left 1 levels
  rcases NodeTag.ofByte? tag with _ | _ | _ | _ | ⟨arity, annotated⟩ | _ | _
  · exact gives_throw
  · refine gives_zarith.map fun taken n hn => ⟨⟨hlevel, ?_, rfl⟩, ?_⟩
    · simp [Expr.FitsLengths, Expr.bodies]
    · rw [Expr.encode, List.length_cons]
      omega
  · refine gives_text.map fun taken t ht => ⟨⟨hlevel, ?_, rfl⟩, ?_⟩
    · simpa [Expr.FitsLengths, Expr.bodies] using ht.2
    · rw [Expr.encode, List.length_cons, Binary.sized, List.length_append, length_big4]
      omega
  · refine (gives_children hchild).map fun taken xs hxs => ?_
    obtain ⟨hnormal, hlength, hfits⟩ := hxs
    refine ⟨⟨Nat.succ_le_succ (heightAll_le hnormal), ?_, ?_⟩, ?_⟩
    · rw [Expr.fitsLengths_seq_iff]
      exact ⟨hfits, fun x hx => (hnormal x hx).fitsLengths⟩
    · rw [Expr.canonical, Expr.canonicalAll_eq_map, map_canonical_eq hnormal]
    · rw [Expr.encode, List.length_cons, Binary.sized, List.length_append, length_big4]
      omega
  · refine gives_primitive.bind fun two p htwo => ?_
    have happ (annotated : Bool) := (givesNormal_app hchild p arity.isLt annotated).imp
      fun taken e he => (⟨he.1, by omega⟩ :
        Normal (levels + 1) e ∧ e.encode.length ≤ 0 + (1 + (two + taken)))
    cases annotated with
    | false => exact happ false
    | true => exact happ true
  · refine gives_primitive.bind fun two p htwo => ?_
    exact (givesNormal_appMany hchild p).imp fun taken e he => ⟨he.1, by omega⟩
  · refine gives_sized.map fun taken b hb => ⟨⟨hlevel, ?_, rfl⟩, ?_⟩
    · simpa [Expr.FitsLengths, Expr.bodies] using hb.2
    · rw [Expr.encode, List.length_cons, Binary.sized, List.length_append, length_big4]
      omega

end Node

/-- **Expressions are read in normal form**, to whatever depth, and none takes more bytes when it is
written than it took when it was read. -/
theorem givesNormal_expr (levels : Nat) : GivesNormal levels (expr levels) := by
  induction levels with
  | zero => exact gives_offset.bind fun _ _ _ => gives_throw
  | succ levels ih => exact givesNormal_node ih

end Reader

end Binary

namespace Expr

open Binary

/-- What is its own canonical form has plain annotations only. -/
theorem plainlyAnnotated_of_canonical_eq {e : Expr} (h : e.canonical = e) :
    e.PlainlyAnnotated := by
  induction e with
  | int | string | bytes =>
    simp only [canonical] at h
    injection h with _ hannots
    simpa [PlainlyAnnotated, hasPlainAnnots] using hannots.symm
  | seq xs as ih =>
    rw [canonical, canonicalAll_eq_map] at h
    injection h with hxs hannots
    rw [plainlyAnnotated_iff]
    refine ⟨hannots.symm, fun x hx => ih x hx ?_⟩
    exact List.map_inj_left.mp (hxs.trans (List.map_id xs).symm) x hx
  | app p xs as flag ih =>
    rw [canonical, canonicalAll_eq_map] at h
    injection h with _ hxs hannots
    rw [plainlyAnnotated_iff]
    constructor
    · intro a ha
      rw [← hannots, ← words_intercalate] at ha
      exact plain_of_mem_words ha
    · intro x hx
      apply ih x hx
      exact List.map_inj_left.mp (hxs.trans (List.map_id xs).symm) x hx

/-- **Reading normalizes.** Of whatever byte string an expression is read, it is not nested too
deeply, its annotations are plain, and its own binary form, in which every length fits, is no longer
than that byte string and is read back as the same expression. -/
theorem decode_encode_of_decode (input : List UInt8) (e : Expr) (h : decode input = .ok e) :
    e.height ≤ maxDepth ∧ e.PlainlyAnnotated ∧ e.encode.length ≤ input.length ∧
      e.FitsLengths ∧ decode e.encode = .ok e := by
  obtain ⟨⟨x, used⟩, hfront, hused⟩ := bind_eq_ok_iff.mp h
  have hx : x = e := by
    dsimp only at hused
    split at hused
    · exact Except.ok.inj hused
    · cases hused
  subst hx
  obtain ⟨⟨y, cursor⟩, hread, heq⟩ := map_eq_ok_iff.mp hfront
  cases heq
  obtain ⟨taken, htaken, hnormal, hlength⟩ := Reader.givesNormal_expr maxDepth _ _ _ hread
  simp only at htaken
  have hback := decodeFront_of_fitsLengths hnormal.fitsLengths hnormal.height_le []
  rw [List.append_nil, hnormal.canonical_eq] at hback
  refine ⟨hnormal.height_le, plainlyAnnotated_of_canonical_eq hnormal.canonical_eq, by omega,
    hnormal.fitsLengths, ?_⟩
  rw [decode, hback]
  exact if_pos rfl

/-- A pair in a form with all that is redundant: the tag for many arguments, a negative zero with a
byte too many, and spaces around the annotations. -/
def redundantForm : List UInt8 :=
  [9, 7, 0, 0, 0, 10, 0, 0xC0, 0x80, 0, 1, 0, 0, 0, 1, 97, 0, 0, 0, 8,
    32, 37, 120, 32, 32, 64, 121, 32]

theorem decode_encode_of_decode_redundantForm :
    ∃ e, decode redundantForm = .ok e ∧
      e.encode = [8, 7, 0, 0, 1, 0, 0, 0, 1, 97, 0, 0, 0, 5, 37, 120, 32, 64, 121] ∧
      e.PlainlyAnnotated ∧ decode e.encode = .ok e := by
  have hread : (decode redundantForm).toOption.map encode =
      some [8, 7, 0, 0, 1, 0, 0, 0, 1, 97, 0, 0, 0, 5, 37, 120, 32, 64, 121] := by
    decide +kernel
  obtain ⟨e, he, hencode⟩ := map_toOption_eq_some_iff.mp hread
  obtain ⟨-, hplain, -, -, hback⟩ := decode_encode_of_decode redundantForm e he
  exact ⟨e, he, hencode, hplain, hback⟩

end Expr

end Michelson

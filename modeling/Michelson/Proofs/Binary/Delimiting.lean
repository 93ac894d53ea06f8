import Michelson.Proofs.Binary.Normalization

/-!
# Expressions tell where they end

No byte after an expression takes part in reading it, and none of its own bytes can be missing. A
reader that takes something from the front of the input takes the same whatever follows, and if the
input is cut before the last byte that it takes, then it fails since the input has ended, at a place
that lies in what is left. Both hold of readers one after the other if they hold of each. The
children of a node stand in bytes that are taken out as a whole, so the reader of the children is
never cut.

## Main definitions

* `Reader.Delimited`: bytes that a reader takes whatever follows, and of which it needs all
* `Reader.Delimits`: a reader takes nothing but such bytes

## Main results

* `Reader.Delimits.bind`: readers one after the other
* `Reader.delimits_expr`: the bytes of expressions are delimited
* `decode_eq_ok_iff_delimited`: the byte strings that hold an expression
* `normal_of_decode`: what they hold is in normal form
* `decodeFront_delimited`: the same for the expression at the front of a byte string
-/

namespace Michelson

namespace Binary

namespace Reader

variable {α β : Type}

/-- **Bytes that tell where they end**: from an offset, a reader takes a value from them whatever
follows, and from no shorter part of them. -/
structure Delimited (reader : Reader α) (offset : Nat) (bytes : List UInt8) (x : α) : Prop where
  takes : ∀ rest, reader ⟨offset, bytes ++ rest⟩ = .ok (x, ⟨offset + bytes.length, rest⟩)
  cut : ∀ k < bytes.length, ∃ place ≤ offset + k,
    reader ⟨offset, bytes.take k⟩ = .error (.truncated place)

/-- Whether all that a reader takes is delimited. -/
def Delimits (reader : Reader α) : Prop :=
  ∀ (c c' : Cursor) (x : α), reader c = .ok (x, c') →
    ∃ bytes, c.rest = bytes ++ c'.rest ∧ reader.Delimited c.offset bytes x

section Combinators

variable {r : Reader α} {f : α → Reader β}

/-- A reader moves past the bytes that it takes. -/
theorem Delimited.offset_eq {c c' : Cursor} {bytes : List UInt8} {x : α}
    (h : r.Delimited c.offset bytes x) (hrest : c.rest = bytes ++ c'.rest)
    (hread : r c = .ok (x, c')) : c'.offset = c.offset + bytes.length := by
  have htakes := h.takes c'.rest
  rw [← hrest, hread] at htakes
  exact congrArg (·.2.offset) (Except.ok.inj htakes)

/-- A cut either goes through the bytes of the first reader, or it leaves them whole and goes
through those of the second. -/
theorem Delimited.bind {offset : Nat} {bytes more : List UInt8} {x : α} {y : β}
    (hr : r.Delimited offset bytes x) (hf : (f x).Delimited (offset + bytes.length) more y) :
    (r >>= f).Delimited offset (bytes ++ more) y where
  takes rest := by
    rw [List.append_assoc, bind_of_ok (hr.takes _), hf.takes, List.length_append, Nat.add_assoc]
  cut k hk := by
    rcases Nat.lt_or_ge k bytes.length with hlt | hge
    · obtain ⟨place, hplace, herror⟩ := hr.cut k hlt
      refine ⟨place, hplace, ?_⟩
      rw [List.take_append_of_le_length (Nat.le_of_lt hlt), bind_of_error herror]
    · rw [List.length_append] at hk
      obtain ⟨place, hplace, herror⟩ := hf.cut (k - bytes.length) (by omega)
      refine ⟨place, by omega, ?_⟩
      rw [List.take_append, List.take_of_length_le hge, bind_of_ok (hr.takes _), herror]

/-- **Readers one after the other** take delimited bytes if each of them does. -/
theorem Delimits.bind (hr : r.Delimits) (hf : ∀ x, (f x).Delimits) : (r >>= f).Delimits := by
  intro c c'' y hy
  obtain ⟨x, c', hx, hy⟩ := bind_eq_ok hy
  obtain ⟨bytes, hrest, hbytes⟩ := hr c c' x hx
  obtain ⟨more, hrest', hmore⟩ := hf x c' c'' y hy
  rw [hbytes.offset_eq hrest hx] at hmore
  exact ⟨bytes ++ more, by rw [hrest, hrest', List.append_assoc], hbytes.bind hmore⟩

theorem delimits_pure (x : α) : (pure x : Reader α).Delimits := by
  intro c c' y h
  cases h
  exact ⟨[], rfl, fun _ => rfl, by simp⟩

theorem delimits_throw (e : DecodeError) : (throw e : Reader α).Delimits := by
  intro c c' x h
  cases h

theorem Delimits.map {r : Reader α} (hr : r.Delimits) (f : α → β) :
    Delimits (do return f (← r)) :=
  hr.bind fun x => delimits_pure (f x)

end Combinators

/-! ## Bytes, texts and numbers -/

theorem delimits_offset : offset.Delimits := by
  intro c c' x h
  cases h
  exact ⟨[], rfl, fun _ => rfl, by simp⟩

theorem delimits_take (count : Nat) : (take count).Delimits := by
  rintro ⟨offset, rest⟩ c' x h
  unfold take at h
  dsimp only at h
  split at h
  next hlength =>
    cases h
    refine ⟨rest.take count, (List.take_append_drop count rest).symm, fun more => ?_, ?_⟩
    · simp [take, hlength]
    · intro k hk
      have hshort : (((rest.take count).take k).take count).length ≠ count := by
        rw [List.length_take, List.length_take]
        omega
      exact ⟨offset, Nat.le_add_right _ _, if_neg hshort⟩
  next => cases h

theorem delimits_byte : byte.Delimits := by
  intro c c' x h
  unfold byte at h
  split at h
  next b rest hrest =>
    cases h
    refine ⟨[x], hrest, fun _ => rfl, fun k hk => ⟨c.offset, Nat.le_add_right _ _, ?_⟩⟩
    have hzero : k = 0 := Nat.lt_one_iff.mp hk
    rw [hzero]
    rfl
  next => cases h

theorem delimits_sized : sized.Delimits :=
  (delimits_take 4).bind fun length => delimits_take (spell length)

theorem delimits_text : text.Delimits := by
  refine delimits_offset.bind fun start => delimits_sized.bind fun bytes => ?_
  cases Text.ofUtf8? bytes with
  | none => exact delimits_throw _
  | some s => exact delimits_pure s

theorem delimits_annots : Reader.annots.Delimits := delimits_text.map words

theorem delimits_primitive : primitive.Delimits := by
  refine delimits_byte.bind fun tag => ?_
  cases Primitive.ofTag? tag with
  | none => exact delimits_throw _
  | some p => exact delimits_pure p

end Reader

namespace Zarith

/-- A number is spelled by the bytes that are counted, whatever follows them, and by no fewer. -/
theorem spellTail_take {bytes : List UInt8} {n count : Nat}
    (h : spellTail bytes = some (n, count)) :
    (∀ rest, spellTail (bytes.take count ++ rest) = some (n, count)) ∧
      ∀ k < count, spellTail (bytes.take k) = none := by
  induction bytes generalizing n count with
  | nil => cases h
  | cons b bytes ih =>
    rw [spellTail] at h
    split at h
    next hlast =>
      cases h
      refine ⟨fun rest => by simp [spellTail, hlast], fun k hk => ?_⟩
      rw [Nat.lt_one_iff.mp hk]
      rfl
    next hmore =>
      obtain ⟨⟨m, more⟩, hm, heq⟩ := Option.map_eq_some_iff.mp h
      cases heq
      obtain ⟨htakes, hcut⟩ := ih hm
      refine ⟨fun rest => by simp [spellTail, hmore, htakes], fun k hk => ?_⟩
      cases k with
      | zero => rfl
      | succ k => simp [spellTail, hmore, hcut k (by omega)]

end Zarith

namespace Reader

variable {α : Type}

theorem delimits_readTail : Zarith.readTail.Delimits := by
  intro c c' n h
  unfold Zarith.readTail at h
  split at h
  next m count hspell =>
    cases h
    have hcount : (c.rest.take count).length = count := by
      rw [List.length_take]
      exact Nat.min_eq_left (Zarith.length_encodeTail_le_of_spellTail hspell).2
    obtain ⟨htakes, hcut⟩ := Zarith.spellTail_take hspell
    refine ⟨c.rest.take count, (List.take_append_drop count c.rest).symm, fun more => ?_, ?_⟩
    · simp only [Zarith.readTail, htakes, List.drop_left' hcount, hcount]
    · intro k hk
      rw [hcount] at hk
      refine ⟨c.offset + (c.rest.take k).length,
        Nat.add_le_add_left (List.length_take_le k c.rest) c.offset, ?_⟩
      rw [List.take_take, Nat.min_eq_left (Nat.le_of_lt hk)]
      simp only [Zarith.readTail, hcut k hk]
  next => cases h

theorem delimits_zarith : Zarith.read.Delimits := by
  refine delimits_byte.bind fun first => ?_
  by_cases hlast : first < 128
  · simp only [if_pos hlast]
    exact (delimits_pure 0).bind fun more => delimits_pure _
  · simp only [if_neg hlast]
    exact delimits_readTail.bind fun more => delimits_pure _

/-! ## Nodes -/

/-- What is read within bytes that are at hand does not depend on the rest of the input. -/
theorem delimits_within (bytes : List UInt8) (start : Nat) (reader : Reader α) :
    (within bytes start reader).Delimits := by
  rintro ⟨offset, rest⟩ c' x h
  obtain ⟨⟨y, inner⟩, hinner, heq⟩ := map_eq_ok_iff.mp h
  cases heq
  refine ⟨[], rfl, fun more => ?_, by simp⟩
  rw [within, hinner]
  rfl

/-- Children stand in bytes that are taken out as a whole, so that nothing is asked of the reader
of one of them. -/
theorem delimits_children (child : Reader Expr) : (children child).Delimits :=
  delimits_offset.bind fun start => delimits_sized.bind fun body =>
    delimits_within body (start + 4) (untilEnd child)

section Node

variable {child : Reader Expr} (hchild : child.Delimits)

include hchild

theorem delimits_exactly (count : Nat) : (exactly child count).Delimits := by
  induction count with
  | zero => exact delimits_pure []
  | succ count ih => exact hchild.bind fun x => ih.map (x :: ·)

/-- A node is delimited if those of its children are that have no length in front of them. -/
theorem delimits_node : (node child).Delimits := by
  refine delimits_offset.bind fun start => delimits_byte.bind fun tag => ?_
  rcases NodeTag.ofByte? tag with _ | _ | _ | _ | ⟨arity, annotated⟩ | _ | _
  · exact delimits_throw _
  · exact delimits_zarith.map (Expr.int ·)
  · exact delimits_text.map (Expr.string ·)
  · exact (delimits_children child).map (Expr.seq ·)
  · refine delimits_primitive.bind fun p => (delimits_exactly hchild arity).bind fun args => ?_
    cases annotated with
    | false => exact (delimits_pure []).map (Expr.app p args ·)
    | true => exact delimits_annots.map (Expr.app p args ·)
  · exact delimits_primitive.bind fun p => (delimits_children child).bind fun args =>
      delimits_annots.map (Expr.app p args ·)
  · exact delimits_sized.map (Expr.bytes ·)

end Node

/-- **Expressions are delimited**, to whatever depth they are read. -/
theorem delimits_expr (levels : Nat) : (expr levels).Delimits := by
  induction levels with
  | zero => exact delimits_offset.bind fun _ => delimits_throw _
  | succ levels ih => exact delimits_node ih

/-- After its tag, every expression is written in one more byte at least. -/
theorem two_le_length_encode (e : Expr) : 2 ≤ e.encode.length := by
  cases e with
  | int => simp [Expr.encode, Zarith.encode]
  | string | bytes | seq =>
    simp only [Expr.encode, Binary.sized, List.length_cons, List.length_append, length_big4]
    omega
  | app p xs as flag =>
    by_cases h : xs.length < 3
    · simp [encode_app_of_lt p as flag h]
    · simp [encode_app_of_ge p as flag (Nat.not_lt.mp h)]

end Reader

/-! ## Byte strings that hold an expression -/

theorem decode_eq_ok_iff {bytes : List UInt8} {e : Expr} :
    Expr.decode bytes = .ok e ↔ Expr.decodeFront bytes = .ok (e, bytes.length) := by
  rw [Expr.decode, bind_eq_ok_iff]
  constructor
  · rintro ⟨⟨x, used⟩, hfront, hused⟩
    dsimp only at hused
    split at hused
    next hall =>
      cases hused
      rw [hfront, hall]
    next => cases hused
  · intro hfront
    exact ⟨(e, bytes.length), hfront, if_pos rfl⟩

/-- A byte string holds an expression just if its bytes are delimited as one. -/
theorem decode_eq_ok_iff_delimited {bytes : List UInt8} {e : Expr} :
    Expr.decode bytes = .ok e ↔ (Reader.expr maxDepth).Delimited 0 bytes e := by
  rw [decode_eq_ok_iff]
  constructor
  · intro hfront
    obtain ⟨⟨x, c⟩, hread, heq⟩ := map_eq_ok_iff.mp hfront
    obtain ⟨rfl, hoffset⟩ := Prod.mk.inj heq
    obtain ⟨taken, hbytes, hdelimited⟩ := Reader.delimits_expr maxDepth _ _ _ hread
    have htaken := hdelimited.offset_eq hbytes hread
    dsimp only at hbytes hdelimited htaken
    have hrest : c.rest = [] := by
      have hlength := congrArg List.length hbytes
      rw [List.length_append] at hlength
      exact List.eq_nil_of_length_eq_zero (by omega)
    rw [hrest, List.append_nil] at hbytes
    rwa [hbytes]
  · intro h
    have htakes := h.takes []
    rw [List.append_nil] at htakes
    rw [Expr.decodeFront, htakes, Nat.zero_add]
    rfl

/-- The expression at the front of a byte string is what the bytes hold that it takes. -/
theorem exists_decode_of_decodeFront {input : List UInt8} {e : Expr} {used : Nat}
    (h : Expr.decodeFront input = .ok (e, used)) :
    ∃ bytes rest, input = bytes ++ rest ∧ used = bytes.length ∧ Expr.decode bytes = .ok e := by
  obtain ⟨⟨x, c⟩, hread, heq⟩ := map_eq_ok_iff.mp h
  obtain ⟨rfl, rfl⟩ := Prod.mk.inj heq
  obtain ⟨bytes, hinput, hbytes⟩ := Reader.delimits_expr maxDepth _ _ _ hread
  refine ⟨bytes, c.rest, hinput, ?_, decode_eq_ok_iff_delimited.mpr hbytes⟩
  simpa using hbytes.offset_eq hinput hread

section Whole

variable {bytes : List UInt8} {e : Expr} (h : Expr.decode bytes = .ok e)

include h

/-- An expression is at the front of all byte strings that begin with one that holds it. -/
theorem decodeFront_append_of_decode (rest : List UInt8) :
    Expr.decodeFront (bytes ++ rest) = .ok (e, bytes.length) := by
  rw [Expr.decodeFront, (decode_eq_ok_iff_delimited.mp h).takes, Nat.zero_add]
  rfl

/-- A byte string that holds an expression is not cut without a failure to be told. -/
theorem decodeFront_take_of_decode {k : Nat} (hk : k < bytes.length) :
    ∃ place, Expr.decodeFront (bytes.take k) = .error (.truncated place) := by
  obtain ⟨place, -, herror⟩ := (decode_eq_ok_iff_delimited.mp h).cut k hk
  exact ⟨place, by rw [Expr.decodeFront, herror]; rfl⟩

/-- What a byte string holds is in normal form, and is written in no more bytes. -/
theorem normal_of_decode :
    Reader.Normal maxDepth e ∧ e.encode.length ≤ bytes.length := by
  have htakes := (decode_eq_ok_iff_delimited.mp h).takes []
  rw [List.append_nil] at htakes
  obtain ⟨taken, htaken, hnormal, hlength⟩ := Reader.givesNormal_expr maxDepth _ _ _ htakes
  rw [List.length_nil, Nat.add_zero] at htaken
  exact ⟨hnormal, htaken ▸ hlength⟩

end Whole

/-- **An expression tells where it ends.** The expression at the front of a byte string takes two
bytes at least, and all that it takes are there. A byte string that begins with the same bytes has
the same expression at its front; one that is cut before the last of them is refused since it ends,
at an offset that lies within what is left of it. -/
theorem decodeFront_delimited (input : List UInt8) (e : Expr) (used : Nat)
    (h : Expr.decodeFront input = .ok (e, used)) :
    2 ≤ used ∧ used ≤ input.length ∧
      (∀ other : List UInt8, other.take used = input.take used →
        Expr.decodeFront other = .ok (e, used)) ∧
      ∀ k < used, ∃ place ≤ k, Expr.decodeFront (input.take k) = .error (.truncated place) := by
  obtain ⟨⟨x, c⟩, hread, heq⟩ := map_eq_ok_iff.mp h
  cases heq
  obtain ⟨bytes, hinput, hbytes⟩ := Reader.delimits_expr maxDepth _ _ _ hread
  obtain ⟨taken, htaken, -, hlength⟩ := Reader.givesNormal_expr maxDepth _ _ _ hread
  have hused : c.offset = bytes.length := by simpa using hbytes.offset_eq hinput hread
  dsimp only at hinput hbytes htaken
  have hinput' := congrArg List.length hinput
  rw [List.length_append] at hinput'
  have htwo := Reader.two_le_length_encode e
  refine ⟨by omega, by omega, fun other hother => ?_, fun k hk => ?_⟩
  · rw [hused, hinput, List.take_left] at hother
    have hsplit := List.take_append_drop bytes.length other
    rw [hother] at hsplit
    rw [← hsplit, Expr.decodeFront, hbytes.takes, hused, Nat.zero_add]
    rfl
  · rw [hused] at hk
    obtain ⟨place, hplace, herror⟩ := hbytes.cut k hk
    refine ⟨place, by omega, ?_⟩
    rw [hinput, List.take_append_of_le_length (Nat.le_of_lt hk), Expr.decodeFront, herror]
    rfl

/-- A call of two arguments with an annotation, the second a list of a number of two bytes, and one
byte more after it. -/
def annotatedCall : List UInt8 :=
  [8, 7, 1, 0, 0, 0, 1, 97, 2, 0, 0, 0, 3, 0, 0x81, 1, 0, 0, 0, 2, 37, 120, 0xFF]

/-- The byte after it does not matter, and within the number of the list it may not end. -/
theorem decodeFront_delimited_annotatedCall :
    ∃ e, Expr.decodeFront annotatedCall = .ok (e, 22) ∧
      Expr.decodeFront (annotatedCall.take 22) = .ok (e, 22) ∧
      ∃ place ≤ 15, Expr.decodeFront (annotatedCall.take 15) = .error (.truncated place) := by
  have hread : (Expr.decodeFront annotatedCall).toOption.map (·.2) = some 22 := by decide +kernel
  obtain ⟨⟨e, used⟩, he, rfl⟩ := map_toOption_eq_some_iff.mp hread
  obtain ⟨-, -, hagree, hcut⟩ := decodeFront_delimited annotatedCall e 22 he
  exact ⟨e, he, hagree _ (List.take_take ..), hcut 15 (by decide)⟩

end Binary

end Michelson

import Michelson.Proofs.Binary.Delimiting

/-!
# Where reading fails

A failure tells an offset, and what it says about that place of the input is true, however deep in
sequences and applications the reader was when it failed. A reader never sees more than a part of
the input, such as the bytes of a sequence, but the offset of its cursor says where in the input
that part starts; all readers keep to this, so that the place can be looked up in the whole input.

## Main definitions

* `DecodeError.IsTrueOf`: whether a failure says the truth about an input
* `DecodeError.shift`: the failure with its offset counted from elsewhere
* `Cursor.LiesIn`: whether a reader stands where its cursor says
* `Reader.Locates`: a reader fails with nothing but the truth

## Main results

* `Reader.Locates.bind`: readers one after the other
* `Reader.locates_expr`: the failures of expressions
* `isTrueOf_of_decodeFront`: the same for whole inputs
-/

namespace Michelson

namespace Binary

/-- The length that the four bytes at an offset tell. -/
def lengthAt (input : List UInt8) (offset : Nat) : Nat := spell ((input.drop offset).take 4)

/-- The bytes after the length at an offset, as many as it tells. -/
def bodyAt (input : List UInt8) (offset : Nat) : List UInt8 :=
  (input.drop (offset + 4)).take (lengthAt input offset)

end Binary

open Binary

/-- **Whether a failure is true of an input.** The tag that is unknown stands at its offset, and is
beyond the tags that there are. The bytes that are no text stand after their length, all of them in
the input. Where the input ends too early or a node is nested too deeply, the offset is no farther
than the end. A primitive that is unknown has no offset, and nothing else goes wrong with bytes. -/
def DecodeError.IsTrueOf (input : List UInt8) : DecodeError → Prop
  | truncated offset | tooDeep offset => offset ≤ input.length
  | unknownTag tag offset => input[offset]? = some tag ∧ 0x0A < tag
  | invalidUtf8 offset =>
    offset + 4 + lengthAt input offset ≤ input.length ∧
      ∀ s, Text.utf8 s ≠ bodyAt input offset
  | unknownOpcode tag => Primitive.ofTag? tag = none
  | unknownPrimitive _ | trailingBytes _ | missingPackMark | invalidJson .. | notJson => False

/-- The failure with its offset counted from so many bytes before. -/
def DecodeError.shift (count : Nat) : DecodeError → DecodeError
  | truncated offset => truncated (count + offset)
  | unknownTag tag offset => unknownTag tag (count + offset)
  | invalidUtf8 offset => invalidUtf8 (count + offset)
  | tooDeep offset => tooDeep (count + offset)
  | e => e

/-- What is true of the end of an input is true of the input, if the offset is counted from its
start. -/
theorem DecodeError.IsTrueOf.shift {e : DecodeError} {back : List UInt8} (h : e.IsTrueOf back)
    (front : List UInt8) : (e.shift front.length).IsTrueOf (front ++ back) := by
  have hle {offset : Nat} (h : offset ≤ back.length) :
      front.length + offset ≤ (front ++ back).length := by
    rw [List.length_append]
    omega
  cases e with
  | truncated offset | tooDeep offset => exact hle h
  | unknownTag tag offset =>
    refine ⟨?_, h.2⟩
    rw [List.getElem?_append_right (Nat.le_add_right _ _), Nat.add_sub_cancel_left]
    exact h.1
  | invalidUtf8 offset =>
    have hlength : lengthAt (front ++ back) (front.length + offset) = lengthAt back offset := by
      rw [lengthAt, List.drop_length_add_append, lengthAt]
    have hbody : bodyAt (front ++ back) (front.length + offset) = bodyAt back offset := by
      rw [bodyAt, hlength, Nat.add_assoc, List.drop_length_add_append, bodyAt]
    rw [DecodeError.shift, DecodeError.IsTrueOf, hlength, hbody, Nat.add_assoc, Nat.add_assoc]
    refine ⟨hle ?_, h.2⟩
    rw [← Nat.add_assoc]
    exact h.1
  | unknownOpcode tag => exact h
  | unknownPrimitive | trailingBytes | missingPackMark | invalidJson | notJson => exact h

namespace Binary

/-- Whether what is left for a reader stands in the input where its cursor says. -/
def Cursor.LiesIn (c : Cursor) (input : List UInt8) : Prop :=
  ∃ front back, input = front ++ c.rest ++ back ∧ c.offset = front.length

namespace Cursor.LiesIn

variable {c c' : Cursor} {input bytes front back : List UInt8}

/-- A part of what is left stands in the input as far behind the cursor. -/
theorem part (h : c.LiesIn input) (hrest : c.rest = front ++ bytes ++ back) :
    Cursor.LiesIn ⟨c.offset + front.length, bytes⟩ input := by
  obtain ⟨before, after, hinput, hoffset⟩ := h
  refine ⟨before ++ front, back ++ after, ?_, ?_⟩
  · rw [hinput, hrest]
    simp only [List.append_assoc]
  · rw [List.length_append, hoffset]

/-- A reader that moves on still stands where its cursor says. -/
theorem move (h : c.LiesIn input) (hrest : c.rest = bytes ++ c'.rest)
    (hoffset : c'.offset = c.offset + bytes.length) : c'.LiesIn input := by
  have hwhole : c.rest = bytes ++ c'.rest ++ [] := by rw [hrest, List.append_nil]
  have hpart := h.part hwhole
  rw [← hoffset] at hpart
  exact hpart

theorem add_length_le (h : c.LiesIn input) : c.offset + c.rest.length ≤ input.length := by
  obtain ⟨before, after, rfl, hoffset⟩ := h
  rw [List.length_append, List.length_append]
  omega

theorem offset_le (h : c.LiesIn input) : c.offset ≤ input.length := by
  have hle := h.add_length_le
  omega

/-- What is left is found in the input from the offset on. -/
theorem take_drop (h : c.LiesIn input) (hrest : c.rest = front ++ bytes ++ back) :
    (input.drop (c.offset + front.length)).take bytes.length = bytes := by
  obtain ⟨before, after, hinput, hoffset⟩ := h.part hrest
  have hdrop : input.drop (c.offset + front.length) = bytes ++ after := by
    rw [hinput, show c.offset + front.length = before.length from hoffset, List.append_assoc]
    exact List.drop_left
  rw [hdrop]
  exact List.take_left

theorem getElem? {b : UInt8} (h : c.LiesIn input) (hrest : c.rest = b :: back) :
    input[c.offset]? = some b := by
  obtain ⟨before, after, rfl, hoffset⟩ := h
  rw [hrest, hoffset]
  simp

end Cursor.LiesIn

namespace Reader

variable {α β : Type}

/-- **Whether a reader fails with nothing but the truth** about the input in which it stands. -/
def Locates (reader : Reader α) : Prop :=
  ∀ (input : List UInt8) (c : Cursor), c.LiesIn input →
    ∀ e, reader c = .error e → e.IsTrueOf input

/-- A run of two readers fails in the first or in the second. -/
theorem bind_eq_error {r : Reader α} {f : α → Reader β} {c : Cursor} {e : DecodeError}
    (h : (r >>= f) c = .error e) :
    r c = .error e ∨ ∃ x c', r c = .ok (x, c') ∧ f x c' = .error e := by
  rcases bind_eq_error_iff.mp h with hfirst | ⟨⟨x, c'⟩, hx, hsecond⟩
  · exact .inl hfirst
  · exact .inr ⟨x, c', hx, hsecond⟩

section Combinators

variable {r : Reader α} {f : α → Reader β}

theorem locates_pure (x : α) : (pure x : Reader α).Locates := by
  intro input c hc e h
  cases h

/-- A reader that takes delimited bytes leaves its cursor where it says. -/
theorem Delimits.liesIn (hr : r.Delimits) {input : List UInt8} {c c' : Cursor} {x : α}
    (hc : c.LiesIn input) (h : r c = .ok (x, c')) : c'.LiesIn input := by
  obtain ⟨bytes, hrest, hbytes⟩ := hr c c' x h
  exact hc.move hrest (hbytes.offset_eq hrest h)

/-- **Readers one after the other** fail with the truth if each of them does. -/
theorem Locates.bind (hr : r.Locates) (hdelimits : r.Delimits) (hf : ∀ x, (f x).Locates) :
    (r >>= f).Locates := by
  intro input c hc e h
  rcases bind_eq_error h with hfirst | ⟨x, c', hx, hsecond⟩
  · exact hr input c hc e hfirst
  · exact hf x input c' (hdelimits.liesIn hc hx) e hsecond

theorem Locates.map (hr : r.Locates) (hdelimits : r.Delimits) (f : α → β) :
    Locates (do return f (← r)) :=
  hr.bind hdelimits fun x => locates_pure (f x)

end Combinators

/-! ## Bytes, texts and numbers -/

theorem locates_take (count : Nat) : (take count).Locates := by
  intro input c hc e h
  unfold take at h
  dsimp only at h
  split at h
  · cases h
  · cases h
    exact hc.offset_le

theorem locates_byte : byte.Locates := by
  intro input c hc e h
  unfold byte at h
  split at h
  · cases h
  · cases h
    exact hc.offset_le

theorem locates_sized : sized.Locates :=
  (locates_take 4).bind (delimits_take 4) fun length => locates_take (spell length)

theorem take_eq_ok {count : Nat} {c c' : Cursor} {bytes : List UInt8}
    (h : take count c = .ok (bytes, c')) :
    bytes.length = count ∧ c.rest = bytes ++ c'.rest := by
  unfold take at h
  dsimp only at h
  split at h
  next hlength =>
    cases h
    exact ⟨hlength, (List.take_append_drop count c.rest).symm⟩
  next => cases h

/-- Bytes that were taken after their length are as many as it tells. -/
theorem sized_eq_ok {c c' : Cursor} {body : List UInt8} (h : sized c = .ok (body, c')) :
    ∃ length, length.length = 4 ∧ spell length = body.length ∧
      c.rest = length ++ body ++ c'.rest := by
  obtain ⟨length, c₁, hlength, hbody⟩ := bind_eq_ok h
  obtain ⟨hfour, hrest⟩ := take_eq_ok hlength
  obtain ⟨hcount, hrest'⟩ := take_eq_ok hbody
  refine ⟨length, hfour, hcount.symm, ?_⟩
  rw [hrest, hrest', List.append_assoc]

/-- In the input they stand after their length, at the offset where the reader stood. -/
theorem bodyAt_of_sized_eq_ok {input body : List UInt8} {c c' : Cursor} (hc : c.LiesIn input)
    (h : sized c = .ok (body, c')) :
    c.offset + 4 + lengthAt input c.offset ≤ input.length ∧ bodyAt input c.offset = body := by
  obtain ⟨length, hfour, hspell, hrest⟩ := sized_eq_ok h
  have hlength : (input.drop c.offset).take 4 = length := by
    have hfirst : c.rest = [] ++ length ++ (body ++ c'.rest) := by simpa using hrest
    have hfront := hc.take_drop hfirst
    rwa [hfour] at hfront
  have hbody := hc.take_drop hrest
  have hend := hc.add_length_le
  rw [hfour] at hbody
  rw [hrest, List.length_append, List.length_append, hfour] at hend
  rw [bodyAt, lengthAt, hlength, hspell]
  exact ⟨by omega, hbody⟩

theorem locates_text : text.Locates := by
  intro input c hc e h
  rw [text, bind_of_ok (offset_apply c)] at h
  rcases bind_eq_error h with hsized | ⟨body, c', hbody, hinvalid⟩
  · exact locates_sized input c hc e hsized
  · obtain ⟨hend, hat⟩ := bodyAt_of_sized_eq_ok hc hbody
    cases hutf8 : Text.ofUtf8? body with
    | some s =>
      simp only [hutf8] at hinvalid
      cases hinvalid
    | none =>
      simp only [hutf8] at hinvalid
      cases hinvalid
      refine ⟨hend, fun s hs => ?_⟩
      rw [← hat, ← hs, Text.ofUtf8?_utf8] at hutf8
      cases hutf8

theorem locates_annots : Reader.annots.Locates := locates_text.map delimits_text words

theorem locates_primitive : primitive.Locates := by
  refine locates_byte.bind delimits_byte fun tag => ?_
  cases htag : Primitive.ofTag? tag with
  | some p => exact locates_pure p
  | none =>
    intro input c hc e h
    cases h
    exact htag

theorem locates_readTail : Zarith.readTail.Locates := by
  intro input c hc e h
  unfold Zarith.readTail at h
  split at h
  · cases h
  · cases h
    exact hc.add_length_le

theorem locates_zarith : Zarith.read.Locates := by
  refine locates_byte.bind delimits_byte fun first => ?_
  by_cases hlast : first < 128
  · simp only [if_pos hlast]
    exact (locates_pure 0).bind (delimits_pure 0) fun more => locates_pure _
  · simp only [if_neg hlast]
    exact locates_readTail.bind delimits_readTail fun more => locates_pure _

/-! ## Nodes -/

/-- The tags that there are come first among the bytes. -/
theorem lt_of_ofByte?_eq_none {b : UInt8} (h : NodeTag.ofByte? b = none) : 0x0A < b := by
  rw [NodeTag.ofByte?, List.getElem?_eq_none_iff] at h
  rw [UInt8.lt_iff_toNat_lt]
  exact h

theorem node_of_unknown {b : UInt8} (h : NodeTag.ofByte? b = none) (child : Reader Expr)
    (offset : Nat) (rest : List UInt8) :
    node child ⟨offset, b :: rest⟩ = .error (.unknownTag b offset) := by
  rw [node, bind_of_ok (offset_apply _),
    bind_of_ok (show byte _ = .ok (b, ⟨offset + 1, rest⟩) from rfl)]
  simp only [h]
  rfl

section Node

variable {child : Reader Expr} (hchild : child.Locates) (hdelimits : child.Delimits)

include hchild hdelimits

theorem locates_exactly (count : Nat) : (exactly child count).Locates := by
  induction count with
  | zero => exact locates_pure []
  | succ count ih =>
    refine hchild.bind hdelimits fun x => ?_
    exact ih.map (delimits_exactly hdelimits count) (x :: ·)

theorem locates_itemsUntilEnd (fuel : List UInt8) : (itemsUntilEnd child fuel).Locates := by
  induction fuel with
  | nil => exact locates_pure []
  | cons b fuel ih =>
    intro input c hc e h
    rw [itemsUntilEnd, bind_of_ok (get_apply c)] at h
    split at h
    · exact locates_pure [] input c hc e h
    · rcases bind_eq_error h with hitem | ⟨x, c', hx, hothers⟩
      · exact hchild input c hc e hitem
      · rcases bind_eq_error hothers with hmore | ⟨xs, c'', -, hpure⟩
        · exact ih input c' (hdelimits.liesIn hc hx) e hmore
        · cases hpure

/-- Children are read from a part of the input that starts after its length. -/
theorem locates_children : (children child).Locates := by
  intro input c hc e h
  rw [children, bind_of_ok (offset_apply c)] at h
  rcases bind_eq_error h with hsized | ⟨body, c', hbody, hwithin⟩
  · exact locates_sized input c hc e hsized
  · obtain ⟨length, hfour, -, hrest⟩ := sized_eq_ok hbody
    have hpart := hc.part hrest
    rw [hfour] at hpart
    rw [within, untilEnd, bind_of_ok (get_apply _), map_eq_error_iff] at hwithin
    exact locates_itemsUntilEnd hchild hdelimits body input _ hpart e hwithin

/-- What stands after a tag is read with nothing but the truth. -/
theorem locates_afterTag (tag : NodeTag) : (afterTag child tag).Locates := by
  cases tag with
  | int => exact locates_zarith.map delimits_zarith (Expr.int ·)
  | string => exact locates_text.map delimits_text (Expr.string ·)
  | bytes => exact locates_sized.map delimits_sized (Expr.bytes ·)
  | seq => exact (locates_children hchild hdelimits).map (delimits_children child) (Expr.seq ·)
  | app arity annotated =>
    refine locates_primitive.bind delimits_primitive fun p => ?_
    refine (locates_exactly hchild hdelimits arity).bind (delimits_exactly hdelimits arity) ?_
    intro args
    cases annotated with
    | false => exact (locates_pure []).map (delimits_pure []) (Expr.app p args ·)
    | true => exact locates_annots.map delimits_annots (Expr.app p args ·)
  | appMany =>
    refine locates_primitive.bind delimits_primitive fun p => ?_
    refine (locates_children hchild hdelimits).bind (delimits_children child) fun args => ?_
    exact locates_annots.map delimits_annots (Expr.app p args ·)

/-- **A node fails with the truth**: where its tag is unknown, that stands at the front of it. -/
theorem locates_node : (node child).Locates := by
  intro input c hc e h
  obtain ⟨offset, rest⟩ := c
  cases rest with
  | nil =>
    have hend : byte ⟨offset, []⟩ = .error (.truncated offset) := rfl
    rw [node, bind_of_ok (offset_apply _), bind_of_error hend] at h
    cases h
    exact hc.offset_le
  | cons b rest =>
    cases htag : NodeTag.ofByte? b with
    | some tag =>
      rw [node_of_tag htag] at h
      have hmoved : Cursor.LiesIn ⟨offset + 1, rest⟩ input := by
        apply hc.move
        · show b :: rest = [b] ++ rest
          rfl
        · rfl
      exact locates_afterTag hchild hdelimits tag input _ hmoved e h
    | none =>
      rw [node_of_unknown htag] at h
      cases h
      exact ⟨hc.getElem? rfl, lt_of_ofByte?_eq_none htag⟩

end Node

/-- **Expressions fail with the truth**, to whatever depth they are read. -/
theorem locates_expr (levels : Nat) : (expr levels).Locates := by
  -- Induction on the depth: the children of a node are read to one level less, and what they take
  -- is delimited, so that each of them starts where its cursor says.
  induction levels with
  | zero =>
    intro input c hc e h
    cases h
    exact hc.offset_le
  | succ levels ih => exact locates_node ih (delimits_expr levels)

end Reader

/-- **Decode errors tell absolute offsets, and the truth about them.** Whatever is wrong with a byte
string that begins with no expression, and however deep in it: an unknown tag stands at its offset
and is beyond all tags, a text that is invalid stands at its offset after its length, within the
byte string, and no place lies beyond the end. -/
theorem isTrueOf_of_decodeFront (input : List UInt8) (e : DecodeError)
    (h : Expr.decodeFront input = .error e) : e.IsTrueOf input := by
  have hwhole : Cursor.LiesIn ⟨0, input⟩ input := ⟨[], [], by simp, rfl⟩
  apply Reader.locates_expr maxDepth input _ hwhole
  rwa [Expr.decodeFront, map_eq_error_iff] at h

/-- The list of one item that is the second argument of a pair in the form for many arguments. -/
def listInPair (item : List UInt8) : List UInt8 :=
  [9, 7] ++ sized ([0, 42] ++ 2 :: sized item) ++ [0, 0, 0, 0]

/-- Two items that cannot be read: a text of a byte that must not stand alone, and a tag. -/
theorem isTrueOf_of_decodeFront_listInPair :
    Expr.decodeFront (listInPair [1, 0, 0, 0, 2, 0xC3, 0x28]) = .error (.invalidUtf8 14) ∧
      bodyAt (listInPair [1, 0, 0, 0, 2, 0xC3, 0x28]) 14 = [0xC3, 0x28] ∧
      (∀ s, Text.utf8 s ≠ [0xC3, 0x28]) ∧
      Expr.decodeFront (listInPair [0x0B]) = .error (.unknownTag 0x0B 13) ∧
      (listInPair [0x0B])[13]? = some 0x0B := by
  have htext : Expr.decodeFront (listInPair [1, 0, 0, 0, 2, 0xC3, 0x28]) =
      .error (.invalidUtf8 14) := by rfl
  have htag : Expr.decodeFront (listInPair [0x0B]) = .error (.unknownTag 0x0B 13) := by rfl
  have hbody : bodyAt (listInPair [1, 0, 0, 0, 2, 0xC3, 0x28]) 14 = [0xC3, 0x28] := by decide
  obtain ⟨-, hinvalid⟩ := isTrueOf_of_decodeFront _ _ htext
  obtain ⟨hplace, -⟩ := isTrueOf_of_decodeFront _ _ htag
  rw [hbody] at hinvalid
  exact ⟨htext, hbody, hinvalid, htag, hplace⟩

end Binary

end Michelson

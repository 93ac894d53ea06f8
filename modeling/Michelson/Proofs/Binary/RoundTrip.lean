import Michelson.Proofs.Binary.Zarith
import Michelson.Proofs.Expr.Canonical

/-!
# Reading back expressions

An expression is read back from its binary form in its canonical form, whatever follows it, if it
is not nested too deeply; if it is, reading fails for that reason and no other. Both are proved
together by induction over the expression, since the reader of a node fails where the first child
that is too deep stands, after the children before it have been read.

## Main definitions

* `Reader.Refuses`: a reader finds a node that is nested too deeply
* `Reader.afterTag`: a node without its tag
* `Reader.ReadBack`: at every depth, the binary form of an expression is taken or refused

## Main results

* `Reader.readBack_of_fitsLengths`: every expression whose lengths fit is read back so
* `decodeFront_encode_append`: the same for whole expressions
-/

namespace Michelson.Binary

namespace Reader

variable {α β : Type}

/-- A reader finds a node that is nested too deeply where the input starts with the given bytes,
whatever their offset and whatever follows them. -/
def Refuses (reader : Reader α) (bytes : List UInt8) : Prop :=
  ∀ (offset : Nat) (rest : List UInt8),
    ∃ place, reader ⟨offset, bytes ++ rest⟩ = .error (.tooDeep place)

theorem Refuses.bind {r : Reader α} {bytes : List UInt8} (hr : r.Refuses bytes)
    (f : α → Reader β) (more : List UInt8) : (r >>= f).Refuses (bytes ++ more) := by
  intro offset rest
  obtain ⟨place, h⟩ := hr offset (more ++ rest)
  exact ⟨place, by rw [List.append_assoc, bind_of_error h]⟩

theorem Takes.bind_refuses {r : Reader α} {f : α → Reader β} {bytes more : List UInt8} {x : α}
    (hr : r.Takes bytes x) (hf : (f x).Refuses more) : (r >>= f).Refuses (bytes ++ more) := by
  intro offset rest
  obtain ⟨place, h⟩ := hf (offset + bytes.length) rest
  exact ⟨place, by rw [List.append_assoc, bind_of_ok (hr offset (more ++ rest)), h]⟩

theorem Refuses.bind_pure {r : Reader α} {bytes : List UInt8} (hr : r.Refuses bytes)
    (f : α → β) : Refuses (do return f (← r)) bytes := by
  have h := hr.bind (fun x => (pure (f x) : Reader β)) []
  rwa [List.append_nil] at h

theorem takes_primitive (p : Primitive) : primitive.Takes [p.tag] p := by
  intro offset rest
  rw [primitive, bind_of_ok (takes_byte p.tag offset rest)]
  simp only [Primitive.ofTag?_tag]
  rfl

theorem takes_annots {annots : List String}
    (h : (Text.utf8 (String.intercalate " " annots)).length < 0x100000000) :
    Reader.annots.Takes (encodeAnnots annots) (Expr.canonicalAnnots annots) := by
  rw [← Expr.words_intercalate]
  exact (takes_text h).map words

/-! ## Children -/

section Children

variable {item : Reader Expr} {xs : List Expr}

/-- A fixed number of expressions is read back. -/
theorem takes_exactly (h : ∀ x ∈ xs, item.Takes x.encode x.canonical) :
    (exactly item xs.length).Takes (Expr.encodeAll xs) (xs.map Expr.canonical) := by
  induction xs with
  | nil => exact takes_pure []
  | cons x xs ih =>
    rw [List.forall_mem_cons] at h
    exact h.1.bind ((ih h.2).map (x.canonical :: ·))

/-- Of a fixed number of expressions, the first that is too deep is found. -/
theorem refuses_exactly
    (h : ∀ x ∈ xs, item.Takes x.encode x.canonical ∨ item.Refuses x.encode)
    (hdeep : ∃ x ∈ xs, item.Refuses x.encode) :
    (exactly item xs.length).Refuses (Expr.encodeAll xs) := by
  induction xs with
  | nil => simp at hdeep
  | cons x xs ih =>
    rw [List.forall_mem_cons] at h
    rcases h.1 with hx | hx
    · rw [List.exists_mem_cons_iff] at hdeep
      rcases hdeep with hx' | hdeep
      · exact hx'.bind _ _
      · exact hx.bind_refuses ((ih h.2 hdeep).bind_pure _)
    · exact hx.bind _ _

theorem encode_ne_nil (e : Expr) : e.encode ≠ [] := by
  cases e with
  | int | string | bytes | seq => simp [Expr.encode]
  | app p xs as flag =>
    rw [Expr.encode]
    split <;> simp

theorem itemsUntilEnd_of_ne_nil (item : Reader α) (b : UInt8) (fuel : List UInt8) {c : Cursor}
    (h : c.rest ≠ []) :
    itemsUntilEnd item (b :: fuel) c =
      (do let x ← item; return x :: (← itemsUntilEnd item fuel)) c := by
  have hsome : c.rest.isEmpty = false := by simpa using h
  rw [itemsUntilEnd, bind_of_ok (get_apply c)]
  simp only [hsome]
  rfl

/-- Up to the end of their bytes, as many expressions are read as were written. -/
theorem itemsUntilEnd_eq_exactly
    (h : ∀ x ∈ xs, item.Takes x.encode x.canonical ∨ item.Refuses x.encode)
    (fuel : List UInt8) (hfuel : (Expr.encodeAll xs).length ≤ fuel.length) (offset : Nat) :
    itemsUntilEnd item fuel ⟨offset, Expr.encodeAll xs⟩ =
      exactly item xs.length ⟨offset, Expr.encodeAll xs⟩ := by
  -- Induction on the expressions: each of them takes at least one of the bytes that are the fuel.
  induction xs generalizing fuel offset with
  | nil => cases fuel <;> rfl
  | cons x xs ih =>
    rw [List.forall_mem_cons] at h
    have hpos : 0 < x.encode.length := List.length_pos_iff.mpr (encode_ne_nil x)
    simp only [Expr.encodeAll, List.length_append] at hfuel ⊢
    cases fuel with
    | nil => simp only [List.length_nil] at hfuel; omega
    | cons b fuel =>
      have hmore : (Expr.encodeAll xs).length ≤ fuel.length := by
        simp only [List.length_cons] at hfuel
        omega
      rw [itemsUntilEnd_of_ne_nil item b fuel (by simp [encode_ne_nil]), List.length_cons,
        exactly]
      rcases h.1 with hx | hx
      · rw [bind_of_ok (hx offset _), bind_of_ok (hx offset _)]
        exact bind_congr_left (ih h.2 fuel hmore _)
      · obtain ⟨place, hx⟩ := hx offset (Expr.encodeAll xs)
        rw [bind_of_error hx, bind_of_error hx]

/-- Expressions after their length are read as many expressions are. -/
theorem children_encodeAll
    (h : ∀ x ∈ xs, item.Takes x.encode x.canonical ∨ item.Refuses x.encode)
    (hfits : (Expr.encodeAll xs).length < 0x100000000) (start : Nat) (rest : List UInt8) :
    children item ⟨start, Binary.sized (Expr.encodeAll xs) ++ rest⟩ =
      (exactly item xs.length ⟨start + 4, Expr.encodeAll xs ++ []⟩).map fun (ys, _) =>
        (ys, ⟨start + (Binary.sized (Expr.encodeAll xs)).length, rest⟩) := by
  rw [children, bind_of_ok (offset_apply _), bind_of_ok (takes_sized hfits start rest), within,
    untilEnd, bind_of_ok (get_apply _), itemsUntilEnd_eq_exactly h _ (Nat.le_refl _),
    List.append_nil]

/-- Expressions after their length are read back. -/
theorem takes_children (h : ∀ x ∈ xs, item.Takes x.encode x.canonical)
    (hfits : (Expr.encodeAll xs).length < 0x100000000) :
    (children item).Takes (Binary.sized (Expr.encodeAll xs)) (xs.map Expr.canonical) := by
  intro start rest
  rw [children_encodeAll (fun x hx => .inl (h x hx)) hfits, takes_exactly h]
  rfl

/-- Of the expressions after their length, the first that is too deep is found. -/
theorem refuses_children
    (h : ∀ x ∈ xs, item.Takes x.encode x.canonical ∨ item.Refuses x.encode)
    (hdeep : ∃ x ∈ xs, item.Refuses x.encode)
    (hfits : (Expr.encodeAll xs).length < 0x100000000) :
    (children item).Refuses (Binary.sized (Expr.encodeAll xs)) := by
  intro start rest
  obtain ⟨place, hplace⟩ := refuses_exactly h hdeep (start + 4) []
  refine ⟨place, ?_⟩
  rw [children_encodeAll h hfits, hplace]
  rfl

end Children

/-! ## Nodes -/

/-- The annotations of a node that has some by its tag. -/
def annotsIf (annotated : Bool) : Reader (List String) :=
  if annotated then Reader.annots else pure []

/-- A node without its tag, whose children are taken by `child`. -/
def afterTag (child : Reader Expr) : NodeTag → Reader Expr
  | .int => do return .int (← Zarith.read)
  | .string => do return .string (← text)
  | .bytes => do return .bytes (← sized)
  | .seq => do return .seq (← children child)
  | .app arity annotated => do
    let p ← primitive
    let args ← exactly child arity
    return .app p args (← annotsIf annotated)
  | .appMany => do
    let p ← primitive
    let args ← children child
    return .app p args (← Reader.annots)

/-- A node is what stands after its tag. -/
theorem node_of_tag {b : UInt8} {tag : NodeTag} (h : NodeTag.ofByte? b = some tag)
    (child : Reader Expr) (offset : Nat) (rest : List UInt8) :
    node child ⟨offset, b :: rest⟩ = afterTag child tag ⟨offset + 1, rest⟩ := by
  rw [node, bind_of_ok (offset_apply _),
    bind_of_ok (show byte _ = .ok (b, ⟨offset + 1, rest⟩) from rfl)]
  simp only [h]
  rcases tag with - | - | - | ⟨arity, _ | _⟩ | - | - <;> rfl

theorem node_toByte (child : Reader Expr) (tag : NodeTag) (offset : Nat) (rest : List UInt8) :
    node child ⟨offset, tag.toByte :: rest⟩ = afterTag child tag ⟨offset + 1, rest⟩ :=
  node_of_tag (NodeTag.ofByte?_toByte tag) child offset rest

theorem takes_node {child : Reader Expr} {tag : NodeTag} {bytes : List UInt8} {e : Expr}
    (h : (afterTag child tag).Takes bytes e) : (node child).Takes (tag.toByte :: bytes) e := by
  intro offset rest
  rw [List.cons_append, node_toByte, h, List.length_cons, Nat.add_assoc, Nat.add_comm 1]

theorem refuses_node {child : Reader Expr} {tag : NodeTag} {bytes : List UInt8}
    (h : (afterTag child tag).Refuses bytes) : (node child).Refuses (tag.toByte :: bytes) := by
  intro offset rest
  obtain ⟨place, h⟩ := h (offset + 1) rest
  exact ⟨place, by rw [List.cons_append, node_toByte, h]⟩

/-- An application of at most two arguments is written without the length of its arguments. -/
theorem encode_app_of_lt (p : Primitive) {xs : List Expr} (as : List String) (flag : Bool)
    (h : xs.length < 3) :
    (Expr.app p xs as flag).encode =
      (NodeTag.app ⟨xs.length, h⟩ !as.isEmpty).toByte ::
        ([p.tag] ++ (Expr.encodeAll xs ++ if as.isEmpty then [] else encodeAnnots as)) := by
  rw [Expr.encode]
  simp only [NodeTag.ofArity, dif_pos h]
  cases as.isEmpty <;> simp

theorem encode_app_of_ge (p : Primitive) {xs : List Expr} (as : List String) (flag : Bool)
    (h : 3 ≤ xs.length) :
    (Expr.app p xs as flag).encode =
      NodeTag.appMany.toByte ::
        ([p.tag] ++ (Binary.sized (Expr.encodeAll xs) ++ encodeAnnots as)) := by
  rw [Expr.encode]
  simp [NodeTag.ofArity, Nat.not_lt.mpr h]

theorem takes_annotsIf {as : List String}
    (h : as ≠ [] → (Text.utf8 (String.intercalate " " as)).length < 0x100000000) :
    (annotsIf !as.isEmpty).Takes (if as.isEmpty then [] else encodeAnnots as)
      (Expr.canonicalAnnots as) := by
  cases as with
  | nil => exact takes_pure []
  | cons a as => exact takes_annots (h (by simp))

section Node

variable {child : Reader Expr} {xs : List Expr}

/-- What an application writes after its primitive is read back. -/
theorem takes_app (p : Primitive) (as : List String) (flag : Bool)
    (hxs : ∀ x ∈ xs, child.Takes x.encode x.canonical)
    (hfits : ∀ body ∈ (Expr.app p xs as flag).bodies, body.length < 0x100000000) :
    (node child).Takes (Expr.app p xs as flag).encode (Expr.app p xs as flag).canonical := by
  rw [Expr.canonical, Expr.canonicalAll_eq_map]
  -- Up to two arguments stand behind a tag that tells their number and whether annotations follow;
  -- more of them stand behind their length, with annotations in any case.
  by_cases h : xs.length < 3
  · have hannots : as ≠ [] → (Text.utf8 (String.intercalate " " as)).length < 0x100000000 := by
      intro hne
      exact hfits _ (by simp [Expr.bodies, hne])
    rw [encode_app_of_lt p as flag h]
    exact takes_node ((takes_primitive p).bind
      ((takes_exactly hxs).bind ((takes_annotsIf hannots).map _)))
  · have h : 3 ≤ xs.length := Nat.not_lt.mp h
    have hchildren : (Expr.encodeAll xs).length < 0x100000000 :=
      hfits _ (by simp [Expr.bodies, h])
    have hannots : (Text.utf8 (String.intercalate " " as)).length < 0x100000000 :=
      hfits _ (by simp [Expr.bodies, h])
    rw [encode_app_of_ge p as flag h]
    exact takes_node ((takes_primitive p).bind
      ((takes_children hxs hchildren).bind ((takes_annots hannots).map _)))

/-- An argument that is too deep is found. -/
theorem refuses_app (p : Primitive) (as : List String) (flag : Bool)
    (hxs : ∀ x ∈ xs, child.Takes x.encode x.canonical ∨ child.Refuses x.encode)
    (hdeep : ∃ x ∈ xs, child.Refuses x.encode)
    (hfits : ∀ body ∈ (Expr.app p xs as flag).bodies, body.length < 0x100000000) :
    (node child).Refuses (Expr.app p xs as flag).encode := by
  by_cases h : xs.length < 3
  · rw [encode_app_of_lt p as flag h]
    exact refuses_node ((takes_primitive p).bind_refuses
      ((refuses_exactly hxs hdeep).bind _ _))
  · have h : 3 ≤ xs.length := Nat.not_lt.mp h
    have hchildren : (Expr.encodeAll xs).length < 0x100000000 :=
      hfits _ (by simp [Expr.bodies, h])
    rw [encode_app_of_ge p as flag h]
    exact refuses_node ((takes_primitive p).bind_refuses
      ((refuses_children hxs hdeep hchildren).bind _ _))

end Node

/-- Whether an expression is read back to each depth that is no less than its height, and refused
as too deep to each lesser one. -/
def ReadBack (e : Expr) : Prop :=
  ∀ levels, (e.height ≤ levels → (expr levels).Takes e.encode e.canonical) ∧
    (levels < e.height → (expr levels).Refuses e.encode)

theorem refuses_expr_zero (bytes : List UInt8) : (expr 0).Refuses bytes := by
  intro offset rest
  refine ⟨offset, ?_⟩
  rw [expr, bind_of_ok (offset_apply _)]
  rfl

/-- The depth to which a node is read is one more than that of its children. -/
theorem readBack_of_children {e : Expr} (xs : List Expr)
    (hheight : e.height = Expr.heightAll xs + 1) (hxs : ∀ x ∈ xs, ReadBack x)
    (takes : ∀ child : Reader Expr, (∀ x ∈ xs, child.Takes x.encode x.canonical) →
      (node child).Takes e.encode e.canonical)
    (refuses : ∀ child : Reader Expr,
      (∀ x ∈ xs, child.Takes x.encode x.canonical ∨ child.Refuses x.encode) →
      (∃ x ∈ xs, child.Refuses x.encode) → (node child).Refuses e.encode) :
    ReadBack e := by
  intro levels
  cases levels with
  | zero => exact ⟨fun h => by omega, fun _ => refuses_expr_zero _⟩
  | succ levels =>
    rw [hheight, Nat.add_le_add_iff_right, Nat.add_lt_add_iff_right, Expr.heightAll_le_iff,
      Expr.lt_heightAll_iff]
    constructor
    · intro h
      exact takes _ fun x hx => (hxs x hx levels).1 (h x hx)
    · -- the children before `x` may be too deep as well: one of them is refused first then
      rintro ⟨x, hx, hdeep⟩
      refine refuses _ (fun y hy => ?_) ⟨x, hx, (hxs x hx levels).2 hdeep⟩
      by_cases h : y.height ≤ levels
      · exact .inl ((hxs y hy levels).1 h)
      · exact .inr ((hxs y hy levels).2 (Nat.lt_of_not_le h))

/-- **Every expression is read back** if the lengths fit that it writes. -/
theorem readBack_of_fitsLengths {e : Expr} (hfits : e.FitsLengths) : ReadBack e := by
  -- Induction on the expression, for all numbers of levels at once: children are read to one less.
  induction e with
  | int n as =>
    exact readBack_of_children [] rfl (by simp)
      (fun _ _ => takes_node ((Zarith.takes_read n).map Expr.int)) (by simp)
  | string s as =>
    have hs : (Text.utf8 s).length < 0x100000000 := by
      simpa [Expr.FitsLengths, Expr.bodies] using hfits
    exact readBack_of_children [] rfl (by simp)
      (fun _ _ => takes_node ((takes_text hs).map Expr.string)) (by simp)
  | bytes b as =>
    have hb : b.length < 0x100000000 := by simpa [Expr.FitsLengths, Expr.bodies] using hfits
    exact readBack_of_children [] rfl (by simp)
      (fun _ _ => takes_node ((takes_sized hb).map Expr.bytes)) (by simp)
  | seq xs as ih =>
    rw [Expr.fitsLengths_seq_iff] at hfits
    refine readBack_of_children xs rfl (fun x hx => ih x hx (hfits.2 x hx)) (fun child hxs => ?_)
      (fun child hxs hdeep => refuses_node ((refuses_children hxs hdeep hfits.1).bind_pure _))
    rw [Expr.canonical, Expr.canonicalAll_eq_map]
    exact takes_node ((takes_children hxs hfits.1).map Expr.seq)
  | app p xs as flag ih =>
    rw [Expr.fitsLengths_app_iff] at hfits
    exact readBack_of_children xs rfl (fun x hx => ih x hx (hfits.2 x hx))
      (fun child hxs => takes_app p as flag hxs hfits.1)
      (fun child hxs hdeep => refuses_app p as flag hxs hdeep hfits.1)

end Reader

/-- What is read at the front of a byte string, if it is not nested too deeply. -/
theorem decodeFront_of_fitsLengths {e : Expr} (hfits : e.FitsLengths)
    (hheight : e.height ≤ maxDepth) (rest : List UInt8) :
    Expr.decodeFront (e.encode ++ rest) = .ok (e.canonical, e.encode.length) := by
  have hread := (Reader.readBack_of_fitsLengths hfits maxDepth).1 hheight 0 rest
  rw [Expr.decodeFront, hread, Nat.zero_add]
  rfl

/-- **The round trip through bytes.** An expression whose lengths fit is read back from the front
of any byte string in its canonical form, with the number of bytes that it takes; this is the
expression itself if its annotations are plain. An expression of too great a height is refused
for its depth. -/
theorem decodeFront_encode_append (e : Expr) (hfits : e.FitsLengths) (rest : List UInt8) :
    (e.height ≤ maxDepth →
      Expr.decodeFront (e.encode ++ rest) = .ok (e.canonical, e.encode.length)) ∧
    (e.PlainlyAnnotated → (e.canonical == e) = true) ∧
    (maxDepth < e.height →
      ∃ place, Expr.decodeFront (e.encode ++ rest) = .error (.tooDeep place)) := by
  have hread := Reader.readBack_of_fitsLengths hfits maxDepth
  refine ⟨fun h => ?_, Expr.canonical_same, fun h => ?_⟩
  · rw [Expr.decodeFront, hread.1 h 0 rest, Nat.zero_add]
    rfl
  · obtain ⟨place, hplace⟩ := hread.2 h 0 rest
    exact ⟨place, by rw [Expr.decodeFront, hplace]; rfl⟩

/-- So many sequences of one item around an integer. -/
def nested : Nat → Expr
  | 0 => .int (-65)
  | n + 1 => .seq [nested n]

theorem height_nested (n : Nat) : (nested n).height = n + 1 := by
  induction n with
  | zero => rfl
  | succ n ih => simp [nested, Expr.height, Expr.heightAll, ih]

theorem length_encode_nested (n : Nat) : (nested n).encode.length = 5 * n + 3 := by
  induction n with
  | zero => simp [nested, Expr.encode, Zarith.encode, Zarith.encodeTail]
  | succ n ih =>
    simp only [nested, Expr.encode, Expr.encodeAll, Binary.sized, List.append_nil,
      List.length_cons, List.length_append, length_big4, ih]
    omega

theorem fitsLengths_nested {n : Nat} (h : n ≤ 1000000) : (nested n).FitsLengths := by
  induction n with
  | zero => simp [nested, Expr.FitsLengths, Expr.bodies]
  | succ n ih =>
    rw [nested, Expr.fitsLengths_seq_iff]
    refine ⟨?_, by simpa using ih (by omega)⟩
    rw [Expr.encodeAll, Expr.encodeAll, List.append_nil, length_encode_nested]
    omega

/-- A value with annotations that are not plain, of more arguments than a short tag can tell. -/
def annotated : Expr :=
  .app (.data .pair) [.int (-65), .string "a", .seq [] [":x"]] ["%a b", "", "@c"] true

theorem fitsLengths_annotated : annotated.FitsLengths := by
  simp only [annotated, Expr.fitsLengths_app_iff, List.forall_mem_cons, Expr.fitsLengths_seq_iff,
    Expr.bodies]
  simp only [Expr.FitsLengths, Expr.nodes_int, Expr.nodes_string, List.forall_mem_singleton,
    Expr.bodies]
  decide +kernel

/-- Annotations are cut at their spaces, and one node too many is refused. -/
theorem decodeFront_encode_append_annotated_nested :
    Expr.decodeFront (annotated.encode ++ [7]) =
      .ok (.app (.data .pair) [.int (-65), .string "a", .seq []] ["%a", "b", "@c"], 32) ∧
    ∃ place, Expr.decodeFront ((nested 1000).encode ++ [7]) = .error (.tooDeep place) := by
  constructor
  · have hlength : annotated.encode.length = 32 := by decide +kernel
    have hread := (decodeFront_encode_append annotated fitsLengths_annotated [7]).1 (by decide)
    rw [hlength] at hread
    exact hread
  · refine (decodeFront_encode_append _ (fitsLengths_nested (by decide)) [7]).2.2 ?_
    rw [height_nested]
    decide

end Michelson.Binary

import Michelson.Marshal.Value
import Michelson.Proofs.Marshal.Combs
import Michelson.Proofs.Marshal.Parts
import Michelson.Proofs.Typedef.Placement

/-!
# Outlines of values

A host value stands for one thing, whichever form it is written in. Its outline says what that is:
identifiers and moments are not yet written, and collections have the order of the host value. What
is built for the host value is the outline written in the form, where collections are sorted by what
is written for them.

## Main definitions

* `Datum`: identifiers and moments, and how they are written
* `Outline`: outlines, and how they are written
* `Typedef.outline`: the outline of what a host value stands for
* `Renders`: a run that writes the outline which another run gives
* `Typedef.IsOutOfRange`: the failures at moments without a text

## Main results

* `Typedef.renders_marshal`: what is built in a form is the outline written in that form
* `Typedef.outlines_marshal`: what is built in readable form is the outline written in that form, and
  in the other form the same outline is written
-/

namespace Michelson

/-! ## Outlines -/

/-- What is written as text in one form and compactly in the other. -/
inductive Datum where
  | address (address : Address) (entrypoint : Option String)
  | keyHash (address : Address) (bytes : List UInt8)
  | layer2 (address : Address)
  | key (key : Key)
  | signature (signature : Signature)
  | chainId (id : ChainId)
  | moment (seconds : Int) (text : String)

namespace Datum

/-- The readable form. -/
def text : Datum → String
  | address a none => a.text
  | address a (some name) => a.text ++ "%" ++ name
  | keyHash a _ => a.text
  | layer2 a => a.text
  | key k => k.text
  | signature s => s.text
  | chainId id => id.text
  | moment _ text => text

/-- The compact form. -/
def compact : Datum → Expr
  | address a none => .bytes a.toBytes
  | address a (some name) => .bytes (a.toBytes ++ Text.utf8 name)
  | keyHash _ bytes => .bytes bytes
  | layer2 a => .bytes a.hash.1
  | key k => .bytes k.toBytes
  | signature s => .bytes s.toBytes
  | chainId id => .bytes id.bytes.1
  | moment seconds _ => .int seconds

/-- The form that is asked for. -/
def write (form : ScalarForm) (datum : Datum) : Expr :=
  match form with
  | .readable => .string datum.text
  | .optimized => datum.compact

end Datum

/-- How the items of a sequence are put in order. -/
inductive Arrangement where
  | asGiven | byValue | byKey
  deriving DecidableEq, Repr

/-- **The outline of a value**: identifiers and moments in no form yet, and the items of collections
as they were given. -/
inductive Outline where
  | plain (e : Expr)
  | datum (datum : Datum)
  | app (p : Primitive) (args : List Outline)
  | seq (arrangement : Arrangement) (items : List Outline)

/-- The items in order, if they can be sorted. -/
def Arrangement.sort? (arrangement : Arrangement) (items : List Expr) : Option (List Expr) :=
  match arrangement with
  | asGiven => some items
  | byValue => Expr.sortItems? items
  | byKey => Expr.sortEntries? items

/-- The items in order. Those that cannot be sorted stay as they are. -/
def Arrangement.sort (arrangement : Arrangement) (items : List Expr) : List Expr :=
  (arrangement.sort? items).getD items

namespace Outline

mutual
/-- **What is written for an outline.** Collections are sorted by what is written for their items. -/
def write (form : ScalarForm) : Outline → Expr
  | plain e => e
  | datum d => d.write form
  | app p args => .app p (writeAll form args)
  | seq arrangement items => .seq (arrangement.sort (writeAll form items))
/-- What is written for outlines. -/
def writeAll (form : ScalarForm) : List Outline → List Expr
  | [] => []
  | o :: os => write form o :: writeAll form os
end

theorem writeAll_eq_map (form : ScalarForm) (os : List Outline) :
    writeAll form os = os.map (write form) := by
  induction os with
  | nil => rfl
  | cons o os ih => rw [writeAll, List.map_cons, ih]

@[simp] theorem write_app (form : ScalarForm) (p : Primitive) (args : List Outline) :
    write form (app p args) = .app p (args.map (write form)) := by
  rw [write, writeAll_eq_map]

@[simp] theorem write_seq (form : ScalarForm) (arrangement : Arrangement) (items : List Outline) :
    write form (seq arrangement items) = .seq (arrangement.sort (items.map (write form))) := by
  rw [write, writeAll_eq_map]

/-- An outline wrapped along the steps to its branch. -/
def wrap (steps : List Nat) (payload : Outline) : Outline :=
  steps.foldr (fun step o => app (.data (if step = 0 then .left else .right)) [o]) payload

theorem write_wrap (form : ScalarForm) (steps : List Nat) (payload : Outline) :
    write form (wrap steps payload) = Typedef.wrapBranch steps (write form payload) := by
  induction steps with
  | nil => rfl
  | cons step steps ih =>
    rw [wrap, List.foldr_cons, write_app, List.map_singleton]
    exact congrArg (fun e => Expr.app _ [e]) ih

/-- The comb of some fields. -/
def assemble? (fields : List (List Nat × Outline)) : Option Outline :=
  assembleWith? (fun l r => app (.data .pair) [l, r]) fields

theorem assemble?_write (form : ScalarForm) (fields : List (List Nat × Outline)) :
    Expr.assemble? (fields.map fun f => (f.1, write form f.2)) =
      (assemble? fields).map (write form) := by
  have hparts : RelatedParts (fun o e => write form o = e) fields
      (fields.map fun f => (f.1, write form f.2)) := by
    rw [RelatedParts, List.forall₂_map_right_iff, List.forall₂_same]
    exact fun _ _ => ⟨rfl, rfl⟩
  have hpair (o : Outline) (e : Expr) (o' : Outline) (e' : Expr) (h : write form o = e)
      (h' : write form o' = e') :
      write form (app (.data .pair) [o, o']) = .app (.data .pair) [e, e'] := by
    rw [write_app, ← h, ← h']
    rfl
  have hrel := rel_assembleWith? hpair hparts
  rw [← Expr.assemble?_eq] at hrel
  rw [assemble?]
  generalize Expr.assemble? _ = comb at hrel ⊢
  generalize assembleWith? _ fields = o at hrel ⊢
  cases hrel with
  | none => rfl
  | some h => exact congrArg some h.symm

end Outline

namespace Typedef

/-! ## Outlines from host values -/

/-- The outline of the scalar of a type that a host value stands for. -/
def outlineScalar (t : Typedef) (c : TypeConstructor) (value : Json) :
    Except MarshalError Outline :=
  match c with
  | .timestamp => do
    let seconds ← t.hostNumber .timestamp .notTimestamp
      (fun s => Timestamp.read? s <|> Text.readInteger? s) value
    match Timestamp.render? seconds with
    | some text => return .datum (.moment seconds text)
    | none => t.invalid .outOfRange
  | .address | .contract => do
    let (text, entrypoint) := splitEntrypoint (← t.hostText value)
    match Address.ofText text with
    | .error cause => t.invalid (.identifier cause)
    | .ok address => match entrypoint with
      | none => return .datum (.address address none)
      | some name =>
        let bytes := Text.utf8 name
        if bytes.isEmpty || 31 < bytes.length then t.invalid (.invalidEntrypoint name)
        else return .datum (.address address (some name))
  | .txRollupL2Address => do
    let address ← t.hostIdentifier Address.ofText value
    if address.kind = .bls12381 then return .datum (.layer2 address)
    else t.invalid .notLayer2
  | .keyHash => do
    let address ← t.hostIdentifier Address.ofText value
    match address.keyHashBytes with
    | .ok bytes => return .datum (.keyHash address bytes)
    | .error cause => t.invalid (.identifier cause)
  | .key => do return .datum (.key (← t.hostIdentifier Key.ofText value))
  | .signature => do return .datum (.signature (← t.hostIdentifier Signature.ofText value))
  | .chainId => do return .datum (.chainId (← t.hostIdentifier ChainId.ofText value))
  | c => do return .plain (← t.scalar c .readable value)

/-- A typedef, with the outlines of the host values that are read for it. -/
structure Part where
  typedef : Typedef
  outline : Json → Except MarshalError Outline

/-- The outlines of the fields of a struct from a position on, each with its path. -/
def outlineFields (struct : Typedef) (value : Json) (position : Nat) :
    List Part → Except MarshalError (List (List Nat × Outline))
  | [] => .ok []
  | part :: parts => do
    let v ← struct.hostField value position part.typedef
    let o ← part.outline v
    return (part.typedef.pathFrom struct, o)
      :: (← outlineFields struct value (position + 1) parts)

/-- The outline of the first branch of a union with a given name, wrapped along the steps to it. -/
def outlineBranch (union : Typedef) (name : String) (inner : Json) :
    List Part → Except MarshalError Outline
  | [] => .error (.noBranch union.name)
  | part :: parts =>
    if part.typedef.name = name then do
      return .wrap (part.typedef.pathFrom union) (← part.outline inner)
    else outlineBranch union name inner parts

/-- The outlines of the items of a list or set. -/
def outlineItems (collection : Typedef) (value : Json) :
    List Part → Except MarshalError (List Outline)
  | [] => collection.unsupported
  | item :: _ => do (← collection.hostItems value).mapM item.outline

/-- The outlines of the entries of a map. -/
def outlineEntries (collection : Typedef) (value : Json) :
    List Part → Except MarshalError (List Outline)
  | keyPart :: valuePart :: _ => match value with
    | .object members => members.mapM fun (name, v) => do
      let key ← keyPart.outline (.string name)
      return .app (.data .elt) [key, ← valuePart.outline v]
    | .array items => items.mapM fun item => do
      let (k, v) ← collection.hostEntry item
      let key ← keyPart.outline k
      return .app (.data .elt) [key, ← valuePart.outline v]
    | other => collection.misshapen .entries other
  | _ => collection.unsupported

/-- The outline of a host value of a type, or of what an option of it holds. -/
def outlineHeld (t : Typedef) (parts : List Part) (value : Json) : Except MarshalError Outline :=
  match t.kind with
  | .struct => do
    match Outline.assemble? (← outlineFields t value 0 parts) with
    | some comb => return comb
    | none => t.unsupported
  | .union => do
    let (branch, inner) ← t.hostBranch value
    outlineBranch t branch.name inner parts
  | .type .list | .sapling (.type .list) _ => do
    return .seq .asGiven (← outlineItems t value parts)
  | .type .set | .sapling (.type .set) _ => do
    return .seq .byValue (← outlineItems t value parts)
  | .type .map | .sapling (.type .map) _ => do
    return .seq .byKey (← outlineEntries t value parts)
  | .type .bigMap | .sapling (.type .bigMap) _ => match value with
    | .number _ => do return .plain (← t.hostInteger false value)
    | value => do return .seq .byKey (← outlineEntries t value parts)
  | .type c | .sapling (.type c) _ => t.outlineScalar c value
  | .sapling _ _ => t.unsupported

/-- The outline of a host value, which may be nothing if the typedef is optional. -/
def outlineWith (t : Typedef) (parts : List Part) (value : Json) : Except MarshalError Outline :=
  match t.optional, t.unwrapName value with
  | true, .null => return .app (.data .none) []
  | optional, value => do
    let o ← outlineHeld t parts value
    return if optional then .app (.data .some) [o] else o

mutual
/-- **The outline of what a host value stands for.** -/
def outline : Typedef → Json → Except MarshalError Outline
  | ⟨name, kind, optional, args, path⟩ =>
    outlineWith ⟨name, kind, optional, args, path⟩ (parts args)
/-- Typedefs, each with the outlines for it. -/
def parts : List Typedef → List Part
  | [] => []
  | t :: ts => ⟨t, outline t⟩ :: parts ts
end

theorem outline_eq (t : Typedef) : t.outline = outlineWith t (parts t.args) := by
  obtain ⟨name, kind, optional, args, path⟩ := t
  rw [outline]

end Typedef

/-! ## What is written for outlines -/

/-- Whether a run gives what is written for the outline that another run gives, and fails as that
fails, unless it is excused from the failure. Where items of a collection cannot be sorted, the run
ends. -/
def Renders {α β : Type} (excused : MarshalError → Prop) (outline : Except MarshalError β)
    (run : Except MarshalError α) (write : β → α) : Prop :=
  run = .error .disordered ∨
    match outline with
    | .ok b => run = .ok (write b)
    | .error e => run = .error e ∨ excused e

/-- Whether what a run gives in readable form, if it gives anything, is written for the outline that
another run gives, and so is what it gives in any form. -/
def Outlines {α β : Type} (outline : Except MarshalError β)
    (run : ScalarForm → Except MarshalError α) (write : ScalarForm → β → α) : Prop :=
  ∀ a, run .readable = .ok a → ∃ b, outline = .ok b ∧
    ∀ form, run form = .error .disordered ∨ run form = .ok (write form b)

section Runs

variable {α β γ δ : Type} {excused : MarshalError → Prop} {write : β → α} {write' : δ → γ}

theorem renders_pure {x : α} {b : β} (h : x = write b) :
    Renders excused (pure b) (pure x) write :=
  .inr (congrArg Except.ok h)

theorem renders_error (e : MarshalError) :
    Renders excused (.error e : Except MarshalError β) (.error e : Except MarshalError α) write :=
  .inr (.inl rfl)

theorem renders_of_excused {e : MarshalError} {run : Except MarshalError α} (h : excused e) :
    Renders excused (.error e : Except MarshalError β) run write :=
  .inr (.inr h)

theorem Renders.mono {excused' : MarshalError → Prop} {outline : Except MarshalError β}
    {run : Except MarshalError α} (h : Renders excused outline run write)
    (hle : ∀ e, excused e → excused' e) : Renders excused' outline run write := by
  cases outline with
  | ok b => exact h
  | error e => exact h.imp_right (Or.imp_right (hle e))

theorem Renders.bind {outline : Except MarshalError β} {run : Except MarshalError α}
    {next : β → Except MarshalError δ} {next' : α → Except MarshalError γ}
    (h : Renders excused outline run write)
    (hnext : ∀ b, Renders excused (next b) (next' (write b)) write') :
    Renders excused (outline >>= next) (run >>= next') write' := by
  have hfails (e : MarshalError) (hrun : run = .error e) : (run >>= next') = .error e := by
    rw [hrun]
    rfl
  cases outline with
  | ok b =>
    rcases h with hdisordered | hrun
    · exact .inl (hfails _ hdisordered)
    · obtain rfl : run = .ok (write b) := hrun
      exact hnext b
  | error e => exact h.imp (hfails _) (Or.imp_left (hfails e))

/-- A step that has no form is the same in both runs. -/
theorem renders_bind {x : Except MarshalError α} {next : α → Except MarshalError δ}
    {next' : α → Except MarshalError γ}
    (hnext : ∀ a, Renders excused (next a) (next' a) write') :
    Renders excused (x >>= next) (x >>= next') write' := by
  cases x with
  | ok a => exact hnext a
  | error e => exact renders_error e

theorem renders_mapM {ι : Type} {outline : ι → Except MarshalError β}
    {run : ι → Except MarshalError α} {is : List ι}
    (h : ∀ i ∈ is, Renders excused (outline i) (run i) write) :
    Renders excused (is.mapM outline) (is.mapM run) (fun bs => bs.map write) := by
  induction is with
  | nil => exact renders_pure rfl
  | cons i is ih =>
    rw [List.forall_mem_cons] at h
    simp only [List.mapM_cons]
    exact h.1.bind fun b => (ih h.2).bind fun bs => renders_pure rfl

end Runs

namespace Typedef

/-- Whether a failure is that of a moment without a text, at a part of the typedef that describes
moments. -/
def IsOutOfRange (t : Typedef) (e : MarshalError) : Prop :=
  ∃ d ∈ t.nodes, d.kind.isType .timestamp = true ∧ e = .scalar d.name d.kind .outOfRange

theorem IsOutOfRange.of_mem_args {t arg : Typedef} {e : MarshalError} (harg : arg ∈ t.args)
    (h : arg.IsOutOfRange e) : t.IsOutOfRange e := by
  obtain ⟨d, hd, hrest⟩ := h
  exact ⟨d, mem_nodes.mpr (.inr ⟨arg, harg, hd⟩), hrest⟩

section Scalars

variable {excused : MarshalError → Prop} {form : ScalarForm}

theorem renders_plain (x : Except MarshalError Expr) :
    Renders excused (x >>= fun e => pure (.plain e)) x (Outline.write form) := by
  cases x with
  | ok e => exact renders_pure rfl
  | error e => exact renders_error e

theorem renders_pick {bytes : List UInt8} {text : String} {datum : Datum}
    (htext : datum.text = text) (hbytes : datum.compact = .bytes bytes) :
    Renders excused (pure (.datum datum)) (pure (form.pick bytes text)) (Outline.write form) := by
  refine renders_pure ?_
  cases form with
  | readable => exact congrArg (Expr.string ·) htext.symm
  | optimized => exact hbytes.symm

/-- A moment without a text has no outline, but is still written in the compact form. -/
theorem renders_hostTimestamp (t : Typedef) (value : Json) :
    Renders (fun e => form = .optimized ∧ e = .scalar t.name t.kind .outOfRange)
      (t.outlineScalar .timestamp value) (t.hostTimestamp form value) (Outline.write form) := by
  refine renders_bind fun seconds => ?_
  cases htext : Timestamp.render? seconds with
  | none =>
    cases form with
    | readable => exact renders_error _
    | optimized => exact renders_of_excused ⟨rfl, rfl⟩
  | some text => cases form <;> exact renders_pure rfl

theorem renders_hostAddress (t : Typedef) (value : Json) :
    Renders excused (t.outlineScalar .address value) (t.hostAddress form value)
      (Outline.write form) := by
  refine renders_bind fun s => ?_
  obtain ⟨text, entrypoint⟩ := splitEntrypoint s
  simp only
  cases Address.ofText text with
  | error cause => exact renders_error _
  | ok address =>
    cases entrypoint with
    | none => exact renders_pick rfl rfl
    | some name =>
      simp only
      split
      · exact renders_error _
      · exact renders_pick rfl rfl

/-- The outline of a scalar. -/
theorem renders_scalar (t : Typedef) (c : TypeConstructor) (value : Json) :
    Renders
      (fun e => form = .optimized ∧ c = .timestamp ∧ e = .scalar t.name t.kind .outOfRange)
      (t.outlineScalar c value) (t.scalar c form value) (Outline.write form) := by
  cases c with
  | timestamp => exact (t.renders_hostTimestamp value).mono fun e he => ⟨he.1, rfl, he.2⟩
  | address | contract => exact t.renders_hostAddress value
  | txRollupL2Address =>
    refine renders_bind fun address => ?_
    split
    · exact renders_pick rfl rfl
    · exact renders_error _
  | keyHash =>
    refine renders_bind fun address => ?_
    cases address.keyHashBytes with
    | ok bytes => exact renders_pick rfl rfl
    | error cause => exact renders_error _
  | key | signature | chainId => exact renders_bind fun _ => renders_pick rfl rfl
  | _ => exact renders_plain _

end Scalars

section Parts

variable {excused : MarshalError → Prop} {form : ScalarForm} {ts : List Typedef}
  (h : ∀ t ∈ ts, ∀ value,
    Renders excused (t.outline value) (t.marshal form value) (Outline.write form))

include h

theorem renders_fields (struct : Typedef) (value : Json) (position : Nat) :
    Renders excused (outlineFields struct value position (parts ts))
      (marshalFields form struct value position ts)
      (fun fields => fields.map fun f => (f.1, Outline.write form f.2)) := by
  induction ts generalizing position with
  | nil => exact renders_pure rfl
  | cons t ts ih =>
    rw [List.forall_mem_cons] at h
    refine renders_bind fun v => (h.1 v).bind fun o => ?_
    exact (ih h.2 (position + 1)).bind fun fields => renders_pure rfl

theorem renders_branch (union : Typedef) (name : String) (inner : Json) :
    Renders excused (outlineBranch union name inner (parts ts))
      (marshalBranch form union name inner ts) (Outline.write form) := by
  induction ts with
  | nil => exact renders_error _
  | cons t ts ih =>
    rw [List.forall_mem_cons] at h
    simp only [marshalBranch, parts, outlineBranch]
    split
    · exact (h.1 inner).bind fun o => renders_pure (Outline.write_wrap form _ o).symm
    · exact ih h.2

theorem renders_items (collection : Typedef) (value : Json) :
    Renders excused (outlineItems collection value (parts ts))
      (marshalItems form collection value ts) (fun items => items.map (Outline.write form)) := by
  cases ts with
  | nil => exact renders_error _
  | cons t ts =>
    rw [List.forall_mem_cons] at h
    exact renders_bind fun items => renders_mapM fun item _ => h.1 item

theorem renders_entries (collection : Typedef) (value : Json) :
    Renders excused (outlineEntries collection value (parts ts))
      (marshalEntries form collection value ts)
      (fun entries => entries.map (Outline.write form)) := by
  match ts, h with
  | [], _ | [_], _ =>
    exact renders_error _
  | t :: u :: ts, h =>
    rw [List.forall_mem_cons, List.forall_mem_cons] at h
    have hentry (k v : Json) : Renders excused
        (do return .app (.data .elt) [← t.outline k, ← u.outline v])
        (do return .app (.data .elt) [← t.marshal form k, ← u.marshal form v])
        (Outline.write form) := by
      refine (h.1 k).bind fun key => (h.2.1 v).bind fun value => ?_
      exact renders_pure (Outline.write_app form _ [key, value]).symm
    cases value with
    | object members => exact renders_mapM fun m _ => hentry (.string m.1) m.2
    | array items => exact renders_mapM fun item _ => renders_bind fun host => hentry host.1 host.2
    | _ => exact renders_error _

end Parts

/-- What is built is what is held, with an option around it or not. -/
theorem marshal_eq (form : ScalarForm) (t : Typedef) (value : Json) :
    t.marshal form value =
      match t.optional, t.unwrapName value with
      | true, .null => return .app (.data .none) []
      | optional, value => do
        let e ← marshalHeld form t value
        return if optional then .app (.data .some) [e] else e := by
  obtain ⟨name, kind, optional, args, path⟩ := t
  rw [marshal.eq_def]
  rfl

/-- A collection is written with its items in order, or they cannot be sorted. -/
theorem renders_sortedSequence {excused : MarshalError → Prop} {form : ScalarForm}
    (arrangement : Arrangement) (items : List Outline) :
    Renders excused (pure (.seq arrangement items))
      (sortedSequence (arrangement.sort? (items.map (Outline.write form)))) (Outline.write form) := by
  cases hsort : arrangement.sort? (items.map (Outline.write form)) with
  | none => exact .inl rfl
  | some listed =>
    refine renders_pure ?_
    rw [Outline.write_seq, Arrangement.sort, hsort, Option.getD_some]

section Held

variable {form : ScalarForm} {t : Typedef}
  (h : ∀ arg ∈ t.args, ∀ value,
    Renders (fun e => form = .optimized ∧ t.IsOutOfRange e) (arg.outline value)
      (arg.marshal form value) (Outline.write form))

include h

/-- Values of a type with a constructor of its own. -/
theorem renders_held_type {c : TypeConstructor} (hkind : t.kind.head? = some (.type c))
    (value : Json) :
    Renders (fun e => form = .optimized ∧ t.IsOutOfRange e)
      (outlineHeld t (parts t.args) value) (marshalHeld form t value) (Outline.write form) := by
  have hmoment (e : MarshalError)
      (he : form = .optimized ∧ c = .timestamp ∧ e = .scalar t.name t.kind .outOfRange) :
      form = .optimized ∧ t.IsOutOfRange e := by
    obtain ⟨hform, rfl, he⟩ := he
    exact ⟨hform, t, mem_nodes.mpr (.inl rfl), Kind.isType_iff.mpr hkind, he⟩
  unfold outlineHeld marshalHeld
  rcases Kind.head?_eq_type_iff.mp hkind with hkind | ⟨size, hkind⟩
  all_goals
    rw [hkind]
    cases c with
    | list =>
      exact (renders_items h t value).bind fun items => renders_sortedSequence .asGiven items
    | set =>
      exact (renders_items h t value).bind fun items => renders_sortedSequence .byValue items
    | map =>
      exact (renders_entries h t value).bind fun entries => renders_sortedSequence .byKey entries
    | bigMap =>
      cases value with
      | number n => exact renders_plain _
      | _ =>
        exact (renders_entries h t _).bind fun entries => renders_sortedSequence .byKey entries
    | _ => exact (t.renders_scalar _ value).mono hmoment

theorem renders_held (value : Json) :
    Renders (fun e => form = .optimized ∧ t.IsOutOfRange e)
      (outlineHeld t (parts t.args) value) (marshalHeld form t value) (Outline.write form) := by
  cases hkind : t.kind with
  | struct =>
    unfold outlineHeld marshalHeld
    rw [hkind]
    refine (renders_fields h t value 0).bind fun fields => ?_
    simp only [Outline.assemble?_write]
    cases Outline.assemble? fields with
    | none => exact renders_error _
    | some comb => exact renders_pure rfl
  | union =>
    unfold outlineHeld marshalHeld
    rw [hkind]
    exact renders_bind fun branch => renders_branch h t branch.1.name branch.2
  | type c => exact renders_held_type h (congrArg Kind.head? hkind) value
  | sapling p size =>
    cases p with
    | type c => exact renders_held_type h (congrArg Kind.head? hkind) value
    | _ =>
      unfold outlineHeld marshalHeld
      rw [hkind]
      exact renders_error _

end Held

/-- **What is built in a form is written for the outline.** Without an outline it fails in the same
way, except that moments without a text can be written in the compact form. In either case it may
fail at a collection before. -/
theorem renders_marshal (form : ScalarForm) (t : Typedef) (value : Json) :
    Renders (fun e => form = .optimized ∧ t.IsOutOfRange e) (t.outline value)
      (t.marshal form value) (Outline.write form) := by
  induction t using args_induction generalizing value with
  | node t ih =>
    have hargs (arg : Typedef) (harg : arg ∈ t.args) (value : Json) :
        Renders (fun e => form = .optimized ∧ t.IsOutOfRange e) (arg.outline value)
          (arg.marshal form value) (Outline.write form) :=
      (ih arg harg value).mono fun _ he => ⟨he.1, he.2.of_mem_args harg⟩
    rw [marshal_eq, outline_eq, outlineWith]
    split
    · exact renders_pure (Outline.write_app form _ []).symm
    · refine (renders_held hargs _).bind fun o => renders_pure ?_
      split
      · exact (Outline.write_app form _ [o]).symm
      · rfl

/-- **What is built in readable form is written for the outline**, and then the same outline is
written in the other form, if its collections can be sorted there. -/
theorem outlines_marshal (t : Typedef) (value : Json) :
    Outlines (t.outline value) (fun form => t.marshal form value) Outline.write := by
  intro e he
  have hforms := fun form => renders_marshal form t value
  cases ho : t.outline value with
  | ok o =>
    rw [ho] at hforms
    exact ⟨o, rfl, hforms⟩
  | error err =>
    rw [ho] at hforms
    rcases hforms .readable with hfails | hfails | ⟨hform, -⟩
    · cases he.symm.trans hfails
    · cases he.symm.trans hfails
    · cases hform

end Typedef

end Michelson

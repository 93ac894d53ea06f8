import Michelson.Proofs.BigMap.Framing
import Michelson.Proofs.BigMap.Writing
import Michelson.Proofs.Binary.RoundTrip

/-!
# Streams of big-map events

A stream of records is read back event by event, since the expression in each record tells where
it ends. The expressions come back in their canonical form; they have to be a little less high
than others, for they lie one or two pairs deep in a record.

## Main definitions

* `Event.Encodable`: events whose expressions survive the binary form
* `Event.canonical`: the event as its record tells it

## Main results

* `ofPayload_payload`: the action is read back from its contents
* `Event.isRecord_record`: what is written for an event is its record
* `decodeEvents_encodeEvents`: whole streams are
-/

namespace Michelson.BigMap

/-! ## The expressions of a record -/

/-- The expressions of an action, each with the number of pairs that the record has around it. -/
def Action.parts : Action → List (Expr × Nat)
  | update _ key value => [(key, 2), (value, 1)]
  | remove _ key => [(key, 2)]
  | alloc keyType valueType => [(keyType, 1), (valueType, 1)]
  | copy .. => []

/-- Whether the expressions of an event survive the binary form: their annotations are plain,
their lengths fit, and no node lies too deep in the record. -/
def Event.Encodable (event : Event) : Prop :=
  ∀ part ∈ event.action.parts,
    part.1.PlainlyAnnotated ∧ part.1.FitsLengths ∧ part.1.height + part.2 ≤ Binary.maxDepth

instance (event : Event) : Decidable event.Encodable :=
  inferInstanceAs (Decidable (∀ part ∈ event.action.parts, _))

/-- The action with its expressions as their binary form tells them. -/
def Action.canonical : Action → Action
  | update keyHash key value => update keyHash key.canonical value.canonical
  | remove keyHash key => remove keyHash key.canonical
  | alloc keyType valueType => alloc keyType.canonical valueType.canonical
  | copy source destination => copy source destination

/-- **The event as its record tells it.** -/
def Event.canonical (event : Event) : Event := ⟨event.id, event.action.canonical⟩

section Pairs

variable (left right : Expr)

theorem canonical_pairOf :
    (pairOf left right).canonical = pairOf left.canonical right.canonical := by
  have hannots : Expr.canonicalAnnots [] = [] := Expr.canonicalAnnots_of_plain (by simp)
  rw [pairOf, Expr.canonical, hannots]
  rfl

theorem height_pairOf : (pairOf left right).height = max left.height right.height + 1 := by
  simp [pairOf, Expr.height, Expr.heightAll]

/-- A pair has no lengths of its own. -/
theorem fitsLengths_pairOf :
    (pairOf left right).FitsLengths ↔ left.FitsLengths ∧ right.FitsLengths := by
  simp [pairOf, Expr.fitsLengths_app_iff, Expr.bodies]

end Pairs

theorem fitsLengths_bytes {b : List UInt8} (h : b.length < 0x100000000) :
    (Expr.bytes b).FitsLengths := by
  simpa [Expr.FitsLengths, Expr.bodies] using h

theorem fitsLengths_int (n : Int) : (Expr.int n).FitsLengths := by
  simp [Expr.FitsLengths, Expr.bodies]

theorem fitsLengths_none : (Expr.app (.data .none) []).FitsLengths := by
  simp [Expr.fitsLengths_app_iff, Expr.bodies]

/-- The pairs and the key hash of a record add no length that could fail to fit. -/
theorem Action.fitsLengths_payload {action : Action}
    (h : ∀ part ∈ action.parts, part.1.FitsLengths) : action.payload.FitsLengths := by
  have hhash (keyHash : ExprHash) : (Expr.bytes keyHash.bytes.1).FitsLengths := by
    refine fitsLengths_bytes ?_
    rw [keyHash.bytes.2]
    decide
  cases action with
  | update keyHash key value =>
    simp only [parts, List.forall_mem_cons] at h
    simp only [payload, entryOf, fitsLengths_pairOf]
    exact ⟨⟨h.1, hhash keyHash⟩, h.2.1⟩
  | remove keyHash key =>
    simp only [parts, List.forall_mem_cons] at h
    simp only [payload, entryOf, fitsLengths_pairOf]
    exact ⟨⟨h.1, hhash keyHash⟩, fitsLengths_none⟩
  | alloc keyType valueType =>
    simp only [parts, List.forall_mem_cons] at h
    exact (fitsLengths_pairOf ..).mpr ⟨h.1, h.2.1⟩
  | copy source destination =>
    exact (fitsLengths_pairOf ..).mpr ⟨fitsLengths_int source, fitsLengths_int destination⟩

/-- A record is as deep as its expressions are in it; the key hash lies two pairs deep. -/
theorem Action.height_payload_le {action : Action} {levels : Nat} (hlevels : 3 ≤ levels)
    (h : ∀ part ∈ action.parts, part.1.height + part.2 ≤ levels) :
    action.payload.height ≤ levels := by
  cases action <;>
    simp only [parts, List.forall_mem_cons] at h <;>
    simp only [payload, entryOf, height_pairOf, Expr.height, Expr.heightAll] <;>
    omega

theorem Action.canonical_payload (action : Action) :
    action.payload.canonical = action.canonical.payload := by
  have hannots : Expr.canonicalAnnots [] = [] := Expr.canonicalAnnots_of_plain (by simp)
  cases action <;>
    simp [payload, canonical, entryOf, canonical_pairOf, Expr.canonical, hannots]

/-! ## Reading -/

/-- Ids that fit are read back from their bytes. -/
theorem idOfBytes_idBytes {id : Int} (h : fitsId id = true) : idOfBytes (idBytes id) = id := by
  simp only [fitsId, Bool.and_eq_true, decide_eq_true_eq] at h
  rw [idOfBytes, idBytes, Binary.spell_big4 (by omega)]
  split <;> omega

theorem ofBytes_bytes (keyHash : ExprHash) : ExprHash.ofBytes keyHash.bytes.1 = .ok keyHash := by
  rw [ExprHash.ofBytes, Identifier.FixedBytes.ofList, dif_pos keyHash.bytes.2]
  rfl

theorem splitEntry_entryOf (code : ActionCode) (key : Expr) (keyHash : ExprHash) :
    splitEntry code (entryOf key keyHash) = .ok (key, keyHash) := by
  simp only [splitEntry, entryOf, pairOf, splitPair, bind, Except.bind, ofBytes_bytes]
  rfl

/-- **The action is read back from its contents.** An update to `None` is not taken for a removal,
since the byte of the action tells the two apart. -/
theorem ofPayload_payload {event : Event} (h : event.FitsIds) :
    Action.ofPayload event.action.code event.action.payload = .ok event.action := by
  obtain ⟨id, action⟩ := event
  cases action with
  | update keyHash key value | remove keyHash key =>
    simp only [Action.payload, Action.code, Action.ofPayload, pairOf, splitPair, bind, Except.bind,
      splitEntry_entryOf]
    rfl
  | alloc keyType valueType => rfl
  | copy source destination =>
    have hcheck {id : Int} (hid : fitsId id = true) : checkId id = .ok id := by
      rw [checkId, if_pos hid]
    simp only [Event.FitsIds, Event.ids, List.forall_mem_cons] at h
    simp only [Action.payload, Action.code, Action.ofPayload, pairOf, splitPair, copyId, bind,
      Except.bind, hcheck h.2.1, hcheck h.2.2.1]
    rfl

theorem Event.ids_canonical (event : Event) : event.canonical.ids = event.ids := by
  obtain ⟨id, action⟩ := event
  cases action <;> rfl

theorem Action.code_canonical (action : Action) : action.canonical.code = action.code := by
  cases action <;> rfl

theorem length_record (event : Event) :
    event.record.length = 5 + event.action.payload.encode.length := by
  rw [Event.record, idBytes, List.length_append, Binary.length_big4, List.length_cons]
  omega

section Events

variable {event : Event} {events : List Event}

/-- **What is written for an event is its record**, or rather that of its canonical form. -/
theorem Event.isRecord_record (hids : event.FitsIds) (henc : event.Encodable) :
    IsRecord event.record event.canonical := by
  have hpayload : Expr.decode event.action.payload.encode =
      .ok event.canonical.action.payload := by
    have hfits := Action.fitsLengths_payload fun part hpart => (henc part hpart).2.1
    have hheight : event.action.payload.height ≤ Binary.maxDepth :=
      Action.height_payload_le (by decide) fun part hpart => (henc part hpart).2.2
    have hfront := Binary.decodeFront_of_fitsLengths hfits hheight []
    rw [List.append_nil, Action.canonical_payload] at hfront
    exact Binary.decode_eq_ok_iff.mpr hfront
  have haction : Action.ofPayload event.action.code event.canonical.action.payload =
      .ok event.canonical.action := by
    have hcanonical : event.canonical.FitsIds := by
      rw [Event.FitsIds, Event.ids_canonical]
      exact hids
    rw [← ofPayload_payload hcanonical]
    exact congrArg (Action.ofPayload · _) (Action.code_canonical event.action).symm
  have hid : idOfBytes (idBytes event.id) = event.id := by
    refine idOfBytes_idBytes (hids _ ?_)
    obtain ⟨id, action⟩ := event
    cases action <;> simp [Event.ids]
  have hevent : event.canonical = ⟨idOfBytes (idBytes event.id), event.canonical.action⟩ := by
    rw [hid]
    rfl
  rw [hevent, Event.record]
  exact .mk (ActionCode.ofByte?_toByte event.action.code) hpayload haction

/-- The records of events are those of their canonical forms. -/
theorem forall₂_isRecord_record (hids : ∀ event ∈ events, event.FitsIds)
    (henc : ∀ event ∈ events, event.Encodable) :
    List.Forall₂ IsRecord (events.map Event.record) (events.map Event.canonical) := by
  rw [List.forall₂_map_left_iff, List.forall₂_map_right_iff, List.forall₂_same]
  exact fun event hevent => Event.isRecord_record (hids event hevent) (henc event hevent)

/-- The records of a stream are read back one after the other. -/
theorem decodeRecords_flatMap (hids : ∀ event ∈ events, event.FitsIds)
    (henc : ∀ event ∈ events, event.Encodable) (fuel : List UInt8) (offset : Nat)
    (hfuel : (events.flatMap Event.record).length ≤ fuel.length) :
    decodeRecords fuel offset (events.flatMap Event.record) =
      .ok (events.map Event.canonical) := by
  have hrecords := forall₂_isRecord_record hids henc
  rw [List.flatMap_def] at hfuel ⊢
  exact decodeRecords_flatten hrecords fuel
    (Nat.le_trans (length_le_length_flatten hrecords) hfuel) offset

end Events

/-! ## Round trip -/

/-- Whether two actions are the same, packed flags aside. -/
def Action.same : Action → Action → Bool
  | update keyHash key value, update keyHash' key' value' =>
    keyHash == keyHash' && key == key' && value == value'
  | remove keyHash key, remove keyHash' key' => keyHash == keyHash' && key == key'
  | alloc keyType valueType, alloc keyType' valueType' =>
    keyType == keyType' && valueType == valueType'
  | copy source destination, copy source' destination' =>
    source == source' && destination == destination'
  | _, _ => false

instance : BEq Event where
  beq event event' := event.id == event'.id && event.action.same event'.action

theorem Event.canonical_beq {event : Event} (h : event.Encodable) :
    (event.canonical == event) = true := by
  have hsame (e : Expr) (he : e.PlainlyAnnotated) : (e.canonical == e) = true :=
    Expr.canonical_same he
  obtain ⟨id, action⟩ := event
  show (id == id && action.canonical.same action) = true
  simp only [Event.Encodable] at h
  cases action with
  | update keyHash key value =>
    simp only [Action.parts, List.forall_mem_cons] at h
    simp [Action.canonical, Action.same, hsame key h.1.1, hsame value h.2.1.1]
  | remove keyHash key =>
    simp only [Action.parts, List.forall_mem_cons] at h
    simp [Action.canonical, Action.same, hsame key h.1.1]
  | alloc keyType valueType =>
    simp only [Action.parts, List.forall_mem_cons] at h
    simp [Action.canonical, Action.same, hsame keyType h.1.1, hsame valueType h.2.1.1]
  | copy source destination => simp [Action.canonical, Action.same]

theorem map_canonical_beq {events : List Event} (h : ∀ event ∈ events, event.Encodable) :
    (events.map Event.canonical == events) = true := by
  induction events with
  | nil => rfl
  | cons event events ih =>
    rw [List.forall_mem_cons] at h
    rw [List.map_cons, List.cons_beq_cons, Event.canonical_beq h.1, ih h.2]
    rfl

theorem Event.fitsIds_iff {event : Event} :
    event.FitsIds ↔ ∀ id ∈ event.ids, -2147483648 ≤ id ∧ id ≤ 2147483647 := by
  refine forall₂_congr fun id _ => ?_
  simp only [fitsId, Bool.and_eq_true, decide_eq_true_eq]
  omega

/-- **The round trip of a stream.** Events make a stream just if all their ids fit in 32 bits. An
event that cannot be written leaves the buffer as it was, and one that can only appends to it. A
stream of events whose expressions survive the binary form is read back as the same events in the
same order. -/
theorem decodeEvents_encodeEvents (events : List Event) :
    ((∃ bytes, encodeEvents events = .ok bytes) ↔
      ∀ event ∈ events, ∀ id ∈ event.ids, -2147483648 ≤ id ∧ id ≤ 2147483647) ∧
    (∀ (event : Event) (buffer : List UInt8),
      match (writeEvent event).runOn buffer with
      | (.error _, after) => after = buffer
      | (.ok _, after) => buffer <+: after) ∧
    ∀ bytes, encodeEvents events = .ok bytes → (∀ event ∈ events, event.Encodable) →
      decodeEvents bytes = .ok (events.map Event.canonical) ∧
        (events.map Event.canonical == events) = true := by
  refine ⟨?_, fun event buffer => ?_, fun bytes hbytes henc => ?_⟩
  · simp only [encodeEvents_eq_ok_iff, exists_and_left, exists_eq, and_true, Event.fitsIds_iff]
  · rw [runOn_writeEvent]
    cases checkIds event with
    | error e => rfl
    | ok => exact List.prefix_append buffer event.record
  · obtain ⟨hids, rfl⟩ := encodeEvents_eq_ok_iff.mp hbytes
    exact ⟨decodeRecords_flatMap hids henc _ 0 (Nat.le_refl _), map_canonical_beq henc⟩

/-- An entry that is set to `None`, one that is removed, a new map with the least id, and a copy to
the greatest. -/
def ledgerEvents : List Event := [
  ⟨7, .update .zero (.app (.data .pair) [.int (-65), .string "a"] ["%k", "@v"])
    (.app (.data .none) [])⟩,
  ⟨-1, .remove .zero (.seq [.int 0])⟩,
  ⟨-2147483648, .alloc (.plainType .nat) (.app (.type .list) [.plainType .int] ["%rates"])⟩,
  ⟨3, .copy 7 2147483647⟩]

theorem decodeEvents_encodeEvents_ledger :
    (∀ event ∈ ledgerEvents, event.Encodable) ∧
      ∃ bytes, encodeEvents ledgerEvents = .ok bytes ∧ decodeEvents bytes = .ok ledgerEvents := by
  have henc : ∀ event ∈ ledgerEvents, event.Encodable := by decide +kernel
  have hcanonical : ledgerEvents.map Event.canonical = ledgerEvents := by rfl
  obtain ⟨hids, -, hread⟩ := decodeEvents_encodeEvents ledgerEvents
  obtain ⟨bytes, hbytes⟩ := hids.mpr (by decide)
  refine ⟨henc, bytes, hbytes, ?_⟩
  rw [(hread bytes hbytes henc).1, hcanonical]

end Michelson.BigMap

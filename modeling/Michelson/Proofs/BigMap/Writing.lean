import Michelson.BigMap.Record
import Michelson.Proofs.Success

/-!
# Writing big-map events

An event is written as a whole or not at all: all its ids are checked before the first byte of its
record, so a buffer is left alone by an event that cannot be written.

## Main definitions

* `Event.record`: the bytes that are written for an event
* `Event.FitsIds`: events that can be written

## Main results

* `runOn_writeEvent`: what one event does to a buffer
* `encodeEvents_eq_ok_iff`: which events make a stream, and which stream they make
-/

namespace Michelson.BigMap

namespace Writer

variable {α β : Type}

/-- One writer after another: the second starts with the buffer that the first leaves, unless the
first fails. -/
theorem runOn_bind (w : Writer α) (f : α → Writer β) (buffer : List UInt8) :
    (w >>= f).runOn buffer =
      match w.runOn buffer with
      | (.ok x, after) => (f x).runOn after
      | (.error e, after) => (.error e, after) := by
  show StateT.run (ExceptT.run (w >>= f)) buffer =
    match StateT.run (ExceptT.run w) buffer with
    | (.ok x, after) => (f x).runOn after
    | (.error e, after) => (.error e, after)
  rw [ExceptT.run_bind, StateT.run_bind]
  rcases StateT.run (ExceptT.run w) buffer with ⟨_ | _, _⟩ <;> rfl

/-- A computation without a buffer writes nothing. -/
theorem runOn_lift (result : Except Error α) (buffer : List UInt8) :
    (liftM result : Writer α).runOn buffer = (result, buffer) := rfl

theorem runOn_put (bytes buffer : List UInt8) :
    (put bytes).runOn buffer = (.ok (), buffer ++ bytes) := rfl

end Writer

/-- The bytes that are written for an event if its ids fit. -/
def Event.record (event : Event) : List UInt8 :=
  idBytes event.id ++ event.action.code.toByte :: event.action.payload.encode

/-- Whether all ids of an event fit in 32 bits. -/
def Event.FitsIds (event : Event) : Prop := ∀ id ∈ event.ids, fitsId id = true

theorem checkIds_eq_ok_iff {event : Event} : checkIds event = .ok () ↔ event.FitsIds := by
  have hcheck (id : Int) : discard (checkId id) = .ok () ↔ fitsId id = true := by
    unfold checkId
    split
    next h => exact ⟨fun _ => h, fun _ => rfl⟩
    next h => exact ⟨fun hid => (nomatch hid), fun hid => absurd hid h⟩
  rw [checkIds, forM_eq_ok_iff]
  simp only [hcheck]
  rfl

/-- **An event is written as a whole or not at all**: the buffer is followed by the record if the
ids fit, and left alone otherwise. -/
theorem runOn_writeEvent (event : Event) (buffer : List UInt8) :
    (writeEvent event).runOn buffer =
      match checkIds event with
      | .ok _ => (.ok (), buffer ++ event.record)
      | .error e => (.error e, buffer) := by
  rw [writeEvent, Writer.runOn_bind, Writer.runOn_lift]
  cases checkIds event with
  | error e => rfl
  | ok =>
    simp only [Writer.runOn_bind, Writer.runOn_put]
    rw [Event.record]
    simp

/-- Events whose ids fit are written one after the other. -/
theorem runOn_forM_writeEvent {events : List Event} (h : ∀ event ∈ events, event.FitsIds)
    (buffer : List UInt8) :
    (events.forM writeEvent).runOn buffer = (.ok (), buffer ++ events.flatMap Event.record) := by
  induction events generalizing buffer with
  | nil =>
    rw [List.flatMap_nil, List.append_nil]
    rfl
  | cons event events ih =>
    rw [List.forall_mem_cons] at h
    rw [List.forM_eq_forM] at ih ⊢
    rw [List.forM_cons, Writer.runOn_bind, runOn_writeEvent, checkIds_eq_ok_iff.mpr h.1]
    simp only [ih h.2, List.flatMap_cons, List.append_assoc]

/-- An event that does not fit ends the run. -/
theorem runOn_forM_writeEvent_error {events : List Event}
    (h : ¬ ∀ event ∈ events, event.FitsIds) (buffer : List UInt8) :
    ∃ e after, (events.forM writeEvent).runOn buffer = (.error e, after) := by
  induction events generalizing buffer with
  | nil => exact absurd (by simp) h
  | cons event events ih =>
    rw [List.forM_eq_forM] at ih ⊢
    rw [List.forM_cons, Writer.runOn_bind, runOn_writeEvent]
    cases hids : checkIds event with
    | error e => exact ⟨e, buffer, rfl⟩
    | ok =>
      refine ih (fun hrest => h ?_) _
      exact List.forall_mem_cons.mpr ⟨checkIds_eq_ok_iff.mp hids, hrest⟩

/-- **Which events make a stream**, and which stream they make. -/
theorem encodeEvents_eq_ok_iff {events : List Event} {bytes : List UInt8} :
    encodeEvents events = .ok bytes ↔
      (∀ event ∈ events, event.FitsIds) ∧ bytes = events.flatMap Event.record := by
  by_cases h : ∀ event ∈ events, event.FitsIds
  · rw [encodeEvents, runOn_forM_writeEvent h []]
    exact ⟨fun heq => ⟨h, (Except.ok.inj heq).symm⟩, fun ⟨_, heq⟩ => by rw [heq]; rfl⟩
  · obtain ⟨e, after, hrun⟩ := runOn_forM_writeEvent_error h []
    rw [encodeEvents, hrun]
    simp [h, Except.map]

end Michelson.BigMap

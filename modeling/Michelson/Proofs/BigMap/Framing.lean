import Michelson.BigMap.Record
import Michelson.Proofs.Binary.Delimiting

/-!
# The records of a stream

A stream that is read consists of records, one for each event. A record tells where it ends, since
its header has a fixed length and the expression after it tells where it ends. So streams are put
together and cut between records at will, while a cut through a record is noticed, and the failure
names the place where the record starts.

The reader is described by its step: what it does where the input begins with a record, and where
the input is a part of one. A run over many records follows by induction.

## Main definitions

* `IsRecord`: bytes that are the record of an event
* `startOf`: where a record of a stream starts

## Main results

* `IsRecord.decodeRecords_append`, `IsRecord.decodeRecords_take`: the step of the reader
* `decodeRecords_flatten_append`: its run over records
* `decodeEvents_eq_ok_iff`: what is read are the events of records
* `records_unique`: a stream consists of records in one way only
* `decodeEvents_append_take`: streams put together and cut
-/

namespace Michelson.BigMap

/-- **The record of an event**: the id in four bytes, the byte of the action, and bytes that hold an
expression with the contents. -/
inductive IsRecord : List UInt8 → Event → Prop
  | mk {a b c d byte code body payload action} :
    ActionCode.ofByte? byte = some code → Expr.decode body = .ok payload →
    Action.ofPayload code payload = .ok action →
    IsRecord (a :: b :: c :: d :: byte :: body) ⟨idOfBytes [a, b, c, d], action⟩

/-- Where a record of a stream starts, which is where the one before it ends. -/
def startOf (records : List (List UInt8)) (j : Nat) : Nat := (records.take j).flatten.length

/-- The expression at the front of the contents of a record and the bytes that it takes. If the
contents end too early, so does the record. -/
def contentsAt (offset : Nat) (input : List UInt8) : Except Error (Expr × Nat) :=
  match Expr.decodeFront input with
  | .ok result => .ok result
  | .error (.truncated _) => .error (.truncated offset)
  | .error e => .error (.decode e)

theorem contentsAt_eq_ok_iff {offset : Nat} {input : List UInt8} {result : Expr × Nat} :
    contentsAt offset input = .ok result ↔ Expr.decodeFront input = .ok result := by
  unfold contentsAt
  cases Expr.decodeFront input with
  | ok => simp
  | error cause => cases cause <;> simp

/-- Where a record ends that starts at the offset: its header takes five bytes. -/
theorem add_length_record (offset : Nat) (a b c d byte : UInt8) (body : List UInt8) :
    offset + (a :: b :: c :: d :: byte :: body).length = offset + 5 + body.length := by
  simp only [List.length_cons]
  omega

/-- What is read where the input has a header with a known action. -/
theorem decodeRecords_header {byte : UInt8} {code : ActionCode}
    (hcode : ActionCode.ofByte? byte = some code) (x a b c d : UInt8) (fuel : List UInt8)
    (offset : Nat) (input : List UInt8) :
    decodeRecords (x :: fuel) offset (a :: b :: c :: d :: byte :: input) =
      (do let (payload, used) ← contentsAt offset input
          let action ← Action.ofPayload code payload
          let events ← decodeRecords fuel (offset + 5 + used) (input.drop used)
          return ⟨idOfBytes [a, b, c, d], action⟩ :: events) := by
  rw [decodeRecords, hcode, contentsAt]
  cases Expr.decodeFront input with
  | ok => rfl
  | error e => cases e <;> rfl

section Step

variable {record : List UInt8} {event : Event} (h : IsRecord record event)

include h

theorem IsRecord.length_pos : 0 < record.length := by
  cases h
  exact Nat.succ_pos _

/-- **The step of the reader**: a record at the front of the input is read, and the others are read
from its end. -/
theorem IsRecord.decodeRecords_append (x : UInt8) (fuel : List UInt8) (offset : Nat)
    (rest : List UInt8) :
    decodeRecords (x :: fuel) offset (record ++ rest) =
      (do return event :: (← decodeRecords fuel (offset + record.length) rest)) := by
  cases h with
  | @mk a b c d byte code body payload action hcode hbody haction =>
    have hcontents : contentsAt offset (body ++ rest) = .ok (payload, body.length) :=
      contentsAt_eq_ok_iff.mpr (Binary.decodeFront_append_of_decode hbody rest)
    rw [add_length_record]
    simp only [List.cons_append, decodeRecords_header hcode, hcontents]
    simp only [bind, Except.bind, haction, List.drop_left]

/-- A record that is cut is noticed, wherever the cut goes through it. -/
theorem IsRecord.decodeRecords_take {k : Nat} (hpos : 0 < k) (hk : k < record.length)
    (fuel : List UInt8) (offset : Nat) :
    decodeRecords fuel offset (record.take k) = .error (.truncated offset) := by
  cases h with
  | @mk a b c d byte code body payload action hcode hbody haction =>
    match k, fuel, hpos with
    | 1, _, _ | 2, _, _ | 3, _, _ | 4, _, _ => simp [decodeRecords]
    | k + 5, [], _ => simp [decodeRecords]
    | k + 5, x :: fuel, _ =>
      have hcut : k < body.length := by simpa using hk
      obtain ⟨place, hfront⟩ := Binary.decodeFront_take_of_decode hbody hcut
      have hcontents : contentsAt offset (body.take k) = .error (.truncated offset) := by
        rw [contentsAt, hfront]
      simp only [List.take_succ_cons, decodeRecords_header hcode, hcontents]
      rfl

end Step

/-- What is read from an input that is not empty begins with a record. -/
theorem exists_isRecord_of_decodeRecords {fuel bytes : List UInt8} {offset : Nat}
    {events : List Event} (h : decodeRecords fuel offset bytes = .ok events)
    (hne : bytes ≠ []) :
    ∃ x fuel' record rest event more, fuel = x :: fuel' ∧ bytes = record ++ rest ∧
      IsRecord record event ∧ events = event :: more ∧
      decodeRecords fuel' (offset + record.length) rest = .ok more := by
  match fuel, bytes, h, hne with
  | _, [], _, hne => exact absurd rfl hne
  | x :: fuel, a :: b :: c :: d :: byte :: input, h, _ =>
    cases hcode : ActionCode.ofByte? byte with
    | none => simp [decodeRecords, hcode] at h
    | some code =>
      rw [decodeRecords_header hcode] at h
      obtain ⟨⟨payload, used⟩, hcontents, h⟩ := bind_eq_ok_iff.mp h
      obtain ⟨action, haction, h⟩ := bind_eq_ok_iff.mp h
      obtain ⟨more, hmore, heq⟩ := bind_eq_ok_iff.mp h
      cases heq
      rw [contentsAt_eq_ok_iff] at hcontents
      obtain ⟨body, rest, rfl, rfl, hbody⟩ := Binary.exists_decode_of_decodeFront hcontents
      refine ⟨x, fuel, a :: b :: c :: d :: byte :: body, rest, _, more, rfl, rfl,
        .mk hcode hbody haction, rfl, ?_⟩
      rw [add_length_record]
      simpa only [List.drop_left] using hmore
  | [], _ :: _, h, _ => simp [decodeRecords] at h
  | _ :: _, [_], h, _ | _ :: _, [_, _], h, _ | _ :: _, [_, _, _], h, _
  | _ :: _, [_, _, _, _], h, _ =>
    simp [decodeRecords] at h

section Run

variable {records : List (List UInt8)} {events : List Event}

/-- **The run of the reader over records**: their events are read, and the rest from where the last
of them ends. -/
theorem decodeRecords_flatten_append (h : List.Forall₂ IsRecord records events)
    (fuel : List UInt8) (hfuel : records.length ≤ fuel.length) (offset : Nat) (rest : List UInt8) :
    decodeRecords fuel offset (records.flatten ++ rest) =
      (do return events ++ (← decodeRecords (fuel.drop records.length)
        (offset + records.flatten.length) rest)) := by
  induction h generalizing fuel offset with
  | nil =>
    simp only [List.flatten_nil, List.nil_append, List.length_nil, List.drop_zero, Nat.add_zero]
    exact (bind_pure _).symm
  | @cons record event records events hrecord _ ih =>
    cases fuel with
    | nil => simp at hfuel
    | cons x fuel =>
      have hmore : records.length ≤ fuel.length := by simpa using hfuel
      rw [List.flatten_cons, List.append_assoc, hrecord.decodeRecords_append, ih fuel hmore,
        List.length_cons, List.drop_succ_cons, List.length_append, ← Nat.add_assoc]
      simp only [bind_assoc, pure_bind, List.cons_append]

/-- Every record takes a byte, so there are no more records than bytes. -/
theorem length_le_length_flatten (h : List.Forall₂ IsRecord records events) :
    records.length ≤ records.flatten.length := by
  induction h with
  | nil => exact Nat.le_refl 0
  | cons hrecord _ ih =>
    have hpos := hrecord.length_pos
    rw [List.length_cons, List.flatten_cons, List.length_append]
    omega

/-- No bytes make up no records. -/
theorem eq_nil_of_flatten_eq_nil (h : List.Forall₂ IsRecord records events)
    (hnil : records.flatten = []) : records = [] := by
  have hle := length_le_length_flatten h
  rw [hnil, List.length_nil] at hle
  exact List.length_eq_zero_iff.mp (Nat.le_zero.mp hle)

theorem decodeRecords_flatten (h : List.Forall₂ IsRecord records events) (fuel : List UInt8)
    (hfuel : records.length ≤ fuel.length) (offset : Nat) :
    decodeRecords fuel offset records.flatten = .ok events := by
  have hend (fuel : List UInt8) (offset : Nat) : decodeRecords fuel offset [] = .ok [] := by
    cases fuel <;> rfl
  rw [← List.append_nil records.flatten, decodeRecords_flatten_append h fuel hfuel, hend]
  simp only [List.append_nil, bind, Except.bind]
  rfl

/-- What is read are the events of records. -/
theorem exists_records_of_decodeRecords {fuel bytes : List UInt8} {offset : Nat}
    (h : decodeRecords fuel offset bytes = .ok events) :
    ∃ records, bytes = records.flatten ∧ List.Forall₂ IsRecord records events := by
  -- Induction on the fuel, of which each record takes one byte.
  induction fuel generalizing offset bytes events with
  | nil =>
    cases bytes with
    | nil =>
      cases h
      exact ⟨[], rfl, .nil⟩
    | cons b bytes =>
      obtain ⟨x, fuel', -, -, -, -, hfuel, -⟩ := exists_isRecord_of_decodeRecords h (by simp)
      cases hfuel
  | cons x fuel ih =>
    by_cases hne : bytes = []
    · subst hne
      cases h
      exact ⟨[], rfl, .nil⟩
    · obtain ⟨_, _, record, rest, event, more, hfuel, rfl, hrecord, rfl, hmore⟩ :=
        exists_isRecord_of_decodeRecords h hne
      obtain ⟨-, rfl⟩ := List.cons.inj hfuel
      obtain ⟨records, rfl, hrecords⟩ := ih hmore
      exact ⟨record :: records, rfl, .cons hrecord hrecords⟩

/-- **A stream consists of records**, and its events are theirs. -/
theorem decodeEvents_eq_ok_iff {bytes : List UInt8} :
    decodeEvents bytes = .ok events ↔
      ∃ records, bytes = records.flatten ∧ List.Forall₂ IsRecord records events := by
  constructor
  · exact exists_records_of_decodeRecords
  · rintro ⟨records, rfl, hrecords⟩
    exact decodeRecords_flatten hrecords _ (length_le_length_flatten hrecords) 0

end Run

/-- A record is a stream of one event. -/
theorem isRecord_iff_decodeEvents {record : List UInt8} {event : Event} :
    IsRecord record event ↔ decodeEvents record = .ok [event] := by
  rw [decodeEvents_eq_ok_iff]
  constructor
  · intro h
    exact ⟨[record], List.flatten_singleton.symm, .cons h .nil⟩
  · rintro ⟨records, rfl, hrecords⟩
    obtain ⟨first, rest, hfirst, hrest, rfl⟩ := List.forall₂_cons_right_iff.mp hrecords
    rw [List.forall₂_nil_right_iff.mp hrest, List.flatten_singleton]
    exact hfirst

/-- No record is the beginning of another one. -/
theorem IsRecord.length_le_of_append {record other rest rest' : List UInt8} {event event' : Event}
    (h : IsRecord record event) (h' : IsRecord other event')
    (heq : record ++ rest = other ++ rest') : record.length ≤ other.length := by
  by_contra hlt
  have hlonger : other.length < record.length := Nat.lt_of_not_le hlt
  have hfront : other = record.take other.length := by
    have htake := congrArg (List.take other.length) heq
    rw [List.take_append_of_le_length (Nat.le_of_lt hlonger), List.take_left] at htake
    exact htake.symm
  have hcut := h.decodeRecords_take h'.length_pos hlonger [0] 0
  have hwhole := h'.decodeRecords_append 0 [] 0 []
  rw [← hfront] at hcut
  rw [List.append_nil, hcut] at hwhole
  cases hwhole

/-- **A stream consists of records in one way only.** -/
theorem records_unique {records others : List (List UInt8)} {events events' : List Event}
    (h : List.Forall₂ IsRecord records events) (h' : List.Forall₂ IsRecord others events')
    (heq : records.flatten = others.flatten) : records = others := by
  induction h generalizing others events' with
  | nil => exact (eq_nil_of_flatten_eq_nil h' heq.symm).symm
  | cons hrecord hrecords ih =>
    cases h' with
    | nil => exact eq_nil_of_flatten_eq_nil (.cons hrecord hrecords) heq
    | cons hother hothers =>
      rw [List.flatten_cons, List.flatten_cons] at heq
      have hlength := Nat.le_antisymm (hrecord.length_le_of_append hother heq)
        (hother.length_le_of_append hrecord heq.symm)
      obtain ⟨rfl, hrest⟩ := List.append_inj heq hlength
      rw [ih hothers hrest]

/-! ## Cuts -/

section Cuts

variable {records : List (List UInt8)} {events : List Event}

theorem flatten_eq_append_flatten_drop (records : List (List UInt8)) (j : Nat) :
    records.flatten = (records.take j).flatten ++ (records.drop j).flatten := by
  rw [← List.flatten_append, List.take_append_drop]

theorem startOf_succ {j : Nat} (hj : j < records.length) :
    startOf records (j + 1) = startOf records j + records[j].length := by
  rw [startOf, List.take_succ_eq_append_getElem hj, List.flatten_append, List.flatten_singleton,
    List.length_append, startOf]

/-- Between the records lie no other places than those within them. -/
theorem exists_startOf_lt {k : Nat} (hk : k ≤ records.flatten.length)
    (h : ∀ j ≤ records.length, k ≠ startOf records j) :
    ∃ j < records.length, startOf records j < k ∧ k < startOf records (j + 1) := by
  have hstep (n : Nat) (hn : n ≤ records.length) : startOf records n ≤ k ∨
      ∃ j < n, startOf records j < k ∧ k < startOf records (j + 1) := by
    induction n with
    | zero => exact .inl (Nat.zero_le k)
    | succ n ih =>
      rcases ih (by omega) with hle | ⟨j, hj, hinside⟩
      · by_cases hnext : startOf records (n + 1) ≤ k
        · exact .inl hnext
        · have hne := h n (by omega)
          exact .inr ⟨n, by omega, by omega, by omega⟩
      · exact .inr ⟨j, by omega, hinside⟩
  rcases hstep records.length (Nat.le_refl _) with hle | hinside
  · have hend : startOf records records.length = records.flatten.length := by
      rw [startOf, List.take_length]
    exact absurd (by omega) (h records.length (Nat.le_refl _))
  · exact hinside

/-- A stream that is cut between records has the events of those before the cut. -/
theorem decodeEvents_take_startOf (h : List.Forall₂ IsRecord records events) (j : Nat) :
    decodeEvents (records.flatten.take (startOf records j)) = .ok (events.take j) := by
  have hfront : records.flatten.take (startOf records j) = (records.take j).flatten := by
    rw [flatten_eq_append_flatten_drop records j]
    exact List.take_left
  exact decodeEvents_eq_ok_iff.mpr ⟨records.take j, hfront, List.forall₂_take j h⟩

/-- A stream that is cut through a record is truncated, and the record is told. -/
theorem decodeEvents_take_of_lt (h : List.Forall₂ IsRecord records events) {j k : Nat}
    (hj : j < records.length) (hlt : startOf records j < k) (hgt : k < startOf records (j + 1)) :
    decodeEvents (records.flatten.take k) = .error (.truncated (startOf records j)) := by
  rw [startOf_succ hj] at hgt
  obtain ⟨i, rfl⟩ := Nat.exists_eq_add_of_le (Nat.le_of_lt hlt)
  have hfront : records.flatten.take (startOf records j + i) =
      (records.take j).flatten ++ records[j].take i := by
    rw [flatten_eq_append_flatten_drop records j, startOf, List.take_length_add_append,
      List.drop_eq_getElem_cons hj, List.flatten_cons, List.take_append_of_le_length (by omega)]
  have htake := List.forall₂_take j h
  have hj' : j < events.length := h.length_eq ▸ hj
  have hrecord : IsRecord records[j] events[j] := h.get hj hj'
  have hcut := hrecord.decodeRecords_take (k := i) (by omega) (by omega)
  have hfuel : (records.take j).length ≤
      ((records.take j).flatten ++ records[j].take i).length := by
    have hle := length_le_length_flatten htake
    rw [List.length_append]
    omega
  rw [hfront, decodeEvents, decodeRecords_flatten_append htake _ hfuel, hcut, Nat.zero_add, startOf]
  rfl

end Cuts

/-- **Streams are put together and cut between records.** The events of two streams one after the
other are those of the first and then those of the second. A stream consists of records, one for
each event; cut where the `j`-th record starts, or at the end, it has the first `j` events, and cut
anywhere else it is truncated at the start of the record that the cut goes through. -/
theorem decodeEvents_append_take :
    (∀ front back events more, decodeEvents front = .ok events → decodeEvents back = .ok more →
      decodeEvents (front ++ back) = .ok (events ++ more)) ∧
    ∀ bytes events, decodeEvents bytes = .ok events →
      ∃ records, bytes = records.flatten ∧ List.Forall₂ IsRecord records events ∧
        ∀ k ≤ bytes.length,
          (∀ j ≤ events.length, k = startOf records j →
            decodeEvents (bytes.take k) = .ok (events.take j)) ∧
          ((∀ j ≤ events.length, k ≠ startOf records j) →
            ∃ j < events.length, startOf records j < k ∧ k < startOf records (j + 1) ∧
              decodeEvents (bytes.take k) = .error (.truncated (startOf records j))) := by
  refine ⟨fun front back events more hfront hback => ?_, fun bytes events h => ?_⟩
  · obtain ⟨records, rfl, hrecords⟩ := decodeEvents_eq_ok_iff.mp hfront
    obtain ⟨others, rfl, hothers⟩ := decodeEvents_eq_ok_iff.mp hback
    refine decodeEvents_eq_ok_iff.mpr ⟨records ++ others, List.flatten_append.symm, ?_⟩
    exact List.rel_append hrecords hothers
  · obtain ⟨records, rfl, hrecords⟩ := decodeEvents_eq_ok_iff.mp h
    have hlength := hrecords.length_eq
    refine ⟨records, rfl, hrecords, fun k hk => ⟨?_, fun hinside => ?_⟩⟩
    · rintro j - rfl
      exact decodeEvents_take_startOf hrecords j
    · obtain ⟨j, hj, hlt, hgt⟩ := exists_startOf_lt hk (hlength ▸ hinside)
      exact ⟨j, hlength ▸ hj, hlt, hgt, decodeEvents_take_of_lt hrecords hj hlt hgt⟩

/-- The record that tells of a copy between maps with small ids. -/
def copyRecord (id source destination : UInt8) : List UInt8 :=
  [0, 0, 0, id, 2, 0x07, 0x07, 0, source, 0, destination]

/-- Two copies put together. Between the records the first one is left; two bytes further on, the
second record is cut. -/
theorem decodeEvents_append_take_copies :
    decodeEvents (copyRecord 3 7 5 ++ copyRecord 4 3 9) = .ok [⟨3, .copy 7 5⟩, ⟨4, .copy 3 9⟩] ∧
      decodeEvents ((copyRecord 3 7 5 ++ copyRecord 4 3 9).take 11) = .ok [⟨3, .copy 7 5⟩] ∧
      decodeEvents ((copyRecord 3 7 5 ++ copyRecord 4 3 9).take 13) = .error (.truncated 11) := by
  have hfirst : decodeEvents (copyRecord 3 7 5) = .ok [⟨3, .copy 7 5⟩] := by rfl
  have hsecond : decodeEvents (copyRecord 4 3 9) = .ok [⟨4, .copy 3 9⟩] := by rfl
  have hboth := decodeEvents_append_take.1 _ _ _ _ hfirst hsecond
  obtain ⟨records, hrecords, hevents, hcuts⟩ := decodeEvents_append_take.2 _ _ hboth
  have hcopies : List.Forall₂ IsRecord [copyRecord 3 7 5, copyRecord 4 3 9]
      [⟨3, .copy 7 5⟩, ⟨4, .copy 3 9⟩] :=
    .cons (isRecord_iff_decodeEvents.mpr hfirst)
      (.cons (isRecord_iff_decodeEvents.mpr hsecond) .nil)
  obtain rfl := records_unique hevents hcopies hrecords.symm
  refine ⟨hboth, (hcuts 11 (by decide)).1 1 (by decide) rfl, ?_⟩
  obtain ⟨j, hj, -, hgt, hcut⟩ := (hcuts 13 (by decide)).2 (by decide)
  have hlast : ∀ j < 2, 13 < startOf [copyRecord 3 7 5, copyRecord 4 3 9] (j + 1) → j = 1 := by
    decide
  rw [hcut, hlast j hj hgt]
  rfl

end Michelson.BigMap

import Michelson.Proofs.BigMap.Framing
import Michelson.Proofs.Binary.FailurePlaces

/-!
# How a stream fails

A stream that cannot be read consists of records up to one that fails, and what is told of the
failure concerns that one. Its own failures count their offset from the start of the stream: a
record that is incomplete is told by where it starts, and an action that is unknown by where its
byte stands. The contents are read by themselves, though. If they are no expression, the offset of
the failure counts from their start, which lies five bytes behind that of the record: counted from
there, it is true.

## Main definitions

* `FailsAt`: how a record fails
* `Error.IsTrueOf`: whether a failure is true of a stream

## Main results

* `FailsAt.not_isRecord`: what fails does not begin with a record
* `failsAt_or_of_decodeRecords`: the step of the reader
* `exists_failsAt_of_decodeRecords`: its run
* `isTrueOf_of_decodeEvents`: the places that failures tell
-/

namespace Michelson.BigMap

/-- **How a record fails** that starts at an offset: its header is incomplete, its action unknown,
its contents end too early or are no expression, or they do not have the form that the action asks
for. -/
inductive FailsAt (start : Nat) : List UInt8 → Error → Prop
  | header {input} : input ≠ [] → input.length < 5 → FailsAt start input (.truncated start)
  | action {a b c d byte input} : ActionCode.ofByte? byte = none →
    FailsAt start (a :: b :: c :: d :: byte :: input) (.unknownAction byte (start + 4))
  | cut {a b c d byte code input place} : ActionCode.ofByte? byte = some code →
    Expr.decodeFront input = .error (.truncated place) →
    FailsAt start (a :: b :: c :: d :: byte :: input) (.truncated start)
  | contents {a b c d byte code input cause} : ActionCode.ofByte? byte = some code →
    Expr.decodeFront input = .error cause → (∀ place, cause ≠ .truncated place) →
    FailsAt start (a :: b :: c :: d :: byte :: input) (.decode cause)
  | payload {a b c d byte code input payload used e} : ActionCode.ofByte? byte = some code →
    Expr.decodeFront input = .ok (payload, used) → Action.ofPayload code payload = .error e →
    FailsAt start (a :: b :: c :: d :: byte :: input) e

/-- What fails does not begin with a record. -/
theorem FailsAt.not_isRecord {start : Nat} {record more : List UInt8} {e : Error} {event : Event}
    (h : FailsAt start (record ++ more) e) : ¬ IsRecord record event := by
  rintro ⟨hcode, hbody, haction⟩
  have hfront := Binary.decodeFront_append_of_decode hbody more
  simp only [List.cons_append] at h
  cases h with
  | header _ hshort =>
    simp only [List.length_cons] at hshort
    omega
  | action hunknown =>
    rw [hcode] at hunknown
    cases hunknown
  | cut _ hcut =>
    rw [hfront] at hcut
    cases hcut
  | contents _ hfails _ =>
    rw [hfront] at hfails
    cases hfails
  | payload hcode' hpayload hfails =>
    rw [hcode] at hcode'
    rw [hfront] at hpayload
    cases hcode'
    cases hpayload
    rw [haction] at hfails
    cases hfails

/-- Contents that cannot be read either end too early or are no expression. -/
theorem failsAt_of_contentsAt {start : Nat} {a b c d byte : UInt8} {code : ActionCode}
    {input : List UInt8} {e : Error} (hcode : ActionCode.ofByte? byte = some code)
    (h : contentsAt start input = .error e) :
    FailsAt start (a :: b :: c :: d :: byte :: input) e := by
  unfold contentsAt at h
  cases hfront : Expr.decodeFront input with
  | ok result =>
    simp only [hfront] at h
    cases h
  | error cause =>
    cases cause with
    | truncated place =>
      simp only [hfront] at h
      cases h
      exact .cut hcode hfront
    | _ =>
      simp only [hfront] at h
      cases h
      exact .contents hcode hfront (by simp)

/-- **The step of a reader that fails**: it fails at the record where it stands, or after it has
read that record. -/
theorem failsAt_or_of_decodeRecords {x : UInt8} {fuel input : List UInt8} {start : Nat} {e : Error}
    (hne : input ≠ []) (h : decodeRecords (x :: fuel) start input = .error e) :
    FailsAt start input e ∨
      ∃ record rest event, input = record ++ rest ∧ IsRecord record event ∧
        decodeRecords fuel (start + record.length) rest = .error e := by
  by_cases hshort : input.length < 5
  · left
    have htruncated : decodeRecords (x :: fuel) start input = .error (.truncated start) := by
      rcases input with _ | ⟨a, _ | ⟨b, _ | ⟨c, _ | ⟨d, _ | ⟨byte, body⟩⟩⟩⟩⟩
      · exact absurd rfl hne
      all_goals first | rfl | (simp only [List.length_cons] at hshort; omega)
    rw [htruncated] at h
    cases h
    exact .header hne hshort
  · obtain ⟨a, b, c, d, byte, body, rfl⟩ :
        ∃ a b c d byte body, input = a :: b :: c :: d :: byte :: body := by
      rcases input with _ | ⟨a, _ | ⟨b, _ | ⟨c, _ | ⟨d, _ | ⟨byte, body⟩⟩⟩⟩⟩
      all_goals first | exact ⟨_, _, _, _, _, _, rfl⟩ | simp at hshort
    cases hcode : ActionCode.ofByte? byte with
    | none =>
      left
      rw [decodeRecords] at h
      simp only [hcode] at h
      cases h
      exact .action hcode
    | some code =>
      rw [decodeRecords_header hcode] at h
      rcases bind_eq_error_iff.mp h with hcontents | ⟨⟨payload, used⟩, hcontents, h⟩
      · left
        exact failsAt_of_contentsAt hcode hcontents
      rw [contentsAt_eq_ok_iff] at hcontents
      rcases bind_eq_error_iff.mp h with haction | ⟨action, haction, h⟩
      · left
        exact .payload hcode hcontents haction
      rcases bind_eq_error_iff.mp h with hmore | ⟨events, -, hpure⟩
      · right
        obtain ⟨body, rest, rfl, rfl, hbody⟩ := Binary.exists_decode_of_decodeFront hcontents
        refine ⟨a :: b :: c :: d :: byte :: body, rest, _, rfl, .mk hcode hbody haction, ?_⟩
        rw [add_length_record]
        simpa only [List.drop_left] using hmore
      · cases hpure

/-- **The run of a reader that fails**: it has read some records, and fails at the next one. -/
theorem exists_failsAt_of_decodeRecords {fuel input : List UInt8} {start : Nat} {e : Error}
    (hfuel : input.length ≤ fuel.length) (h : decodeRecords fuel start input = .error e) :
    ∃ records events rest, input = records.flatten ++ rest ∧
      List.Forall₂ IsRecord records events ∧ FailsAt (start + records.flatten.length) rest e := by
  -- Induction on the fuel, which does not run out: each record takes more bytes than one.
  induction fuel generalizing start input with
  | nil =>
    have hnil : input = [] := List.length_eq_zero_iff.mp (Nat.le_zero.mp hfuel)
    subst hnil
    cases h
  | cons x fuel ih =>
    have hne : input ≠ [] := by
      rintro rfl
      cases h
    rcases failsAt_or_of_decodeRecords hne h with
      hfails | ⟨record, rest, event, rfl, hrecord, hmore⟩
    · exact ⟨[], [], input, rfl, .nil, hfails⟩
    · have hpos := hrecord.length_pos
      rw [List.length_append, List.length_cons] at hfuel
      obtain ⟨records, events, last, rfl, hrecords, hfails⟩ := ih (by omega) hmore
      refine ⟨record :: records, event :: events, last, ?_, .cons hrecord hrecords, ?_⟩
      · rw [List.flatten_cons, List.append_assoc]
      · rw [List.flatten_cons, List.length_append, ← Nat.add_assoc]
        exact hfails

/-! ## Contents of the wrong form -/

/-- Whether a failure is about the form of contents that are an expression. -/
def Error.IsAboutForm : Error → Prop
  | payload .. | idOutOfRange _ | keyHashLength _ => True
  | truncated _ | unknownAction .. | decode _ | json _ | type _ => False

section Form

variable {code : ActionCode} {x : Expr} {e : Error}

theorem isAboutForm_of_splitPair (h : splitPair code x = .error e) : e.IsAboutForm := by
  unfold splitPair at h
  split at h
  · cases h
  · cases h
    trivial

theorem isAboutForm_of_splitEntry (h : splitEntry code x = .error e) : e.IsAboutForm := by
  rcases bind_eq_error_iff.mp h with hpair | ⟨⟨key, hash⟩, -, hhash⟩
  · exact isAboutForm_of_splitPair hpair
  · dsimp only at hhash
    split at hhash
    · split at hhash
      · cases hhash
      · cases hhash
        trivial
    · cases hhash
      trivial

theorem isAboutForm_of_copyId (h : copyId x = .error e) : e.IsAboutForm := by
  unfold copyId at h
  split at h
  · unfold checkId at h
    split at h
    · cases h
    · cases h
      trivial
  · cases h
    trivial

/-- **Contents that are an expression** fail for their form. -/
theorem isAboutForm_of_ofPayload (h : Action.ofPayload code x = .error e) : e.IsAboutForm := by
  rcases bind_eq_error_iff.mp h with hpair | ⟨⟨left, right⟩, -, h⟩
  · exact isAboutForm_of_splitPair hpair
  cases code with
  | update =>
    rcases bind_eq_error_iff.mp h with hentry | ⟨⟨key, hash⟩, -, hpure⟩
    · exact isAboutForm_of_splitEntry hentry
    · cases hpure
  | remove =>
    dsimp only at h
    split at h
    · rcases bind_eq_error_iff.mp h with hentry | ⟨⟨key, hash⟩, -, hpure⟩
      · exact isAboutForm_of_splitEntry hentry
      · cases hpure
    · cases h
      trivial
  | copy =>
    rcases bind_eq_error_iff.mp h with hsource | ⟨source, -, h⟩
    · exact isAboutForm_of_copyId hsource
    · rcases bind_eq_error_iff.mp h with htarget | ⟨target, -, hpure⟩
      · exact isAboutForm_of_copyId htarget
      · cases hpure
  | alloc => cases h

end Form

/-! ## The places that failures tell -/

/-- **Whether a failure is true of a stream** of which the record at `start` cannot be read. The
record is told by where it starts, and lies in the stream; the action stands at its offset, and is
beyond the actions that there are. A failure of the contents is true once its offset is counted from
the start of the stream, of which the header of the record is a part, too. What is wrong with the
form of the contents has no offset, and nothing else goes wrong with bytes. -/
def Error.IsTrueOf (stream : List UInt8) (start : Nat) : Error → Prop
  | truncated offset => offset = start ∧ offset < stream.length
  | unknownAction byte offset => offset = start + 4 ∧ stream[offset]? = some byte ∧ 3 < byte
  | decode cause =>
    (∀ place, cause ≠ .truncated place) ∧ start + 5 ≤ stream.length ∧
      (cause.shift (start + 5)).IsTrueOf stream
  | e => e.IsAboutForm

theorem Error.IsAboutForm.isTrueOf {e : Error} (h : e.IsAboutForm) (stream : List UInt8)
    (start : Nat) : e.IsTrueOf stream start := by
  cases e <;> first | exact h | cases h

/-- The actions that there are come first among the bytes. -/
theorem lt_of_ofByte?_eq_none {byte : UInt8} (h : ActionCode.ofByte? byte = none) : 3 < byte := by
  rw [ActionCode.ofByte?, List.getElem?_eq_none_iff] at h
  rw [UInt8.lt_iff_toNat_lt]
  exact h

/-- Where a record fails, the failure is true of the stream that has it after other records. -/
theorem FailsAt.isTrueOf {front rest : List UInt8} {e : Error} (h : FailsAt front.length rest e) :
    e.IsTrueOf (front ++ rest) front.length := by
  cases h with
  | header hne _ =>
    refine ⟨rfl, ?_⟩
    have hpos := List.length_pos_iff.mpr hne
    rw [List.length_append]
    omega
  | action hunknown =>
    refine ⟨rfl, ?_, lt_of_ofByte?_eq_none hunknown⟩
    rw [List.getElem?_append_right (Nat.le_add_right _ _), Nat.add_sub_cancel_left]
    rfl
  | cut => exact ⟨rfl, by simp⟩
  | @contents a b c d byte code input cause _ hfails hcause =>
    refine ⟨hcause, by simp only [List.length_append, List.length_cons]; omega, ?_⟩
    have hshift := (Binary.isTrueOf_of_decodeFront input cause hfails).shift
      (front ++ [a, b, c, d, byte])
    simpa using hshift
  | payload _ _ hfails => exact (isAboutForm_of_ofPayload hfails).isTrueOf _ _

/-- **The places that failures tell.** A stream that cannot be read consists of records up to one
that fails, and the failure is true of the stream. Its offset counts from the start of the stream,
unless the contents of that record are no expression: then it counts from the start of the
contents. -/
theorem isTrueOf_of_decodeEvents (stream : List UInt8) (e : Error)
    (h : decodeEvents stream = .error e) :
    ∃ records events rest, stream = records.flatten ++ rest ∧
      List.Forall₂ IsRecord records events ∧
      (∀ record more event, rest = record ++ more → ¬ IsRecord record event) ∧
      FailsAt records.flatten.length rest e ∧ e.IsTrueOf stream records.flatten.length := by
  obtain ⟨records, events, rest, rfl, hrecords, hfails⟩ :=
    exists_failsAt_of_decodeRecords (Nat.le_refl _) h
  rw [Nat.zero_add] at hfails
  refine ⟨records, events, rest, rfl, hrecords, ?_, hfails, hfails.isTrueOf⟩
  rintro record more event rfl
  exact hfails.not_isRecord

/-- A copy and then an update whose contents begin with an unknown tag. -/
def brokenStream : List UInt8 := copyRecord 3 7 5 ++ [0, 0, 0, 8, 0, 0x0B]

/-- The tag stands five bytes behind the start of the second record. -/
theorem isTrueOf_of_decodeEvents_brokenStream :
    decodeEvents brokenStream = .error (.decode (.unknownTag 0x0B 0)) ∧
      ∃ records events rest, brokenStream = records.flatten ++ rest ∧
        List.Forall₂ IsRecord records events ∧ records.flatten.length = 11 ∧
        brokenStream[11 + 5]? = some 0x0B := by
  have hfails : decodeEvents brokenStream = .error (.decode (.unknownTag 0x0B 0)) := by rfl
  obtain ⟨records, events, rest, hstream, hrecords, -, -, -, hend, hplace, -⟩ :=
    isTrueOf_of_decodeEvents _ _ hfails
  have honly : ∀ i ≤ 17, brokenStream[i]? = some 0x0B → i = 11 + 5 := by decide
  have hstart := honly _ hend hplace
  rw [Nat.add_zero, hstart] at hplace
  exact ⟨hfails, records, events, rest, hstream, hrecords, by omega, hplace⟩

/-- The offset that the failure tells is not the place of the tag in the stream. -/
theorem decodeEvents_misplaces_unknownTag :
    decodeEvents brokenStream = .error (.decode (.unknownTag 0x0B 0)) ∧
      brokenStream[0]? = some 0 ∧ brokenStream[16]? = some 0x0B := by
  refine ⟨by rfl, by decide, by decide⟩

end Michelson.BigMap

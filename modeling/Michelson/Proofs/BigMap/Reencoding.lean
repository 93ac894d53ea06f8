import Michelson.Proofs.BigMap.Stream

/-!
# Streams written anew

The reader of records takes more than is ever written: the pairs in the contents may be any
applications to two arguments, annotations on them and on `None` are passed over, and their
expressions stand in any binary form. The events that it gives are none the worse for it. Their
ids fit, since an id is read from four bytes or checked, and their expressions are in normal form,
so they are written again, in no more bytes, and read back the same.

## Main definitions

* `Action.Admits`: the contents that a record of an action may have

## Main results

* `ofPayload_eq_ok_iff`: the contents that are read are those that the action admits
* `IsRecord.stable`: what holds of the event of any record
* `encodeEvents_of_decodeEvents`: the same for whole streams
-/

namespace Michelson.BigMap

open Binary.Reader (Normal)

/-! ## Contents -/

/-- **The contents that a record of an action may have.** The primitives, the annotations and the
flags are any. -/
inductive Action.Admits : Action → Expr → Prop
  | update {keyHash key value p q as bs cs flag flag'} :
    Admits (.update keyHash key value)
      (.app p [.app q [key, .bytes keyHash.bytes.1 cs] bs flag', value] as flag)
  | remove {keyHash key p q as bs cs ds flag flag' flag''} :
    Admits (.remove keyHash key)
      (.app p [.app q [key, .bytes keyHash.bytes.1 cs] bs flag', .app (.data .none) [] ds flag'']
        as flag)
  | copy {source destination p as bs cs flag} : fitsId source = true → fitsId destination = true →
    Admits (.copy source destination) (.app p [.int source bs, .int destination cs] as flag)
  | alloc {keyType valueType p as flag} :
    Admits (.alloc keyType valueType) (.app p [keyType, valueType] as flag)

section Split

variable {code : ActionCode} {e : Expr}

theorem splitPair_eq_ok_iff {parts : Expr × Expr} :
    splitPair code e = .ok parts ↔ ∃ p as flag, e = .app p [parts.1, parts.2] as flag := by
  constructor
  · intro h
    unfold splitPair at h
    split at h
    next p left right as flag =>
      cases h
      exact ⟨p, as, flag, rfl⟩
    next => cases h
  · rintro ⟨p, as, flag, rfl⟩
    rfl

theorem exprHash_ofBytes_eq_ok_iff {b : List UInt8} {keyHash : ExprHash} :
    ExprHash.ofBytes b = .ok keyHash ↔ keyHash.bytes.1 = b := by
  constructor
  · intro h
    obtain ⟨bytes, hbytes, rfl⟩ := map_eq_ok_iff.mp h
    unfold Identifier.FixedBytes.ofList at hbytes
    split at hbytes
    next =>
      cases hbytes
      rfl
    next => cases hbytes
  · rintro rfl
    exact ofBytes_bytes keyHash

theorem splitEntry_eq_ok_iff {entry : Expr × ExprHash} :
    splitEntry code e = .ok entry ↔
      ∃ p as bs flag, e = .app p [entry.1, .bytes entry.2.bytes.1 bs] as flag := by
  constructor
  · intro h
    obtain ⟨⟨key, hash⟩, hparts, hhash⟩ := bind_eq_ok_iff.mp h
    obtain ⟨p, as, flag, rfl⟩ := splitPair_eq_ok_iff.mp hparts
    dsimp only at hhash
    split at hhash
    next b bs =>
      split at hhash
      next keyHash hbytes =>
        cases hhash
        obtain rfl := exprHash_ofBytes_eq_ok_iff.mp hbytes
        exact ⟨p, as, bs, flag, rfl⟩
      next => cases hhash
    next => cases hhash
  · rintro ⟨p, as, bs, flag, rfl⟩
    simp only [splitEntry, splitPair, bind, Except.bind, ofBytes_bytes]
    rfl

theorem copyId_eq_ok_iff {id : Int} :
    copyId e = .ok id ↔ fitsId id = true ∧ ∃ as, e = .int id as := by
  constructor
  · intro h
    unfold copyId at h
    split at h
    next n as =>
      unfold checkId at h
      split at h
      next hfits =>
        cases h
        exact ⟨hfits, as, rfl⟩
      next => cases h
    next => cases h
  · rintro ⟨hfits, as, rfl⟩
    exact if_pos hfits

end Split

/-- **The contents that are read** as an action are those that it admits. -/
theorem ofPayload_eq_ok_iff {code : ActionCode} {payload : Expr} {action : Action} :
    Action.ofPayload code payload = .ok action ↔ action.code = code ∧ action.Admits payload := by
  constructor
  · intro h
    obtain ⟨⟨left, right⟩, hparts, hrest⟩ := bind_eq_ok_iff.mp h
    obtain ⟨p, as, flag, rfl⟩ := splitPair_eq_ok_iff.mp hparts
    cases code with
    | update =>
      obtain ⟨⟨key, hash⟩, hentry, haction⟩ := bind_eq_ok_iff.mp hrest
      obtain ⟨q, bs, cs, flag', rfl⟩ := splitEntry_eq_ok_iff.mp hentry
      cases haction
      exact ⟨rfl, .update⟩
    | remove =>
      dsimp only at hrest
      split at hrest
      next ds flag'' =>
        obtain ⟨⟨key, hash⟩, hentry, haction⟩ := bind_eq_ok_iff.mp hrest
        obtain ⟨q, bs, cs, flag', rfl⟩ := splitEntry_eq_ok_iff.mp hentry
        cases haction
        exact ⟨rfl, .remove⟩
      next => cases hrest
    | copy =>
      obtain ⟨source, hsource, hmore⟩ := bind_eq_ok_iff.mp hrest
      obtain ⟨destination, hdestination, haction⟩ := bind_eq_ok_iff.mp hmore
      obtain ⟨hfits, bs, rfl⟩ := copyId_eq_ok_iff.mp hsource
      obtain ⟨hfits', cs, rfl⟩ := copyId_eq_ok_iff.mp hdestination
      cases haction
      exact ⟨rfl, .copy hfits hfits'⟩
    | alloc =>
      cases hrest
      exact ⟨rfl, .alloc⟩
  · rintro ⟨rfl, h⟩
    cases h with
    | update | remove =>
      simp only [Action.ofPayload, Action.code, splitPair, splitEntry, bind, Except.bind,
        ofBytes_bytes]
      rfl
    | copy hsource hdestination =>
      simp only [Action.ofPayload, Action.code, splitPair, copyId, checkId, if_pos hsource,
        if_pos hdestination, bind, Except.bind]
      rfl
    | alloc => rfl

/-! ## Lengths and levels -/

/-- The arguments of an application in normal form are a level lower. -/
theorem exists_normal_of_mem {levels : Nat} {p : Primitive} {xs : List Expr} {as : List String}
    {flag : Bool} (h : Normal levels (.app p xs as flag)) :
    ∀ x ∈ xs, ∃ below, below + 1 = levels ∧ Normal below x := by
  intro x hx
  have hheight := h.height_le
  rw [Expr.height] at hheight
  obtain ⟨below, rfl⟩ := Nat.exists_eq_add_of_le' (Nat.le_trans (Nat.le_add_left 1 _) hheight)
  refine ⟨below, rfl, ?_, ?_, ?_⟩
  · exact (Expr.heightAll_le_iff xs below).mp (Nat.le_of_succ_le_succ hheight) x hx
  · exact ((Expr.fitsLengths_app_iff p xs as flag).mp h.fitsLengths).2 x hx
  · have hself := h.canonical_eq
    rw [Expr.canonical, Expr.canonicalAll_eq_map] at hself
    injection hself with _ hxs
    exact List.map_inj_left.mp (hxs.trans (List.map_id xs).symm) x hx

/-- The same of the arguments of an argument, which are two levels lower. -/
theorem exists_normal_of_mem_of_mem {levels : Nat} {p q : Primitive} {xs ys : List Expr}
    {as bs : List String} {flag flag' : Bool} (h : Normal levels (.app p xs as flag))
    (hmem : .app q ys bs flag' ∈ xs) :
    ∀ y ∈ ys, ∃ below, below + 2 = levels ∧ Normal below y := by
  intro y hy
  obtain ⟨middle, rfl, hmiddle⟩ := exists_normal_of_mem h _ hmem
  obtain ⟨below, rfl, hbelow⟩ := exists_normal_of_mem hmiddle y hy
  exact ⟨below, rfl, hbelow⟩

/-- A pair is the shortest application to two arguments, and shorter still if they are. -/
theorem length_encode_pairOf_le {left left' right right' : Expr}
    (hleft : left.encode.length ≤ left'.encode.length)
    (hright : right.encode.length ≤ right'.encode.length) (p : Primitive) (as : List String)
    (flag : Bool) :
    (pairOf left right).encode.length ≤ (Expr.app p [left', right'] as flag).encode.length := by
  have hflag : (Expr.app p [left', right'] as flag).encode =
      (Expr.app p [left', right'] as).encode := by
    simp only [Expr.encode]
  rw [hflag, pairOf, Binary.Reader.length_encode_app, Binary.Reader.length_encode_app]
  simp [Expr.encodeAll]
  omega

section Admitted

variable {action : Action} {payload : Expr} (h : action.Admits payload)

include h

/-- No contents of an action are shorter than those that are written for it. -/
theorem Action.Admits.length_encode_payload_le :
    action.payload.encode.length ≤ payload.encode.length := by
  cases h with
  | update =>
    refine length_encode_pairOf_le (length_encode_pairOf_le ?_ ?_ _ _ _) ?_ _ _ _
    · exact Nat.le_refl _
    · exact Nat.le_refl _
    · exact Nat.le_refl _
  | remove =>
    refine length_encode_pairOf_le (length_encode_pairOf_le ?_ ?_ _ _ _) ?_ _ _ _
    · exact Nat.le_refl _
    · exact Nat.le_refl _
    · exact Binary.Reader.two_le_length_encode _
  | copy | alloc =>
    refine length_encode_pairOf_le ?_ ?_ _ _ _
    · exact Nat.le_refl _
    · exact Nat.le_refl _

/-- The expressions of an action are in normal form if the contents are from which they are read,
and lie as deep in them as in those that are written. -/
theorem Action.Admits.exists_normal_part {levels : Nat} (hnormal : Normal levels payload) :
    ∀ part ∈ action.parts, ∃ below, below + part.2 = levels ∧ Normal below part.1 := by
  cases h with
  | update =>
    have hkey := exists_normal_of_mem_of_mem hnormal List.mem_cons_self
    have hvalue := exists_normal_of_mem hnormal
    simp only [List.forall_mem_cons] at hkey hvalue
    simpa [parts] using ⟨hkey.1, hvalue.2.1⟩
  | remove =>
    have hkey := exists_normal_of_mem_of_mem hnormal List.mem_cons_self
    simp only [List.forall_mem_cons] at hkey
    simpa [parts] using hkey.1
  | copy => simp [parts]
  | alloc => simpa [parts] using exists_normal_of_mem hnormal

end Admitted

/-! ## Records -/

/-- The ids of an action are checked when they are read. -/
theorem Action.Admits.fitsIds {action : Action} {payload : Expr} (h : action.Admits payload)
    {id : Int} (hid : fitsId id = true) : Event.FitsIds ⟨id, action⟩ := by
  cases h with
  | update | remove | alloc => simpa [Event.FitsIds, Event.ids] using hid
  | copy hsource hdestination =>
    simpa [Event.FitsIds, Event.ids] using ⟨hid, hsource, hdestination⟩

/-- An id that is read from four bytes fits into them. -/
theorem fitsId_idOfBytes (a b c d : UInt8) : fitsId (idOfBytes [a, b, c, d]) = true := by
  have hlt := Binary.Reader.spell_lt [a, b, c, d]
  simp only [List.length_cons, List.length_nil] at hlt
  have hid : -0x80000000 ≤ idOfBytes [a, b, c, d] ∧ idOfBytes [a, b, c, d] < 0x80000000 := by
    simp only [idOfBytes]
    split <;> omega
  simpa only [fitsId, Bool.and_eq_true, decide_eq_true_eq] using hid

theorem Action.canonical_eq {action : Action}
    (h : ∀ part ∈ action.parts, part.1.canonical = part.1) : action.canonical = action := by
  cases action <;> simp_all [parts, canonical]

/-- **The event of any record** can be written again, in no more bytes, and as the same event. -/
theorem IsRecord.stable {record : List UInt8} {event : Event} (h : IsRecord record event) :
    event.FitsIds ∧ event.Encodable ∧ event.canonical = event ∧
      event.record.length ≤ record.length := by
  cases h with
  | @mk a b c d byte code body payload action hcode hbody haction =>
    obtain ⟨rfl, hadmits⟩ := ofPayload_eq_ok_iff.mp haction
    obtain ⟨hnormal, hlength⟩ := Binary.normal_of_decode hbody
    have hparts := hadmits.exists_normal_part hnormal
    refine ⟨hadmits.fitsIds (fitsId_idOfBytes a b c d), fun part hpart => ?_, ?_, ?_⟩
    · obtain ⟨below, hlevels, hpart⟩ := hparts part hpart
      have hheight := hpart.height_le
      exact ⟨Expr.plainlyAnnotated_of_canonical_eq hpart.canonical_eq, hpart.fitsLengths, by omega⟩
    · rw [Event.canonical, Action.canonical_eq]
      intro part hpart
      obtain ⟨below, -, hpart⟩ := hparts part hpart
      exact hpart.canonical_eq
    · have hpayload := hadmits.length_encode_payload_le
      rw [length_record]
      simp only [List.length_cons]
      omega

section Streams

variable {records : List (List UInt8)} {events : List Event}
  (h : List.Forall₂ IsRecord records events)

include h

/-- The records of a stream are written anew in no more bytes. -/
theorem length_flatMap_record_le :
    (events.flatMap Event.record).length ≤ records.flatten.length := by
  induction h with
  | nil => exact Nat.le_refl 0
  | cons hrecord _ ih =>
    rw [List.flatMap_cons, List.flatten_cons, List.length_append, List.length_append]
    exact Nat.add_le_add hrecord.stable.2.2.2 ih

/-- The events of a stream are those of the records that are written anew. -/
theorem forall₂_isRecord_map_record : List.Forall₂ IsRecord (events.map Event.record) events := by
  induction h with
  | nil => exact .nil
  | cons hrecord _ ih =>
    obtain ⟨hids, henc, hcanonical, -⟩ := hrecord.stable
    refine .cons ?_ ih
    have hwritten := Event.isRecord_record hids henc
    rwa [hcanonical] at hwritten

theorem forall_fitsIds : ∀ event ∈ events, event.FitsIds := by
  induction h with
  | nil => simp
  | cons hrecord _ ih => exact List.forall_mem_cons.mpr ⟨hrecord.stable.1, ih⟩

end Streams

/-- **Events that were read are written again.** Of whatever stream events are read, they make a
stream themselves, which is no longer than the one that they come from and from which the same
events are read. -/
theorem encodeEvents_of_decodeEvents (bytes : List UInt8) (events : List Event)
    (h : decodeEvents bytes = .ok events) :
    ∃ written, encodeEvents events = .ok written ∧ written.length ≤ bytes.length ∧
      decodeEvents written = .ok events := by
  obtain ⟨records, rfl, hrecords⟩ := decodeEvents_eq_ok_iff.mp h
  refine ⟨events.flatMap Event.record, ?_, length_flatMap_record_le hrecords, ?_⟩
  · exact encodeEvents_eq_ok_iff.mpr ⟨forall_fitsIds hrecords, rfl⟩
  · rw [List.flatMap_def]
    exact decodeEvents_eq_ok_iff.mpr ⟨_, rfl, forall₂_isRecord_map_record hrecords⟩

/-- The removal of an entry, with all that is redundant: another primitive than the pair,
annotations on the entry, on `None` and around both, the tag for many arguments in front of the
entry, and a key that is a negative zero with a byte too many. -/
def redundantRecord : List UInt8 :=
  [255, 255, 255, 255, 1, 8, 0x04, 9, 0x09, 0, 0, 0, 41, 0, 0xC0, 0x80, 0, 0x0A, 0, 0, 0, 32]
    ++ List.replicate 32 0
    ++ [0, 0, 0, 2, 64, 97, 4, 0x06, 0, 0, 0, 2, 37, 120, 0, 0, 0, 3, 32, 37, 121]

theorem encodeEvents_of_decodeEvents_redundantRecord :
    ∃ events written, decodeEvents redundantRecord = .ok events ∧
      encodeEvents events = .ok written ∧ decodeEvents written = .ok events ∧
      written = [255, 255, 255, 255, 1, 7, 0x07, 7, 0x07, 0, 0, 0x0A, 0, 0, 0, 32]
        ++ List.replicate 32 0 ++ [3, 0x06] := by
  have hread : (decodeEvents redundantRecord).toOption.map (·.flatMap Event.record) =
      some ([255, 255, 255, 255, 1, 7, 0x07, 7, 0x07, 0, 0, 0x0A, 0, 0, 0, 32]
        ++ List.replicate 32 0 ++ [3, 0x06]) := by
    decide +kernel
  obtain ⟨events, hevents, hrecord⟩ := map_toOption_eq_some_iff.mp hread
  obtain ⟨written, hwritten, -, hback⟩ := encodeEvents_of_decodeEvents _ events hevents
  refine ⟨events, written, hevents, hwritten, hback, ?_⟩
  rw [(encodeEvents_eq_ok_iff.mp hwritten).2, hrecord]

end Michelson.BigMap

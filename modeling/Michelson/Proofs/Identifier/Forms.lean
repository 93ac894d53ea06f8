import Mathlib.Data.List.Basic
import Michelson.Identifier.Address
import Michelson.Identifier.Hash
import Michelson.Identifier.Key
import Michelson.Identifier.Signature
import Michelson.Proofs.Identifier.TextReading

/-!
# The forms of identifiers

An identifier is an address, a key, a signature, a chain id or an expression hash. The mark in front
of the payload tells which of these it is, and of which kind: no mark continues another. So each
identifier has one text, and each text is that of one identifier at most. In the binary forms one
byte tells the kind, and every byte beside the payload has one value only.

## Main definitions

* `IdentifierKind`, `AnyIdentifier`: identifiers of all five sorts, and their kinds
* `AnyIdentifier.IsReadFrom`: the texts that an identifier is read from
* `AnyIdentifier.HasLength`: identifiers with a payload of the right length

## Main results

* `IdentifierKind.not_isPrefix`: no mark continues another
* `Identifier.readFirst_eq_ok_iff`: what is read, of several kinds
* `AnyIdentifier.isReadFrom_iff`, `AnyIdentifier.eq_of_isReadFrom`: texts
* `Address.ofBytes_eq_ok_iff`, `Address.ofKeyHashBytes_eq_ok_iff`, `Key.ofBytes_eq_ok_iff`: bytes
* `Identifier.forms_faithful`: all of that
-/

namespace Michelson

open Identifier

/-! ## Marks -/

/-- **The kinds of identifiers** of all sorts. -/
inductive IdentifierKind where
  | address (kind : AddressKind)
  | key (kind : KeyKind)
  | signature (kind : SignatureKind)
  | chainId
  | exprHash
  deriving DecidableEq

namespace IdentifierKind

/-- The text format of identifiers of a kind. -/
def format : IdentifierKind → Format
  | address kind => kind.format
  | key kind => kind.format
  | signature kind => kind.format
  | chainId => ChainId.format
  | exprHash => ExprHash.format

/-- Every kind of every sort. -/
def all : List IdentifierKind :=
  AddressKind.all.map address ++ KeyKind.all.map key ++ SignatureKind.all.map signature ++
    [chainId, exprHash]

theorem mem_all (k : IdentifierKind) : k ∈ all := by
  rcases k with k | k | k | _ | _
  · cases k <;> decide
  · cases k <;> decide
  · cases k <;> decide
  · decide
  · decide

/-- **No mark continues another**, of whatever sorts they are. -/
theorem not_isPrefix (k l : IdentifierKind) (hne : k ≠ l) : ¬k.format.mark <+: l.format.mark := by
  have hall : all.all (fun k => all.all fun l =>
      k == l || !k.format.mark.isPrefixOf l.format.mark) = true := by
    decide
  have hkl := List.all_eq_true.mp (List.all_eq_true.mp hall k (mem_all k)) l (mem_all l)
  rw [← List.isPrefixOf_iff_prefix, Bool.not_eq_true]
  simpa [hne] using hkl

/-- Bytes start with the mark of one kind at most. -/
theorem eq_of_append_eq {k l : IdentifierKind} {payload payload' : List UInt8}
    (h : k.format.mark ++ payload = l.format.mark ++ payload') : k = l ∧ payload = payload' := by
  have hkl : k = l := by
    by_contra hne
    have hk : k.format.mark <+: l.format.mark ++ payload' := ⟨payload, h⟩
    rcases List.prefix_or_prefix_of_prefix hk (List.prefix_append ..) with hpre | hpre
    · exact not_isPrefix k l hne hpre
    · exact not_isPrefix l k (Ne.symm hne) hpre
  subst hkl
  exact ⟨rfl, List.append_cancel_left h⟩

end IdentifierKind

/-! ## Reading texts -/

namespace Identifier

section Reading

variable {κ α : Type} {kinds : List κ} {kind : κ → IdentifierKind}
  {build : (k : κ) → FixedBytes (kind k).format.length → α} {text : String} {x : α}

/-- **What is read, of several kinds**, is what is written for a payload of one of them. -/
theorem readFirst_eq_ok_iff (hkind : ∀ k ∈ kinds, ∀ l ∈ kinds, kind k = kind l → k = l) :
    readFirst kinds (fun k bytes => ((kind k).format.payload? bytes).map (build k)) text = .ok x ↔
      ∃ k ∈ kinds, ∃ payload, build k payload = x ∧ (kind k).format.write payload.1 = text := by
  have hread {k : κ} {bytes : List UInt8} {y : α} :
      ((kind k).format.payload? bytes).map (build k) = some y ↔
        ∃ payload, (kind k).format.mark ++ payload.1 = bytes ∧ build k payload = y := by
    simp only [Option.map_eq_some_iff, payload?_eq_some_iff]
  rw [readFirst, bind_eq_ok_iff]
  constructor
  · rintro ⟨bytes, hbytes, h⟩
    split at h
    next y hy =>
      cases h
      obtain ⟨k, hk, hy⟩ := List.exists_of_findSome?_eq_some hy
      obtain ⟨payload, rfl, rfl⟩ := hread.mp hy
      exact ⟨k, hk, payload, rfl, decodeText_eq_ok_iff.mp hbytes⟩
    next => cases h
  · rintro ⟨k, hk, payload, rfl, rfl⟩
    refine ⟨_, decodeText_write _ _, ?_⟩
    cases hfind : kinds.findSome? fun l =>
        ((kind l).format.payload? ((kind k).format.mark ++ payload.1)).map (build l) with
    | none =>
      have hnone := List.findSome?_eq_none_iff.mp hfind k hk
      rw [hread.mpr ⟨payload, rfl, rfl⟩] at hnone
      cases hnone
    | some y =>
      obtain ⟨l, hl, hy⟩ := List.exists_of_findSome?_eq_some hfind
      obtain ⟨payload', hbytes, rfl⟩ := hread.mp hy
      obtain ⟨hkl, hpayload⟩ := IdentifierKind.eq_of_append_eq hbytes
      obtain rfl := hkind l hl k hk hkl
      obtain rfl := Subtype.ext hpayload
      rfl

/-- The same of a single kind. -/
theorem readFirst_single_eq_ok_iff (k : IdentifierKind) (build : FixedBytes k.format.length → α) :
    readFirst [k.format] (fun _ bytes => (k.format.payload? bytes).map build) text = .ok x ↔
      ∃ payload, build payload = x ∧ k.format.write payload.1 = text := by
  have hread := @readFirst_eq_ok_iff _ α [k.format] (fun _ => k) (fun _ => build) text x
  rw [List.forall_mem_singleton, List.forall_mem_singleton] at hread
  refine (hread fun _ => rfl).trans ⟨?_, fun h => ⟨_, List.mem_singleton_self _, h⟩⟩
  rintro ⟨_, -, h⟩
  exact h

end Reading

end Identifier

theorem AddressKind.mem_all (kind : AddressKind) : kind ∈ all := by
  cases kind <;> decide

theorem KeyKind.mem_all (kind : KeyKind) : kind ∈ all := by
  cases kind <;> decide

theorem SignatureKind.mem_all (kind : SignatureKind) : kind ∈ all := by
  cases kind <;> decide

/-- An address is read from its text, and from no other. -/
theorem Address.ofText_eq_ok_iff {text : String} {a : Address} :
    ofText text = .ok a ↔ a.text = text := by
  have hread := @readFirst_eq_ok_iff _ Address AddressKind.all .address
    (fun kind hash => ⟨kind, hash.1, hash.2.trans kind.length_format⟩) text a
    fun _ _ _ _ heq => IdentifierKind.address.inj heq
  refine hread.trans ⟨?_, ?_⟩
  · rintro ⟨kind, -, payload, rfl, htext⟩
    exact htext
  · intro htext
    exact ⟨a.kind, a.kind.mem_all, ⟨a.hash.1, a.hash.2.trans a.kind.length_format.symm⟩, rfl, htext⟩

/-- A key is read from its text, and from no other, if it has the length of its kind. -/
theorem Key.ofText_eq_ok_iff {text : String} {key : Key} :
    ofText text = .ok key ↔ key.data.length = key.kind.format.length ∧ key.text = text := by
  have hread := @readFirst_eq_ok_iff _ Key KeyKind.all .key (fun kind data => ⟨kind, data.1⟩) text
    key fun _ _ _ _ heq => IdentifierKind.key.inj heq
  refine hread.trans ⟨?_, ?_⟩
  · rintro ⟨kind, -, payload, rfl, htext⟩
    exact ⟨payload.2, htext⟩
  · rintro ⟨hlength, htext⟩
    exact ⟨key.kind, key.kind.mem_all, ⟨key.data, hlength⟩, rfl, htext⟩

/-- A signature is read from its text, and from no other, if it has the length of its kind. -/
theorem Signature.ofText_eq_ok_iff {text : String} {signature : Signature} :
    ofText text = .ok signature ↔
      signature.data.length = signature.kind.format.length ∧ signature.text = text := by
  have hread := @readFirst_eq_ok_iff _ Signature SignatureKind.all .signature
    (fun kind data => ⟨kind, data.1⟩) text signature
    fun _ _ _ _ heq => IdentifierKind.signature.inj heq
  refine hread.trans ⟨?_, ?_⟩
  · rintro ⟨kind, -, payload, rfl, htext⟩
    exact ⟨payload.2, htext⟩
  · rintro ⟨hlength, htext⟩
    exact ⟨signature.kind, signature.kind.mem_all, ⟨signature.data, hlength⟩, rfl, htext⟩

/-- A chain id is read from its text, and from no other. -/
theorem ChainId.ofText_eq_ok_iff {text : String} {id : ChainId} :
    ofText text = .ok id ↔ id.text = text := by
  refine (readFirst_single_eq_ok_iff .chainId ChainId.mk).trans ⟨?_, ?_⟩
  · rintro ⟨payload, rfl, htext⟩
    exact htext
  · intro htext
    exact ⟨id.bytes, rfl, htext⟩

/-- An expression hash is read from its text, and from no other. -/
theorem ExprHash.ofText_eq_ok_iff {text : String} {hash : ExprHash} :
    ofText text = .ok hash ↔ hash.text = text := by
  refine (readFirst_single_eq_ok_iff .exprHash ExprHash.mk).trans ⟨?_, ?_⟩
  · rintro ⟨payload, rfl, htext⟩
    exact htext
  · intro htext
    exact ⟨hash.bytes, rfl, htext⟩

/-- **An expression hash is read back** from its text. -/
theorem ExprHash.ofText_text (hash : ExprHash) : ofText hash.text = .ok hash :=
  ofText_eq_ok_iff.mpr rfl

/-! ## Reading bytes -/

theorem Identifier.FixedBytes.ofList_eq_ok_iff {n : Nat} {bytes : List UInt8} {x : FixedBytes n} :
    FixedBytes.ofList n bytes = .ok x ↔ x.1 = bytes := by
  rw [FixedBytes.ofList]
  constructor
  · intro h
    split at h
    · cases h
      rfl
    · cases h
  · rintro rfl
    rw [dif_pos x.2]

theorem AddressKind.ofImplicitTag_eq_ok_iff {tag : UInt8} {kind : AddressKind} :
    ofImplicitTag tag = .ok kind ↔ kind.implicitTag? = some tag := by
  rw [ofImplicitTag]
  constructor
  · intro h
    split at h
    next kind' hfind =>
      cases h
      simpa using List.find?_some hfind
    next => cases h
  · intro h
    cases kind <;> cases h <;> rfl

theorem dropLast_append_getLastD {α : Type} {xs : List α} (hne : xs ≠ []) (x : α) :
    xs.dropLast ++ [xs.getLastD x] = xs := by
  rw [List.getLastD_eq_getLast?, List.getLast?_eq_getLast_of_ne_nil hne, Option.getD_some,
    List.dropLast_append_getLast]

theorem Address.ofBytes_toBytes (a : Address) : ofBytes a.toBytes = .ok a := by
  obtain ⟨kind, hash, hhash⟩ := a
  cases kind <;>
    simp [ofBytes, toBytes, AddressKind.implicitTag?, AddressKind.ofImplicitTag, AddressKind.all,
      hhash, FixedBytes.ofList, bind, Except.bind, pure, Except.pure]

/-- Every byte that is read is told by the address. -/
theorem Address.toBytes_of_ofBytes {bytes : List UInt8} {a : Address} (h : ofBytes bytes = .ok a) :
    a.toBytes = bytes := by
  unfold ofBytes at h
  split at h
  next => cases h
  next tag rest =>
    dsimp only at h
    split at h
    next => cases h
    next hlength =>
      rw [not_not] at hlength
      split at h
      next htag =>
        simp only [bind_eq_ok_iff, pure_eq_ok_iff, AddressKind.ofImplicitTag_eq_ok_iff,
          FixedBytes.ofList_eq_ok_iff] at h
        obtain ⟨kind, hkind, hash, hhash, rfl⟩ := h
        cases rest with
        | nil => cases hlength
        | cons b rest =>
          rw [toBytes, hkind, hhash, htag]
          rfl
      next =>
        split at h
        next htag =>
          split at h
          next => cases h
          next hlast =>
            rw [not_not] at hlast
            simp only [bind_eq_ok_iff, pure_eq_ok_iff, FixedBytes.ofList_eq_ok_iff] at h
            obtain ⟨hash, hhash, rfl⟩ := h
            have hne : rest ≠ [] := by
              rintro rfl
              cases hlength
            have hrest : hash.1 ++ [0] = rest := by
              rw [hhash, ← hlast, dropLast_append_getLastD hne]
            rw [Bool.or_eq_true, decide_eq_true_eq, decide_eq_true_eq] at htag
            rcases htag with rfl | rfl
            · exact congrArg (1 :: ·) hrest
            · exact congrArg (3 :: ·) hrest
        next => cases h

/-- An address is read from its 22 bytes, and from no others. -/
theorem Address.ofBytes_eq_ok_iff {bytes : List UInt8} {a : Address} :
    ofBytes bytes = .ok a ↔ a.toBytes = bytes := by
  refine ⟨toBytes_of_ofBytes, ?_⟩
  rintro rfl
  exact a.ofBytes_toBytes

/-- An implicit account is read from its 21 bytes, and from no others. -/
theorem Address.ofKeyHashBytes_eq_ok_iff {bytes : List UInt8} {a : Address} :
    ofKeyHashBytes bytes = .ok a ↔ a.keyHashBytes = .ok bytes := by
  constructor
  · intro h
    unfold ofKeyHashBytes at h
    split at h
    next => cases h
    next tag rest =>
      split at h
      next => cases h
      next =>
        simp only [bind_eq_ok_iff, pure_eq_ok_iff, AddressKind.ofImplicitTag_eq_ok_iff,
          FixedBytes.ofList_eq_ok_iff] at h
        obtain ⟨kind, hkind, hash, rfl, rfl⟩ := h
        rw [keyHashBytes, hkind]
  · intro h
    obtain ⟨kind, hash, hhash⟩ := a
    cases htag : kind.implicitTag? with
    | none =>
      rw [keyHashBytes, htag] at h
      cases h
    | some tag =>
      rw [keyHashBytes, htag] at h
      cases h
      simp [ofKeyHashBytes, AddressKind.ofImplicitTag_eq_ok_iff.mpr htag, hhash, FixedBytes.ofList,
        bind, Except.bind, pure, Except.pure]

/-- **The form of 21 bytes exists** exactly of implicit accounts. -/
theorem Address.exists_keyHashBytes_iff {a : Address} :
    (∃ bytes, a.keyHashBytes = .ok bytes) ↔ a.kind.isImplicit = true := by
  rw [keyHashBytes, AddressKind.isImplicit]
  cases a.kind.implicitTag? <;> simp

/-- A key is read from its bytes, and from no others, if it has the length of its kind. -/
theorem Key.ofBytes_eq_ok_iff {bytes : List UInt8} {key : Key} :
    ofBytes bytes = .ok key ↔ key.toBytes = bytes ∧ key.data.length = key.kind.format.length := by
  have hkind {tag : UInt8} {kind : KeyKind} :
      KeyKind.all.find? (·.tag == tag) = some kind ↔ kind.tag = tag := by
    constructor
    · intro h
      simpa using List.find?_some h
    · rintro rfl
      cases kind <;> rfl
  constructor
  · intro h
    unfold ofBytes at h
    split at h
    next => cases h
    next tag data =>
      split at h
      next => cases h
      next kind hfind =>
        split at h
        next hlength =>
          cases h
          exact ⟨congrArg (· :: data) (hkind.mp hfind), hlength⟩
        next => cases h
  · rintro ⟨rfl, hlength⟩
    rw [toBytes, ofBytes, hkind.mpr rfl]
    dsimp only
    rw [if_pos hlength]

/-! ## Identifiers of all sorts -/

/-- **An identifier** of any sort. -/
inductive AnyIdentifier where
  | address (address : Address)
  | key (key : Key)
  | signature (signature : Signature)
  | chainId (id : ChainId)
  | exprHash (hash : ExprHash)

namespace AnyIdentifier

/-- What sort and kind it is of. -/
def kind : AnyIdentifier → IdentifierKind
  | address a => .address a.kind
  | key k => .key k.kind
  | signature s => .signature s.kind
  | chainId _ => .chainId
  | exprHash _ => .exprHash

/-- The bytes behind the mark. -/
def payload : AnyIdentifier → List UInt8
  | address a => a.hash.1
  | key k => k.data
  | signature s => s.data
  | chainId id => id.bytes.1
  | exprHash hash => hash.bytes.1

/-- The text form. -/
def text : AnyIdentifier → String
  | address a => a.text
  | key k => k.text
  | signature s => s.text
  | chainId id => id.text
  | exprHash hash => hash.text

/-- **What the reader of its sort** makes of a text. -/
def IsReadFrom (text : String) : AnyIdentifier → Prop
  | address a => Address.ofText text = .ok a
  | key k => Key.ofText text = .ok k
  | signature s => Signature.ofText text = .ok s
  | chainId id => ChainId.ofText text = .ok id
  | exprHash hash => ExprHash.ofText text = .ok hash

/-- **A key or signature with data of the length of its kind.** The other sorts have no data of
another length. -/
def HasLength : AnyIdentifier → Prop
  | key k => k.data.length = k.kind.format.length
  | signature s => s.data.length = s.kind.format.length
  | address _ | chainId _ | exprHash _ => True

variable {text : String} {x y : AnyIdentifier}

theorem write_payload (x : AnyIdentifier) : x.kind.format.write x.payload = x.text := by
  cases x <;> rfl

theorem eq_of_kind_of_payload (hkind : x.kind = y.kind) (hpayload : x.payload = y.payload) :
    x = y := by
  cases x <;> cases y
  case address.address a b =>
    obtain ⟨kind, hash⟩ := a
    obtain rfl := IdentifierKind.address.inj hkind
    obtain rfl := Subtype.ext hpayload
    rfl
  case key.key k l =>
    obtain ⟨kind, data⟩ := k
    obtain rfl := IdentifierKind.key.inj hkind
    obtain rfl := hpayload
    rfl
  case signature.signature s t =>
    obtain ⟨kind, data⟩ := s
    obtain rfl := IdentifierKind.signature.inj hkind
    obtain rfl := hpayload
    rfl
  case chainId.chainId id id' => exact congrArg (chainId ∘ ChainId.mk) (Subtype.ext hpayload)
  case exprHash.exprHash hash hash' => exact congrArg (exprHash ∘ ExprHash.mk) (Subtype.ext hpayload)
  all_goals cases hkind

/-- **The texts of identifiers**: each is read from its text, and from no other. -/
theorem isReadFrom_iff : x.IsReadFrom text ↔ x.HasLength ∧ x.text = text := by
  cases x with
  | address a => exact Address.ofText_eq_ok_iff.trans (and_iff_right trivial).symm
  | key k => exact Key.ofText_eq_ok_iff
  | signature s => exact Signature.ofText_eq_ok_iff
  | chainId id => exact ChainId.ofText_eq_ok_iff.trans (and_iff_right trivial).symm
  | exprHash hash => exact ExprHash.ofText_eq_ok_iff.trans (and_iff_right trivial).symm

/-- **No text is read as two identifiers**, of whatever sorts. -/
theorem eq_of_isReadFrom (hx : x.IsReadFrom text) (hy : y.IsReadFrom text) : x = y := by
  have hbytes : ∀ {z : AnyIdentifier}, z.IsReadFrom text →
      decodeText text = .ok (z.kind.format.mark ++ z.payload) := by
    intro z hz
    rw [← (isReadFrom_iff.mp hz).2, ← write_payload, decodeText_write]
  have heq := (hbytes hx).symm.trans (hbytes hy)
  obtain ⟨hkind, hpayload⟩ := IdentifierKind.eq_of_append_eq (Except.ok.inj heq)
  exact eq_of_kind_of_payload hkind hpayload

end AnyIdentifier

/-- **The forms of identifiers are faithful.** An identifier with data of the right length is read
from its text, what is read has that text, and no text is read as two identifiers, of one sort or of
two. An address is read from its 22 bytes alone; an implicit account, and no other address, has a
form of 21 bytes from which alone it is read; and a key of the right length is read from its bytes
alone. -/
theorem Identifier.forms_faithful (text : String) (x y : AnyIdentifier) (bytes : List UInt8)
    (a : Address) (k : Key) :
    (x.HasLength → x.IsReadFrom x.text) ∧
    (x.IsReadFrom text → x.HasLength ∧ x.text = text) ∧
    (x.IsReadFrom text → y.IsReadFrom text → x = y) ∧
    (Address.ofBytes bytes = .ok a ↔ a.toBytes = bytes) ∧
    (Address.ofKeyHashBytes bytes = .ok a ↔ a.keyHashBytes = .ok bytes) ∧
    ((∃ form, a.keyHashBytes = .ok form) ↔ a.kind.isImplicit = true) ∧
    (Key.ofBytes bytes = .ok k ↔ k.toBytes = bytes ∧ k.data.length = k.kind.format.length) := by
  refine ⟨?_, AnyIdentifier.isReadFrom_iff.mp, AnyIdentifier.eq_of_isReadFrom,
    Address.ofBytes_eq_ok_iff, Address.ofKeyHashBytes_eq_ok_iff, Address.exists_keyHashBytes_iff,
    Key.ofBytes_eq_ok_iff⟩
  intro hlength
  exact AnyIdentifier.isReadFrom_iff.mpr ⟨hlength, rfl⟩

/-- A key of 48 bytes is read from its text and from its bytes, and a contract has no form of 21
bytes. -/
theorem Identifier.forms_faithful_bls12381 :
    let k : Key := ⟨.bls12381, List.replicate 48 7⟩
    let a : Address := ⟨.contract, List.replicate 20 5, rfl⟩
    Key.ofText k.text = .ok k ∧ Key.ofBytes (3 :: List.replicate 48 7) = .ok k ∧
      Address.ofText k.text ≠ .ok a ∧
      Address.ofBytes (1 :: List.replicate 20 5 ++ [0]) = .ok a ∧
      ¬∃ form, a.keyHashBytes = .ok form := by
  intro k a
  obtain ⟨hread, -, -, haddress, -, himplicit, -⟩ := forms_faithful k.text (.key k) (.address a)
    (1 :: List.replicate 20 5 ++ [0]) a k
  obtain ⟨-, -, hone, -, -, -, hkey⟩ := forms_faithful k.text (.key k) (.address a)
    (3 :: List.replicate 48 7) a k
  have hk : (AnyIdentifier.key k).IsReadFrom k.text := hread rfl
  refine ⟨hk, hkey.mpr ⟨rfl, rfl⟩, ?_, haddress.mpr rfl, ?_⟩
  · intro ha
    cases hone hk ha
  · rw [himplicit]
    decide

end Michelson

import Michelson.Identifier.Address
import Michelson.Identifier.Hash
import Michelson.Identifier.Key
import Michelson.Identifier.Signature
import Michelson.Proofs.Identifier.TextOrder

/-!
# What the texts of identifiers begin with

Every kind of address, key and signature has characters of its own with which all its texts begin.
So the texts of two kinds are ordered as these characters are, and those of one kind as the
payloads. In the binary form a tag tells the kind, if anything does, and the tags are not ordered
like the characters: contracts come before accounts as texts and after them as bytes.

## Main definitions

* `Identifier.Leads`: what the texts of several formats begin with
* `AddressKind.lead`, `KeyKind.lead`, `SignatureKind.lead`: the characters for each kind

## Main results

* `Identifier.Leads.compare_write`: texts of several formats
* `Address.compare_text_eq_compare_toBytes_iff`: addresses in both forms, with what follows them
* `Key.compare_text_eq_compare_toBytes_iff`, `Signature.compare_text_eq_compare_toBytes_iff`,
  `ChainId.compare_text`: keys, signatures and chain ids in both forms
-/

namespace Michelson

namespace Identifier

/-- What the texts of a format begin with, checked with the number of the characters behind it. -/
theorem Format.IsLead.of_count {format : Format} {text : String} (count : Nat)
    (h : (format.mark.headD 0 ≠ 0 ∧ (Text.Base58.values text).headD 0 ≠ 0 ∧
      text.toList.all (· ∈ Text.Base58.alphabet)) ∧
      count < 2 * (format.mark.length + format.length + 4) ∧
      58 ^ count * Text.Base58.number 58 (Text.Base58.values text) ≤
        256 ^ (format.length + 4) * Text.Base58.numberOf format.mark ∧
      256 ^ (format.length + 4) * (Text.Base58.numberOf format.mark + 1) ≤
        58 ^ count * (Text.Base58.number 58 (Text.Base58.values text) + 1)) :
    format.IsLead text :=
  ⟨h.1.1, h.1.2.1, h.1.2.2, count, h.2⟩

/-- **What the texts of several formats begin with**: none of these continues another. -/
structure Leads {κ : Type} (format : κ → Format) (lead : κ → String) : Prop where
  beginsWith : ∀ k, (format k).BeginsWith (lead k)
  apart : ∀ k l, k ≠ l → ¬(lead k).toList <+: (lead l).toList

section Leads

variable {κ : Type} {format : κ → Format} {lead : κ → String} {k l : κ}
  {payload payload' : List UInt8}

/-- Texts of one kind, with something behind them, are ordered as the payloads are, and then as what
is behind. -/
theorem Leads.compare_write_self (h : Leads format lead)
    (hpayload : payload.length = (format k).length)
    (hpayload' : payload'.length = (format k).length) (s s' : String) :
    compare ((format k).write payload ++ s) ((format k).write payload' ++ s') =
      (compare payload payload').then (compare s s') := by
  have hbegins := h.beginsWith k
  rw [compare_string, String.toList_append, String.toList_append,
    compare_append (Format.length_write_eq hbegins hpayload hpayload'), ← compare_string,
    ← compare_string, Format.compare_write hbegins hpayload hpayload']

/-- **Texts of two kinds** are ordered as what they begin with. -/
theorem Leads.compare_write (h : Leads format lead) (hne : k ≠ l)
    (hpayload : payload.length = (format k).length)
    (hpayload' : payload'.length = (format l).length) (s s' : String) :
    compare ((format k).write payload ++ s) ((format l).write payload' ++ s') =
      compare (lead k) (lead l) :=
  Format.compare_write_append (h.beginsWith k) (h.beginsWith l) (h.apart k l hne)
    (h.apart l k hne.symm) hpayload hpayload' s s'

end Leads

end Identifier

open Identifier

/-! ## Addresses -/

/-- What the texts of addresses of a kind begin with. -/
def AddressKind.lead : AddressKind → String
  | ed25519 => "tz1"
  | secp256k1 => "tz2"
  | p256 => "tz3"
  | bls12381 => "tz4"
  | contract => "KT1"
  | smartRollup => "sr1"

theorem AddressKind.leads : Leads format lead where
  beginsWith k := by
    have hlead : k.format.IsLead k.lead := by
      cases k <;> exact .of_count 33 (by decide)
    exact hlead.beginsWith
  apart k l := by cases k <;> cases l <;> decide

/-- The bytes in front of the hash of an address of a kind. -/
def AddressKind.front (kind : AddressKind) : List UInt8 :=
  match kind.implicitTag? with
  | some tag => [0, tag]
  | none => [if kind = .contract then 1 else 3]

/-- The bytes behind the hash of an address of a kind. -/
def AddressKind.back (kind : AddressKind) : List UInt8 := if kind.isImplicit then [] else [0]

theorem AddressKind.front_apart :
    ∀ k l : AddressKind, k ≠ l → ¬k.front <+: l.front := by
  intro k l
  cases k <;> cases l <;> decide

/-- What stands in front is ordered alike for two accounts and for two contracts or rollups, but
not for one of each. -/
theorem AddressKind.compare_lead_eq_iff {k l : AddressKind} (hne : k ≠ l) :
    compare k.lead l.lead = compare k.front l.front ↔ k.isImplicit = l.isImplicit := by
  cases k <;> cases l <;> first | exact absurd rfl hne | decide

namespace Address

variable {a b : Address}

theorem toBytes_append (a : Address) (xs : List UInt8) :
    a.toBytes ++ xs = a.kind.front ++ (a.hash.1 ++ (a.kind.back ++ xs)) := by
  obtain ⟨kind, hash⟩ := a
  cases kind <;> simp [toBytes, AddressKind.front, AddressKind.back, AddressKind.isImplicit,
    AddressKind.implicitTag?]

theorem length_hash (a : Address) : a.hash.1.length = a.kind.format.length := by
  rw [a.hash.2, AddressKind.length_format]

/-- **The texts of addresses of one kind.** -/
theorem compare_text (h : a.kind = b.kind) (s s' : String) :
    compare (a.text ++ s) (b.text ++ s') =
      (compare a.hash.1 b.hash.1).then (compare s s') := by
  have hb := b.length_hash
  rw [text, text, ← h]
  rw [← h] at hb
  exact AddressKind.leads.compare_write_self a.length_hash hb s s'

/-- **The bytes of addresses of one kind.** -/
theorem compare_toBytes (h : a.kind = b.kind) (xs ys : List UInt8) :
    compare (a.toBytes ++ xs) (b.toBytes ++ ys) =
      (compare a.hash.1 b.hash.1).then (compare xs ys) := by
  have hhash : a.hash.1.length = b.hash.1.length := by rw [a.hash.2, b.hash.2]
  rw [toBytes_append, toBytes_append, h, compare_append rfl, compare_append hhash,
    compare_append rfl]
  simp only [Std.ReflOrd.compare_self, Ordering.eq_then]

/-- **Two addresses are ordered alike** as texts and as bytes just if both are those of accounts or
neither is. What follows them has to be ordered alike. -/
theorem compare_text_eq_compare_toBytes_iff {s s' : String} {xs ys : List UInt8}
    (hrest : compare s s' = compare xs ys) :
    compare (a.text ++ s) (b.text ++ s') = compare (a.toBytes ++ xs) (b.toBytes ++ ys) ↔
      a.kind.isImplicit = b.kind.isImplicit := by
  by_cases hkind : a.kind = b.kind
  · rw [compare_text hkind, compare_toBytes hkind, hrest, hkind]
    exact ⟨fun _ => rfl, fun _ => rfl⟩
  · rw [toBytes_append, toBytes_append,
      compare_append_of_not_prefix (AddressKind.front_apart _ _ hkind)
        (AddressKind.front_apart _ _ (Ne.symm hkind)),
      ← AddressKind.compare_lead_eq_iff hkind, text, text,
      AddressKind.leads.compare_write hkind a.length_hash b.length_hash]

/-- **Key hashes are ordered alike** as texts and as bytes. -/
theorem compare_text_eq_compare_keyHash {xs ys : List UInt8} (ha : a.keyHashBytes = .ok xs)
    (hb : b.keyHashBytes = .ok ys) : compare a.text b.text = compare xs ys := by
  have hbytes {a : Address} {xs : List UInt8} (h : a.keyHashBytes = .ok xs) :
      a.toBytes = 0 :: xs ∧ a.kind.isImplicit = true := by
    unfold keyHashBytes at h
    split at h
    next tag htag =>
      cases h
      rw [toBytes, AddressKind.isImplicit, htag]
      exact ⟨rfl, rfl⟩
    next => cases h
  have hnone : compare "" "" = compare ([] : List UInt8) [] := rfl
  have hforms := (compare_text_eq_compare_toBytes_iff hnone).mpr
    ((hbytes ha).2.trans (hbytes hb).2.symm)
  rw [String.append_empty, String.append_empty, (hbytes ha).1, (hbytes hb).1] at hforms
  rw [hforms, List.append_nil, List.append_nil, List.compare_cons_cons]
  rfl

end Address

/-! ## Keys -/

/-- What the texts of keys of a kind begin with. -/
def KeyKind.lead : KeyKind → String
  | ed25519 => "edpk"
  | secp256k1 => "sppk"
  | p256 => "p2pk"
  | bls12381 => "BLpk"

theorem KeyKind.leads : Leads format lead where
  beginsWith k := by
    have hlead : k.format.IsLead k.lead := by
      cases k with
      | ed25519 => exact .of_count 50 (by decide)
      | secp256k1 | p256 => exact .of_count 51 (by decide)
      | bls12381 => exact .of_count 72 (by decide)
    exact hlead.beginsWith
  apart k l := by cases k <;> cases l <;> decide

theorem KeyKind.tag_injective : ∀ k l : KeyKind, k.tag = l.tag → k = l := by
  intro k l
  cases k <;> cases l <;> decide

/-- **Two keys are ordered alike** as texts and as bytes just if what the texts of their kinds begin
with is ordered as the tags of the kinds are. -/
theorem Key.compare_text_eq_compare_toBytes_iff {key key' : Key}
    (hkey : key.data.length = key.kind.format.length)
    (hkey' : key'.data.length = key'.kind.format.length) :
    compare key.text key'.text = compare key.toBytes key'.toBytes ↔
      compare key.kind.lead key'.kind.lead = compare key.kind.tag key'.kind.tag := by
  rw [toBytes, toBytes, List.compare_cons_cons, text, text]
  by_cases hkind : key.kind = key'.kind
  · rw [← hkind] at hkey' ⊢
    rw [Format.compare_write (KeyKind.leads.beginsWith _) hkey hkey']
    simp only [Std.ReflOrd.compare_self, Ordering.eq_then]
  · have hforms := KeyKind.leads.compare_write hkind hkey hkey' "" ""
    have htag : compare key.kind.tag key'.kind.tag ≠ .eq := fun heq =>
      hkind (KeyKind.tag_injective _ _ (Std.LawfulEqOrd.eq_of_compare heq))
    rw [String.append_empty, String.append_empty] at hforms
    rw [hforms, then_of_ne_eq htag]

/-! ## Signatures and chain ids -/

/-- What the texts of signatures of a kind begin with. -/
def SignatureKind.lead : SignatureKind → String
  | generic => "sig"
  | ed25519 => "edsig"
  | secp256k1 => "spsig1"
  | p256 => "p2sig"
  | bls12381 => "BLsig"

theorem SignatureKind.leads : Leads format lead where
  beginsWith k := by
    have hlead : k.format.IsLead k.lead := by
      cases k with
      | generic | secp256k1 | p256 => exact .of_count 93 (by decide)
      | ed25519 => exact .of_count 94 (by decide)
      | bls12381 => exact .of_count 137 (by decide)
    exact hlead.beginsWith
  apart k l := by cases k <;> cases l <;> decide

/-- **Two signatures are ordered alike** as texts and as bytes just if they are of one kind, or what
the texts of their kinds begin with is ordered as the bytes are. -/
theorem Signature.compare_text_eq_compare_toBytes_iff {signature signature' : Signature}
    (hlength : signature.data.length = signature.kind.format.length)
    (hlength' : signature'.data.length = signature'.kind.format.length) :
    compare signature.text signature'.text = compare signature.toBytes signature'.toBytes ↔
      signature.kind = signature'.kind ∨
        compare signature.kind.lead signature'.kind.lead =
          compare signature.data signature'.data := by
  rw [toBytes, toBytes, text, text]
  by_cases hkind : signature.kind = signature'.kind
  · rw [← hkind] at hlength' ⊢
    rw [Format.compare_write (SignatureKind.leads.beginsWith _) hlength hlength']
    exact ⟨fun _ => .inl rfl, fun _ => rfl⟩
  · have hforms := SignatureKind.leads.compare_write hkind hlength hlength' "" ""
    rw [String.append_empty, String.append_empty] at hforms
    rw [hforms, or_iff_right hkind]

/-- **Chain ids are ordered alike** as texts and as bytes. -/
theorem ChainId.compare_text (id id' : ChainId) :
    compare id.text id'.text = compare id.bytes.1 id'.bytes.1 := by
  have hbegins : format.BeginsWith "Net" := Format.IsLead.beginsWith (by decide)
  exact Format.compare_write hbegins id.bytes.2 id'.bytes.2

end Michelson

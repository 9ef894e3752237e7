import Arveil.Lib.Cbor
import Arveil.Sanity.Demo
import Arveil.Spec.RelayIdentity

/-! A CBOR reader that can be evaluated, for items of definite length without tags, and a
cryptography whose objects are written and read in CBOR. -/

namespace Arveil.Demo

inductive Value where
  | uint (n : Nat)
  | bytes (b : Bytes)
  | text (b : Bytes)
  | array (items : List Value)
  | map (entries : List (Value × Value))

/-- The bytes of the number behind a head. -/
def width (low : Nat) : Option Nat :=
  if low = 24 then some 1 else if low = 25 then some 2 else if low = 26 then some 4 else if low = 27 then some 8 else none

def take (n : Nat) (b : Bytes) : Option (Bytes × Bytes) := if n ≤ b.length then some (b.take n, b.drop n) else none

def readHead : Bytes → Option ((Nat × Nat) × Bytes)
  | [] => none
  | b :: rest =>
      if b.toNat % 32 < 24 then some ((b.toNat / 32, b.toNat % 32), rest)
      else (width (b.toNat % 32)).bind fun k =>
        (take k rest).map fun p => ((b.toNat / 32, p.1.foldl (fun n x => n * 256 + x.toNat) 0), p.2)

def many {α : Type} (read : Bytes → Option (α × Bytes)) : Nat → Bytes → Option (List α × Bytes)
  | 0, b => some ([], b)
  | n + 1, b => (read b).bind fun p => (many read n p.2).map fun q => (p.1 :: q.1, q.2)

def pair {α : Type} (read : Bytes → Option (α × Bytes)) (b : Bytes) : Option ((α × α) × Bytes) :=
  (read b).bind fun p => (read p.2).map fun q => ((p.1, q.1), q.2)

/-- One item nested no deeper than the first argument. -/
def readValue : Nat → Bytes → Option (Value × Bytes)
  | 0, _ => none
  | depth + 1, b => (readHead b).bind fun h =>
      match h.1.1 with
      | 0 => some (.uint h.1.2, h.2)
      | 2 => (take h.1.2 h.2).map fun p => (.bytes p.1, p.2)
      | 3 => (take h.1.2 h.2).map fun p => (.text p.1, p.2)
      | 4 => (many (readValue depth) h.1.2 h.2).map fun p => (.array p.1, p.2)
      | 5 => (many (pair (readValue depth)) h.1.2 h.2).map fun p => (.map p.1, p.2)
      | _ => none

/-- What follows an item does not change it. -/
def Stable {α : Type} (read : Bytes → Option (α × Bytes)) : Prop :=
  ∀ b a rest tail, read b = some (a, rest) → read (b ++ tail) = some (a, rest ++ tail)

theorem stable_take (n : Nat) : Stable (take n) := by
  intro b a rest tail h
  unfold take at h ⊢
  split at h
  · next hle =>
    obtain ⟨rfl, rfl⟩ := Prod.mk.inj (Option.some.inj h)
    rw [if_pos (by rw [List.length_append]; omega), List.take_append_of_le_length hle, List.drop_append_of_le_length hle]
  · cases h

theorem stable_readHead : Stable readHead := by
  intro b a rest tail h
  cases b with
  | nil => cases h
  | cons x b =>
    simp only [readHead, List.cons_append] at h ⊢
    split at h
    · next hlow =>
      obtain ⟨rfl, rfl⟩ := Prod.mk.inj (Option.some.inj h)
      rw [if_pos hlow]
    · next hlow =>
      rw [if_neg hlow]
      obtain ⟨k, hk, h⟩ := Option.bind_eq_some_iff.1 h
      obtain ⟨p, hp, h⟩ := Option.map_eq_some_iff.1 h
      obtain ⟨rfl, rfl⟩ := Prod.mk.inj h
      rw [hk, Option.bind_some, stable_take k b p.1 p.2 tail hp]
      rfl

theorem stable_many {α : Type} {read : Bytes → Option (α × Bytes)} (hread : Stable read) (n : Nat) : Stable (many read n) := by
  induction n with
  | zero =>
    intro b a rest tail h
    obtain ⟨rfl, rfl⟩ := Prod.mk.inj (Option.some.inj h)
    rfl
  | succ n ih =>
    intro b a rest tail h
    obtain ⟨p, hp, h⟩ := Option.bind_eq_some_iff.1 h
    obtain ⟨q, hq, h⟩ := Option.map_eq_some_iff.1 h
    obtain ⟨rfl, rfl⟩ := Prod.mk.inj h
    simp only [many, hread b p.1 p.2 tail hp, Option.bind_some, ih p.2 q.1 q.2 tail hq, Option.map_some]

theorem stable_pair {α : Type} {read : Bytes → Option (α × Bytes)} (hread : Stable read) : Stable (pair read) := by
  intro b a rest tail h
  obtain ⟨p, hp, h⟩ := Option.bind_eq_some_iff.1 h
  obtain ⟨q, hq, h⟩ := Option.map_eq_some_iff.1 h
  obtain ⟨rfl, rfl⟩ := Prod.mk.inj h
  simp only [pair, hread b p.1 p.2 tail hp, Option.bind_some, hread p.2 q.1 q.2 tail hq, Option.map_some]

theorem stable_map {α β : Type} {read : Bytes → Option (α × Bytes)} (hread : Stable read) (f : α → β) :
    Stable fun b => (read b).map fun p => (f p.1, p.2) := by
  intro b a rest tail h
  obtain ⟨p, hp, h⟩ := Option.map_eq_some_iff.1 h
  obtain ⟨rfl, rfl⟩ := Prod.mk.inj h
  simp only [hread b p.1 p.2 tail hp, Option.map_some]

theorem stable_readValue (depth : Nat) : Stable (readValue depth) := by
  induction depth with
  | zero =>
    intro b a rest tail h
    cases h
  | succ depth ih =>
    intro b a rest tail h
    obtain ⟨⟨⟨major, n⟩, r⟩, hh, h⟩ := Option.bind_eq_some_iff.1 h
    have hhead := stable_readHead b (major, n) r tail hh
    simp only [readValue, hhead, Option.bind_some]
    simp only at h
    split at h
    · obtain ⟨rfl, rfl⟩ := Prod.mk.inj (Option.some.inj h)
      rfl
    · exact stable_map (stable_take n) Value.bytes r a rest tail h
    · exact stable_map (stable_take n) Value.text r a rest tail h
    · exact stable_map (stable_many ih n) Value.array r a rest tail h
    · exact stable_map (stable_many (stable_pair ih) n) Value.map r a rest tail h
    · cases h

def under (key : String) (entries : List (Value × Value)) : List Value :=
  entries.filterMap fun
    | (.text b, v) => if b = utf8 key then some v else none
    | _ => none

def asBytes : Value → Option Bytes
  | .bytes b => some b
  | _ => none

/-- Text of the first 128 characters. -/
def asText : Value → Option String
  | .text b => if b.all (· < 128) then some (String.ofList (b.map fun x => Char.ofNat x.toNat)) else none
  | _ => none

def asUint8 : Value → Option UInt8
  | .uint n => if n < 2 ^ 8 then some (UInt8.ofNat n) else none
  | _ => none

def asUint64 : Value → Option UInt64
  | .uint n => if n < 2 ^ 64 then some (UInt64.ofNat n) else none
  | _ => none

def asHashes : Value → Option (List Bytes)
  | .array items => items.mapM asBytes
  | _ => none

def asValidity : Value → Option ValidityFields
  | .map es => do pure ⟨← (under "not_before" es).mapM asUint64, ← (under "not_after" es).mapM asUint64⟩
  | _ => none

def asSigned : Value → Option SignedFields
  | .map es => do
      pure ⟨← (under "context" es).mapM asText, ← (under "body" es).mapM asBytes, ← (under "signature" es).mapM asBytes⟩
  | _ => none

def asCredential : Value → Option CredentialFields
  | .map es => do
      pure ⟨← (under "version" es).mapM asUint8, ← (under "identity_root_public_key" es).mapM asBytes,
        ← (under "device_id" es).mapM asBytes, ← (under "mls_signature_public_key" es).mapM asBytes,
        ← (under "transport_noise_public_key" es).mapM asBytes, ← (under "envelope_hpke_public_key" es).mapM asBytes,
        ← (under "validity" es).mapM asValidity, ← (under "allowed_uses" es).mapM asUint8⟩
  | _ => none

def asManifest : Value → Option ManifestFields
  | .map es => do
      pure ⟨← (under "version" es).mapM asUint8, ← (under "identity_id" es).mapM asBytes,
        ← (under "manifest_sequence" es).mapM asUint64, ← (under "previous_manifest_hash" es).mapM asBytes,
        ← (under "active_credential_hashes" es).mapM asHashes, ← (under "revoked_credential_hashes" es).mapM asHashes⟩
  | _ => none

def itemAs {α : Type} (as : Value → Option α) (b : Bytes) : Option (α × Bytes) :=
  (readValue 8 b).bind fun p => (as p.1).map fun a => (a, p.2)

def cborItems : CborItems := ⟨itemAs asSigned, itemAs asCredential, itemAs asManifest⟩

theorem stable_itemAs {α : Type} (as : Value → Option α) : Stable (itemAs as) := by
  intro b a rest tail h
  obtain ⟨p, hp, h⟩ := Option.bind_eq_some_iff.1 h
  obtain ⟨x, hx, h⟩ := Option.map_eq_some_iff.1 h
  obtain ⟨rfl, rfl⟩ := Prod.mk.inj h
  simp only [itemAs, stable_readValue 8 b p.1 p.2 tail hp, Option.bind_some, hx, Option.map_some]

def entry (key : String) (value : Bytes) : Bytes × Bytes := (Cbor.text (utf8 key), value)

def writeSigned (so : SignedObject) : Bytes :=
  Cbor.map [entry "body" (Cbor.bytes so.body), entry "context" (Cbor.text (utf8 so.context)),
    entry "signature" (Cbor.bytes so.signature)]

def writeCredential (c : DeviceCredential) : Bytes :=
  Cbor.map [entry "version" (Cbor.uint c.version.toNat),
    entry "validity" (Cbor.map [entry "not_after" (Cbor.uint c.validity.notAfter.toNat),
      entry "not_before" (Cbor.uint c.validity.notBefore.toNat)]),
    entry "device_id" (Cbor.bytes c.deviceId), entry "allowed_uses" (Cbor.uint c.allowedUses.toNat),
    entry "envelope_hpke_public_key" (Cbor.bytes c.envelopeHpkePublicKey),
    entry "identity_root_public_key" (Cbor.bytes c.identityRootPublicKey),
    entry "mls_signature_public_key" (Cbor.bytes c.mlsSignaturePublicKey),
    entry "transport_noise_public_key" (Cbor.bytes c.transportNoisePublicKey)]

def writeHashes (hashes : List Bytes) : Bytes := Cbor.array (hashes.map Cbor.bytes)

/-- The entries of a manifest but for the revoked hashes. -/
def manifestEntries (m : DeviceManifest) : List (Bytes × Bytes) :=
  [entry "version" (Cbor.uint m.version.toNat), entry "identity_id" (Cbor.bytes m.identityId),
    entry "manifest_sequence" (Cbor.uint m.manifestSequence.toNat),
    entry "previous_manifest_hash" (Cbor.bytes m.previousManifestHash),
    entry "active_credential_hashes" (writeHashes m.activeCredentialHashes)]

def writeManifest (m : DeviceManifest) : Bytes :=
  Cbor.map (manifestEntries m ++ [entry "revoked_credential_hashes" (writeHashes m.revokedCredentialHashes)])

def ofOption {α : Type} : Option α → Except String α
  | some a => .ok a
  | none => .error "malformed"

theorem toOption_ofOption {α : Type} (o : Option α) : (ofOption o).toOption = o := by
  cases o <;> rfl

def cborCrypto : Crypto :=
  { crypto with
    encodeSigned := writeSigned
    decodeSigned := fun b => ofOption (fromReader cborItems.signed SignedFields.Once SignedFields.first b)
    encodeCredential := writeCredential
    decodeCredential := fun b => ofOption (fromReader cborItems.credential CredentialFields.Once CredentialFields.first b)
    encodeManifest := writeManifest
    decodeManifest := fun b => ofOption (fromReader cborItems.manifest ManifestFields.Once ManifestFields.first b) }

theorem cborItems_readBy : cborItems.ReadBy cborCrypto where
  signed _ := toOption_ofOption _
  credential _ := toOption_ofOption _
  manifest _ := toOption_ofOption _

end Arveil.Demo

import Arveil.Spec.Identity

/-! The relay's verifier of identity objects (`relay/internal/identity/identity.go`) beside
the core's (`identity/mod.rs`). Both read CBOR maps into structs, each with a reader of its
own: the relay's refuses what follows an item and leaves an absent field zero, the core's
ignores what follows and refuses an absent field. Neither minds a key it does not know. -/

namespace Arveil

/-- What a map holds: for each field the values that stand under its key, in their order. -/
structure SignedFields where
  context : List String
  body : List Bytes
  signature : List Bytes
deriving DecidableEq, Repr

structure ValidityFields where
  notBefore : List UInt64
  notAfter : List UInt64
deriving DecidableEq, Repr

structure CredentialFields where
  version : List UInt8
  identityRootPublicKey : List Bytes
  deviceId : List Bytes
  mlsSignaturePublicKey : List Bytes
  transportNoisePublicKey : List Bytes
  envelopeHpkePublicKey : List Bytes
  validity : List ValidityFields
  allowedUses : List UInt8
deriving DecidableEq, Repr

structure ManifestFields where
  version : List UInt8
  identityId : List Bytes
  manifestSequence : List UInt64
  previousManifestHash : List Bytes
  activeCredentialHashes : List (List Bytes)
  revokedCredentialHashes : List (List Bytes)
deriving DecidableEq, Repr

/-- The one item at the start of the bytes, read as the map of a struct, and what follows
it. Keys that are no field are left out. -/
structure CborItems where
  signed : Bytes → Option (SignedFields × Bytes)
  credential : Bytes → Option (CredentialFields × Bytes)
  manifest : Bytes → Option (ManifestFields × Bytes)

/-- The relay's reader takes the first value of a key, or zero. -/
def SignedFields.first (f : SignedFields) : SignedObject where
  context := f.context.head?.getD ""
  body := f.body.head?.getD []
  signature := f.signature.head?.getD []

def ValidityFields.first (f : ValidityFields) : Validity where
  notBefore := f.notBefore.head?.getD 0
  notAfter := f.notAfter.head?.getD 0

def CredentialFields.first (f : CredentialFields) : DeviceCredential where
  version := f.version.head?.getD 0
  identityRootPublicKey := f.identityRootPublicKey.head?.getD []
  deviceId := f.deviceId.head?.getD []
  mlsSignaturePublicKey := f.mlsSignaturePublicKey.head?.getD []
  transportNoisePublicKey := f.transportNoisePublicKey.head?.getD []
  envelopeHpkePublicKey := f.envelopeHpkePublicKey.head?.getD []
  validity := (f.validity.head?.map (·.first)).getD ⟨0, 0⟩
  allowedUses := f.allowedUses.head?.getD 0

def ManifestFields.first (f : ManifestFields) : DeviceManifest where
  version := f.version.head?.getD 0
  identityId := f.identityId.head?.getD []
  manifestSequence := f.manifestSequence.head?.getD 0
  previousManifestHash := f.previousManifestHash.head?.getD []
  activeCredentialHashes := f.activeCredentialHashes.head?.getD []
  revokedCredentialHashes := f.revokedCredentialHashes.head?.getD []

/-- `cbor.Unmarshal`: the item must fill the bytes. -/
def unmarshal {φ α : Type} (item : Bytes → Option (φ × Bytes)) (first : φ → α) (b : Bytes) : Option α :=
  match item b with
  | some (f, []) => some (first f)
  | _ => none

/-- The core's reader asks for every field once. -/
def SignedFields.Once (f : SignedFields) : Prop :=
  f.context.length = 1 ∧ f.body.length = 1 ∧ f.signature.length = 1

def ValidityFields.Once (f : ValidityFields) : Prop := f.notBefore.length = 1 ∧ f.notAfter.length = 1

def CredentialFields.Once (f : CredentialFields) : Prop :=
  f.version.length = 1 ∧ f.identityRootPublicKey.length = 1 ∧ f.deviceId.length = 1 ∧ f.mlsSignaturePublicKey.length = 1 ∧
    f.transportNoisePublicKey.length = 1 ∧ f.envelopeHpkePublicKey.length = 1 ∧
    (f.validity.length = 1 ∧ ∀ v ∈ f.validity, v.Once) ∧ f.allowedUses.length = 1

def ManifestFields.Once (f : ManifestFields) : Prop :=
  f.version.length = 1 ∧ f.identityId.length = 1 ∧ f.manifestSequence.length = 1 ∧ f.previousManifestHash.length = 1 ∧
    f.activeCredentialHashes.length = 1 ∧ f.revokedCredentialHashes.length = 1

instance (f : SignedFields) : Decidable f.Once := inferInstanceAs (Decidable (_ ∧ _))

instance (f : ValidityFields) : Decidable f.Once := inferInstanceAs (Decidable (_ ∧ _))

instance (f : CredentialFields) : Decidable f.Once := inferInstanceAs (Decidable (_ ∧ _))

instance (f : ManifestFields) : Decidable f.Once := inferInstanceAs (Decidable (_ ∧ _))

/-- `ciborium::from_reader`: one item is read, with each field exactly once. -/
def fromReader {φ α : Type} (item : Bytes → Option (φ × Bytes)) (Once : φ → Prop) [DecidablePred Once] (first : φ → α)
    (b : Bytes) : Option α :=
  match item b with
  | some (f, _) => if Once f then some (first f) else none
  | none => none

/-- The core's decoders read these items. -/
structure CborItems.ReadBy (items : CborItems) (cx : Crypto) : Prop where
  signed : ∀ b, (cx.decodeSigned b).toOption = fromReader items.signed SignedFields.Once SignedFields.first b
  credential : ∀ b, (cx.decodeCredential b).toOption =
    fromReader items.credential CredentialFields.Once CredentialFields.first b
  manifest : ∀ b, (cx.decodeManifest b).toOption = fromReader items.manifest ManifestFields.Once ManifestFields.first b

namespace RelayIdentity

variable (cx : Crypto) (items : CborItems)

inductive Error where
  | decode
  | badSignature
  | wrongContext
  | version
  | notValidNow
  | identityId
deriving DecidableEq, Repr

/-- `ed25519.Verify`, the predicate both sides have: a key that is none or a signature of
another length verifies nothing. -/
def ed25519Verify (key message signature : Bytes) : Bool :=
  cx.validKey key && decide (signature.length = 64) && cx.verifyStrict key message signature

def openSigned (signed : Bytes) (context : String) (key : Bytes) : Except Error Bytes :=
  match unmarshal items.signed SignedFields.first signed with
  | none => .error .decode
  | some so =>
      if so.context ≠ context then .error .wrongContext
      else if key.length ≠ 32 ∨ ed25519Verify cx key (Identity.signingInput so.context so.body) so.signature = false then
        .error .badSignature
      else .ok so.body

structure VerifiedCredential where
  credential : DeviceCredential
  root : Bytes
  identityId : Bytes
  hash : Bytes
deriving DecidableEq, Repr

def verifyCredential (signed : Bytes) (now : UInt64) : Except Error VerifiedCredential :=
  match unmarshal items.signed SignedFields.first signed with
  | none => .error .decode
  | some so =>
    match unmarshal items.credential CredentialFields.first so.body with
    | none => .error .decode
    | some c =>
      if c.version ≠ credentialVersion then .error .version
      else match openSigned cx items signed credentialContext c.identityRootPublicKey with
      | .error e => .error e
      | .ok _ =>
        if now < c.validity.notBefore ∨ now > c.validity.notAfter then .error .notValidNow
        else .ok ⟨c, c.identityRootPublicKey, Identity.identityId cx c.identityRootPublicKey, Identity.credentialHash cx signed⟩

def verifyManifest (signed root : Bytes) : Except Error DeviceManifest :=
  match openSigned cx items signed manifestContext root with
  | .error e => .error e
  | .ok body =>
    match unmarshal items.manifest ManifestFields.first body with
    | none => .error .decode
    | some m =>
      if m.version ≠ manifestVersion then .error .version
      else if m.identityId ≠ Identity.identityId cx root then .error .identityId
      else .ok m

end RelayIdentity

end Arveil

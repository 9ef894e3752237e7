import Arveil.Spec.Base

/-! Signed objects, device credentials and device manifests
(`signed.rs`, `identity/mod.rs`). Ed25519, SHA-256 and CBOR are the functions of
a `Crypto`; nothing here assumes more of them than it says. -/

namespace Arveil

structure SignedObject where
  context : String
  body : Bytes
  signature : Bytes
deriving DecidableEq, Repr

structure Validity where
  notBefore : UInt64
  notAfter : UInt64
deriving DecidableEq, Repr

structure DeviceCredential where
  version : UInt8
  identityRootPublicKey : Bytes
  deviceId : Bytes
  mlsSignaturePublicKey : Bytes
  transportNoisePublicKey : Bytes
  envelopeHpkePublicKey : Bytes
  validity : Validity
  allowedUses : UInt8
deriving DecidableEq, Repr

structure DeviceManifest where
  version : UInt8
  identityId : Bytes
  manifestSequence : UInt64
  previousManifestHash : Bytes
  activeCredentialHashes : List Bytes
  revokedCredentialHashes : List Bytes
deriving DecidableEq, Repr

structure DevicePublicKeys where
  deviceId : Bytes
  mlsSignaturePublicKey : Bytes
  transportNoisePublicKey : Bytes
  envelopeHpkePublicKey : Bytes
deriving DecidableEq, Repr

/-- The cryptography and the CBOR the identity layer calls. -/
structure Crypto where
  sha256 : Bytes → Bytes
  publicKey : Bytes → Bytes
  sign : Bytes → Bytes → Bytes
  /-- `VerifyingKey::from_bytes` accepts these 32 bytes -/
  validKey : Bytes → Bool
  verifyStrict : Bytes → Bytes → Bytes → Bool
  encodeSigned : SignedObject → Bytes
  decodeSigned : Bytes → Except String SignedObject
  encodeCredential : DeviceCredential → Bytes
  decodeCredential : Bytes → Except String DeviceCredential
  encodeManifest : DeviceManifest → Bytes
  decodeManifest : Bytes → Except String DeviceManifest
  encodeHashes : List Bytes → Bytes
  decodeHashes : Bytes → Except String (List Bytes)

/-- What the code relies on: what was encoded decodes to itself, and a signature
made with a seed verifies under its public key. -/
structure Crypto.Lawful (cx : Crypto) : Prop where
  decode_signed : ∀ so, cx.decodeSigned (cx.encodeSigned so) = .ok so
  decode_credential : ∀ c, cx.decodeCredential (cx.encodeCredential c) = .ok c
  decode_manifest : ∀ m, cx.decodeManifest (cx.encodeManifest m) = .ok m
  decode_hashes : ∀ hs, cx.decodeHashes (cx.encodeHashes hs) = .ok hs
  sign_length : ∀ seed msg, (cx.sign seed msg).length = 64
  verify_sign : ∀ seed msg, cx.verifyStrict (cx.publicKey seed) msg (cx.sign seed msg) = true

inductive SignedError where
  | decode (e : String)
  | wrongContext (expected got : String)
  | badSignature
deriving DecidableEq, Repr

def SignedError.message : SignedError → String
  | .decode e => "signed object: decode: " ++ e
  | .wrongContext expected got =>
      "signed object: expected context " ++ expected.quote ++ ", got " ++ got.quote
  | .badSignature => "signed object: bad signature"

inductive IdentityError where
  | signed (e : SignedError)
  | unsupportedVersion (v : UInt8)
  | rootMismatch
  | notValidAt (t : UInt64)
  | identityMismatch
  | manifestRollback (got known : UInt64)
  | manifestConflict (sequence : UInt64)
  | chainBroken
  | bindingMismatch (what : String)
  | notActive
deriving DecidableEq, Repr

def IdentityError.message : IdentityError → String
  | .signed e => e.message
  | .unsupportedVersion v => "identity: unsupported version " ++ toString v
  | .rootMismatch => "identity: credential root does not match the expected root"
  | .notValidAt t => "identity: credential not valid at time " ++ toString t
  | .identityMismatch => "identity: manifest identity id does not match the root"
  | .manifestRollback got known =>
      "identity: manifest sequence " ++ toString got ++ " does not exceed known " ++ toString known
  | .manifestConflict s =>
      "identity: manifest sequence " ++ toString s ++ " conflicts with a different manifest of the same sequence"
  | .chainBroken => "identity: manifest chain broken (previous hash mismatch)"
  | .bindingMismatch what => "identity: the credential does not name this " ++ what
  | .notActive => "identity: the credential is not active in the identity's newest manifest"

def credentialContext : String := "arveil/device-credential/v1"
def manifestContext : String := "arveil/device-manifest/v1"
def identityIdContext : String := "arveil/identity-id/v1"
def credentialHashContext : String := "arveil/credential-hash/v1"
def manifestHashContext : String := "arveil/manifest-hash/v1"

def credentialVersion : UInt8 := 1
def manifestVersion : UInt8 := 1

def useMlsLeaf : UInt8 := 0b001
def useTransport : UInt8 := 0b010
def useEnvelope : UInt8 := 0b100

namespace Identity

variable (cx : Crypto)

def signingInput (context : String) (body : Bytes) : Bytes :=
  let len := (utf8 context).length % 2 ^ 16
  [(len / 256).toUInt8, (len % 256).toUInt8] ++ utf8 context ++ body

def sign (context : String) (body seed : Bytes) : Bytes :=
  cx.encodeSigned ⟨context, body, cx.sign seed (signingInput context body)⟩

/-- Verify a signed object against `key` and `context`; returns the body bytes. -/
def verify (signed : Bytes) (context : String) (key : Bytes) : Except SignedError Bytes :=
  match cx.decodeSigned signed with
  | .error e => .error (.decode e)
  | .ok so =>
      if so.context ≠ context then .error (.wrongContext context so.context)
      else if so.signature.length ≠ 64 then .error .badSignature
      else if cx.verifyStrict key (signingInput so.context so.body) so.signature then .ok so.body
      else .error .badSignature

def hash (context : String) (data : Bytes) : Bytes := cx.sha256 (utf8 context ++ data)

def identityId (rootPublic : Bytes) : Bytes := hash cx identityIdContext rootPublic
def credentialHash (signedCredential : Bytes) : Bytes := hash cx credentialHashContext signedCredential
def manifestHash (signedManifest : Bytes) : Bytes := hash cx manifestHashContext signedManifest

/-- 32 bytes that `VerifyingKey::from_bytes` accepts. -/
def verifyingKey (b : Bytes) : Option Bytes :=
  if b.length = 32 ∧ cx.validKey b = true then some b else none

def issueCredential (seed : Bytes) (device : DevicePublicKeys) (validity : Validity) (allowedUses : UInt8) : Bytes :=
  sign cx credentialContext (cx.encodeCredential
    { version := credentialVersion
      identityRootPublicKey := cx.publicKey seed
      deviceId := device.deviceId
      mlsSignaturePublicKey := device.mlsSignaturePublicKey
      transportNoisePublicKey := device.transportNoisePublicKey
      envelopeHpkePublicKey := device.envelopeHpkePublicKey
      validity := validity
      allowedUses := allowedUses }) seed

structure VerifiedCredential where
  credential : DeviceCredential
  root : Bytes
  hash : Bytes
deriving DecidableEq, Repr

/-- The root is read from the body and the signature checked against it; a known
root must match. -/
def verifyCredential (signed : Bytes) (expectedRoot : Option Bytes) (now : UInt64) :
    Except IdentityError VerifiedCredential :=
  match cx.decodeSigned signed with
  | .error e => .error (.signed (.decode e))
  | .ok so =>
    match cx.decodeCredential so.body with
    | .error e => .error (.signed (.decode e))
    | .ok body =>
      if body.version ≠ credentialVersion then .error (.unsupportedVersion body.version)
      else if body.identityRootPublicKey.length ≠ 32 then .error (.signed (.decode "root key length"))
      else match verifyingKey cx body.identityRootPublicKey with
      | none => .error (.signed (.decode "root key"))
      | some root =>
        if expectedRoot.any (· ≠ root) then .error .rootMismatch
        else match verify cx signed credentialContext root with
        | .error e => .error (.signed e)
        | .ok _ =>
          if now < body.validity.notBefore ∨ now > body.validity.notAfter then .error (.notValidAt now)
          else .ok ⟨body, root, credentialHash cx signed⟩

structure ManifestState where
  sequence : UInt64
  hash : Bytes
deriving DecidableEq, Repr

def issueManifest (seed : Bytes) (previous : Option ManifestState) (active revoked : List Bytes) : Bytes :=
  sign cx manifestContext (cx.encodeManifest
    { version := manifestVersion
      identityId := identityId cx (cx.publicKey seed)
      manifestSequence := previous.elim 1 (·.sequence + 1)
      previousManifestHash := previous.elim [] (·.hash)
      activeCredentialHashes := active
      revokedCredentialHashes := revoked }) seed

/-- The body of a manifest, verified under `root` and bound to its identity. -/
def verifyManifest (signed root : Bytes) : Except IdentityError DeviceManifest :=
  match verify cx signed manifestContext root with
  | .error e => .error (.signed e)
  | .ok bytes =>
    match cx.decodeManifest bytes with
    | .error e => .error (.signed (.decode e))
    | .ok body =>
      if body.version ≠ manifestVersion then .error (.unsupportedVersion body.version)
      else if body.identityId ≠ identityId cx root then .error .identityMismatch
      else .ok body

/-- Rollbacks are refused, an equal sequence with different content is a
conflict, and the chain must link to the known hash. A jump of more than one is
accepted unchecked. -/
def checkChain (body : DeviceManifest) (hash : Bytes) : Option ManifestState → Except IdentityError ManifestState
  | none => .ok ⟨body.manifestSequence, hash⟩
  | some k =>
      if body.manifestSequence = k.sequence then
        if hash = k.hash then .ok ⟨k.sequence, hash⟩ else .error (.manifestConflict k.sequence)
      else if body.manifestSequence < k.sequence then
        .error (.manifestRollback body.manifestSequence k.sequence)
      else if body.manifestSequence = k.sequence + 1 ∧ body.previousManifestHash ≠ k.hash then .error .chainBroken
      else .ok ⟨body.manifestSequence, hash⟩

/-- Verify a manifest against the root and the newest known state. -/
def acceptManifest (signed root : Bytes) (known : Option ManifestState) :
    Except IdentityError (DeviceManifest × ManifestState) :=
  match verifyManifest cx signed root with
  | .error e => .error e
  | .ok body =>
    match checkChain body (manifestHash cx signed) known with
    | .error e => .error e
    | .ok state => .ok (body, state)

/-- The body a manifest claims, read before any verification. -/
def peekManifest (signed : Bytes) : Option DeviceManifest :=
  match cx.decodeSigned signed with
  | .error _ => none
  | .ok so => (cx.decodeManifest so.body).toOption

def manifestIdentityUnverified (signed : Bytes) : Option Bytes := (peekManifest cx signed).map (·.identityId)

/-- What a route or a contact card claims about one device of a person. -/
structure ClaimedDevice where
  root : Bytes
  deviceId : Bytes
  credentialHash : Bytes
  envelopeHpkePublicKey : Bytes

/-- Bind a claimed device to what its root signed. -/
def verifyClaimedDevice (claimed : ClaimedDevice) (signedCredential signedManifest : Bytes) (now : UInt64) :
    Except IdentityError DeviceCredential :=
  match verifyCredential cx signedCredential (some claimed.root) now with
  | .error e => .error e
  | .ok verified =>
    let c := verified.credential
    if verified.hash ≠ claimed.credentialHash then .error (.bindingMismatch "credential hash")
    else if c.deviceId ≠ claimed.deviceId then .error (.bindingMismatch "device")
    else if c.envelopeHpkePublicKey ≠ claimed.envelopeHpkePublicKey then .error (.bindingMismatch "envelope key")
    else if c.allowedUses &&& (useMlsLeaf ||| useEnvelope) ≠ (useMlsLeaf ||| useEnvelope) then
      .error (.bindingMismatch "use")
    else match acceptManifest cx signedManifest claimed.root none with
    | .error e => .error e
    | .ok (manifest, _) =>
      if verified.hash ∈ manifest.activeCredentialHashes then .ok c else .error .notActive

end Identity

end Arveil

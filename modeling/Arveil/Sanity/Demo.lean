import Arveil.Lib.Wire
import Arveil.Spec.Identity

/-! A cryptography that can be evaluated. It satisfies everything the identity
layer relies on, so the hypotheses about `Crypto` have an instance and the
statements can be tried on concrete profiles. -/

namespace Arveil.Demo

theorem ok_of_toOption {ε α : Type} {r : Except ε α} {a : α} (h : r.toOption = some a) : r = .ok a := by
  cases r with
  | error e => cases h
  | ok b => exact congrArg Except.ok (Option.some.inj h)

theorem run_of_toOption {σ ε α : Type} {r : Except ε α × σ} {a : α} (h : r.1.toOption = some a) : r = (.ok a, r.2) :=
  Prod.ext (ok_of_toOption h) rfl

def signedObject : Wire SignedObject :=
  (Wire.text.both (Wire.bytes.both Wire.bytes)).via (fun p => ⟨p.1, p.2.1, p.2.2⟩)
    (fun o => (o.context, o.body, o.signature)) (fun _ => rfl)

def credential : Wire DeviceCredential :=
  (Wire.byte.both (Wire.bytes.both (Wire.bytes.both (Wire.bytes.both (Wire.bytes.both (Wire.bytes.both
    (Wire.uint64.both (Wire.uint64.both Wire.byte)))))))).via
    (fun p => ⟨p.1, p.2.1, p.2.2.1, p.2.2.2.1, p.2.2.2.2.1, p.2.2.2.2.2.1,
      ⟨p.2.2.2.2.2.2.1, p.2.2.2.2.2.2.2.1⟩, p.2.2.2.2.2.2.2.2⟩)
    (fun c => (c.version, c.identityRootPublicKey, c.deviceId, c.mlsSignaturePublicKey, c.transportNoisePublicKey,
      c.envelopeHpkePublicKey, c.validity.notBefore, c.validity.notAfter, c.allowedUses))
    (fun _ => rfl)

def manifest : Wire DeviceManifest :=
  (Wire.byte.both (Wire.bytes.both (Wire.uint64.both (Wire.bytes.both
    (Wire.bytes.list.both Wire.bytes.list))))).via
    (fun p => ⟨p.1, p.2.1, p.2.2.1, p.2.2.2.1, p.2.2.2.2.1, p.2.2.2.2.2⟩)
    (fun m => (m.version, m.identityId, m.manifestSequence, m.previousManifestHash, m.activeCredentialHashes,
      m.revokedCredentialHashes))
    (fun _ => rfl)

/-- A 32-byte polynomial fingerprint. -/
def fingerprint (b : Bytes) : Bytes :=
  Wire.digits 32 (b.foldl (fun h x => (h * 257 + x.toNat + 1) % 2 ^ 256) 7)

/-- The seed in the open, in 32 bytes. -/
def publicKey (seed : Bytes) : Bytes := (seed ++ List.replicate 32 0).take 32

/-- The key and a fingerprint of the key and the message. -/
def stamp (key msg : Bytes) : Bytes := key ++ fingerprint (2 :: key ++ msg)

def crypto : Crypto where
  sha256 := fingerprint
  publicKey := publicKey
  sign seed msg := stamp (publicKey seed) msg
  validKey _ := true
  verifyStrict key msg sig := sig = stamp key msg
  encodeSigned := signedObject.write
  decodeSigned := signedObject.decode
  encodeCredential := credential.write
  decodeCredential := credential.decode
  encodeManifest := manifest.write
  decodeManifest := manifest.decode
  encodeHashes := Wire.bytes.list.write
  decodeHashes := Wire.bytes.list.decode

theorem crypto_lawful : crypto.Lawful where
  decode_signed := signedObject.decode_write
  decode_credential := credential.decode_write
  decode_manifest := manifest.decode_write
  decode_hashes := Wire.bytes.list.decode_write
  sign_length _ _ := by
    simp [crypto, stamp, publicKey, fingerprint, Wire.digits_length]
  verify_sign _ _ := by simp [crypto]

/-- An identity whose root is made from one byte. -/
def identityOf (n : UInt8) : Bytes := Identity.identityId crypto (publicKey [n])

end Arveil.Demo

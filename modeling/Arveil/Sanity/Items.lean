import Arveil.Sanity.Demo
import Arveil.Spec.RelayIdentity

/-! The relay's reader of the demonstration's bytes. It finds every field once, and nothing
after the item. -/

namespace Arveil.Demo

def demoItems : CborItems where
  signed b := (crypto.decodeSigned b).toOption.map fun so => (⟨[so.context], [so.body], [so.signature]⟩, [])
  credential b := (crypto.decodeCredential b).toOption.map fun c =>
    (⟨[c.version], [c.identityRootPublicKey], [c.deviceId], [c.mlsSignaturePublicKey], [c.transportNoisePublicKey],
      [c.envelopeHpkePublicKey], [⟨[c.validity.notBefore], [c.validity.notAfter]⟩], [c.allowedUses]⟩, [])
  manifest b := (crypto.decodeManifest b).toOption.map fun m =>
    (⟨[m.version], [m.identityId], [m.manifestSequence], [m.previousManifestHash], [m.activeCredentialHashes],
      [m.revokedCredentialHashes]⟩, [])

end Arveil.Demo

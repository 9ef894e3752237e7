import Arveil.Sanity.Cbor
import Arveil.Spec.RelayServer

/-! A member of a relay with two devices, and the manifests its root signs. -/

namespace Arveil.Demo

open RelayServer

/-- Signed by the root made from two, with everything allowed. -/
def deviceCredential (n : UInt8) : Bytes :=
  Identity.issueCredential cborCrypto [2] ⟨[n], [n, 1], [n, 2], [n, 3]⟩ ⟨0, 1000⟩ 7

def deviceHash (n : UInt8) : Bytes := Identity.credentialHash cborCrypto (deviceCredential n)

def deviceKey (n : UInt8) : Bytes := [n, 2]

def realmIdentity : Bytes := Identity.identityId cborCrypto (publicKey [2])

def manifestOne : Bytes := Identity.issueManifest cborCrypto [2] none [deviceHash 10] []

def manifestTwo : Bytes :=
  Identity.issueManifest cborCrypto [2] (some ⟨1, Identity.manifestHash cborCrypto manifestOne⟩) [deviceHash 10, deviceHash 20] []

/-- The second device revoked. -/
def manifestThree : Bytes :=
  Identity.issueManifest cborCrypto [2] (some ⟨2, Identity.manifestHash cborCrypto manifestTwo⟩) [deviceHash 10] [deviceHash 20]

def manifestGone : Bytes :=
  Identity.issueManifest cborCrypto [2] (some ⟨1, Identity.manifestHash cborCrypto manifestOne⟩) [deviceHash 20] [deviceHash 10]

def inviteToken : Bytes := [7, 7]

def redemption : Frame := .inviteRedeem inviteToken (deviceCredential 10) manifestOne

/-- The first device redeems an invite on the first connection. -/
def enrolls : List Event :=
  [.chore (.createInvite (fingerprint inviteToken) "member" 1000 1), .connect (deviceKey 10) 5, .advance 0, .advance 0,
    .frame 0 redemption 5, .advance 0]

def realmRun (evs : List Event) : RelayServer.World cborCrypto := Trace.run (step cborCrypto cborItems) (start cborCrypto) evs

end Arveil.Demo

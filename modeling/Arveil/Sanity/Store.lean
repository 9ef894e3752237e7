import Arveil.Sanity.Demo
import Arveil.Spec.RelayServer

/-! Members of a relay's store, without the signatures that admitted them. -/

namespace Arveil.Demo

open RelayStore RelayServer

def memberId (n : UInt8) : Bytes := List.replicate 32 n

def deviceId (n : UInt8) : Bytes := List.replicate 16 n

/-- The first device of a member. -/
def enrollmentOf (n : UInt8) : Enrollment where
  identityId := memberId n
  rootPublic := [n, 1]
  credentialHash := [n, 2]
  deviceId := deviceId n
  transportKey := [n, 3]
  signedCred := [n, 4]
  notAfter := 10 ^ 9
  manifestSeq := 1
  signedManifest := [n, 5]

/-- The host invites a member, who comes. -/
def joins (n : UInt8) : List Call :=
  [.createInvite [n] "member" 1000 1, .redeemInvite [n] 5 (enrollmentOf n)]

end Arveil.Demo

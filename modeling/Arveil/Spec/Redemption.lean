import Arveil.Spec.RelayStore

/-! The redemption of an invite statement by statement (`RedeemInvite` in
`relay/internal/store/store.go`), where any of them may fail. One failure is handed in: the
hook `between` the consumption and the membership. -/

namespace Arveil.RelayStore

/-- The statements of a redemption, in their order. -/
inductive Statement where
  | recorded
  | consume
  | role
  | between
  | membership
  | credential
  | manifest
  | redemption
  | issued
  | commit
deriving DecidableEq, Repr

/-- Nothing fails but the hook. -/
def hook (between : Option StoreError) : Statement → Option StoreError
  | .between => between
  | _ => none

def inject (faults : Statement → Option StoreError) (s : Statement) : Txn Unit :=
  match faults s with
  | some e => Prog.fail e
  | none => pure ()

def redeemInviteInjected (faults : Statement → Option StoreError) (tokenHash : Bytes) (now : Int) (e : Enrollment) : Txn Unit :=
  Prog.unitOfWork do
    inject faults .recorded
    match (← Prog.read fun db => db.redemptions.get? (tokenHash, e.identityId)) with
    | some r => Prog.fail (if r.credentialHash = e.credentialHash then .alreadyRedeemed else .alreadyMember)
    | none =>
        inject faults .consume
        let invite ← require .inviteInvalid (usableInvite tokenHash now)
        Prog.modify (setUsesLeft tokenHash (· - 1))
        inject faults .role
        inject faults .between
        inject faults .membership
        insertRow .alreadyMember addMembership ⟨e.identityId, e.rootPublic, invite.role, .active⟩
        inject faults .credential
        insertCredential e
        inject faults .manifest
        insertRow .sqlite addManifest ⟨e.identityId, e.manifestSeq.toNat, e.signedManifest⟩
        inject faults .redemption
        insertRow .sqlite addRedemption ⟨tokenHash, e.identityId, e.credentialHash⟩
        inject faults .issued
        Prog.modify (markUsed tokenHash e.identityId now)
        inject faults .commit

end Arveil.RelayStore

import Arveil.Spec.Send

/-! Who may commit to a group (`mls/policy.rs`), and the commits that remove a
revoked device: the one a person asks for (`remove`) and those that follow this
identity's own revocations (`devices::prepare`). -/

namespace Arveil

open Client Delivery

inductive CommitDirection where
  | send
  | receive
deriving DecidableEq, Repr

def CommitDirection.debug : CommitDirection → String
  | .send => "Send"
  | .receive => "Receive"

inductive CommitSource where
  | existingMember (index : UInt32)
  | newMember
deriving DecidableEq, Repr

inductive PolicyError where
  | missingPolicy
  | unsupportedVersion (v : UInt8)
  | unauthorizedCommitter (committer blocking : UInt32) (direction : CommitDirection)
  | revokedLeafNotRemoved (committer revoked : UInt32) (direction : CommitDirection)
  | externalCommit
  | extension (e : String)
deriving DecidableEq, Repr

def PolicyError.message : PolicyError → String
  | .missingPolicy => "group context carries no Arveil policy extension; refusing to commit or accept commits"
  | .unsupportedVersion v => "unsupported policy version " ++ toString v
  | .unauthorizedCommitter committer blocking direction =>
      "commit from leaf " ++ toString committer ++ " refused: leaf " ++ toString blocking ++
        " is lower and not known to be revoked; only the lowest active leaf may commit (" ++ direction.debug ++ ")"
  | .revokedLeafNotRemoved committer revoked direction =>
      "commit from leaf " ++ toString committer ++ " refused: it must also remove the revoked leaf " ++
        toString revoked ++ " below it (" ++ direction.debug ++ ")"
  | .externalCommit => "external commits are not accepted in this profile"
  | .extension e => "policy extension unreadable: " ++ e

namespace Policy

def version : UInt8 := 2

/-- `device_of`: a leaf without a basic credential has the empty id. -/
def deviceOf (m : Member) : Bytes := m.deviceId.getD []

def policyOf : Except String (Option UInt8) → Except PolicyError Unit
  | .error e => .error (.extension e)
  | .ok none => .error .missingPolicy
  | .ok (some v) => if v ≠ version then .error (.unsupportedVersion v) else .ok ()

/-- Every leaf below the committer must be revoked and removed by this very commit. -/
def checkLower (revoked : Bytes → Bool) (removed : List UInt32) (committer : UInt32) (direction : CommitDirection) :
    List Member → Except PolicyError Unit
  | [] => .ok ()
  | m :: rest =>
      if !revoked (deviceOf m) then .error (.unauthorizedCommitter committer m.index direction)
      else if m.index ∉ removed then .error (.revokedLeafNotRemoved committer m.index direction)
      else checkLower revoked removed committer direction rest

/-- `PolicyRules::filter_proposals`; the default rules let every proposal pass. -/
def filterProposals (revoked : Bytes → Bool) (direction : CommitDirection) (source : CommitSource)
    (roster : List Member) (policy : Except String (Option UInt8)) (removed : List UInt32) :
    Except PolicyError Unit := do
  policyOf policy
  match source with
  | .newMember => .error .externalCommit
  | .existingMember committer =>
      checkLower revoked removed committer direction (roster.filter fun m => m.index < committer)

/-- The lowest leaf that is not known to be revoked. -/
def committerLeaf (revoked : Bytes → Bool) (roster : List Member) : Option UInt32 :=
  ((roster.insertionSort fun a b => a.index ≤ b.index).find? fun m => !revoked (deviceOf m)).map (·.index)

end Policy

namespace Groups

variable (pf : Platform)

def iAmCommitter (st : Store) (group : Bytes) : Bool :=
  Policy.committerLeaf (deviceRevoked st) (pf.mlsRoster group) = some (pf.mlsOwnIndex group)

/-- The policy as the commit builder asks it, with the members and the
revocations of this moment. -/
def permitted (st : Store) (group : Bytes) (p : Proposals) : Except PolicyError Unit :=
  Policy.filterProposals (deviceRevoked st) .send (.existingMember (pf.mlsOwnIndex group)) (pf.mlsRoster group)
    (pf.mlsPolicy group) p.removes

def policyText {α : Type} (r : Except PolicyError α) : Except String α :=
  match r with
  | .ok a => .ok a
  | .error e => .error (pf.mlsRulesError e.message)

def commit (what : String) (p : Proposals) (entropy group : Bytes) : App (Bytes × CommitOutput) := do
  liftDomain what (pf.mlsPropose group p)
  let verdict ← Prog.read fun st => permitted pf st group p
  liftDomain "mls commit" (policyText pf verdict)
  let (pending, out) ← liftDomain "mls commit" (pf.mlsBuild entropy group p)
  let state ← liftProtocol "mls apply" (pf.mlsApply pending)
  pure (state, out)

def leafOf (group device : Bytes) : Option UInt32 :=
  ((pf.mlsRoster group).find? fun m => m.deviceId = some device).map (·.index)

/-- The commit that removes the first leaf of a device. -/
def removalCommit (missing : CliError) (device entropy group : Bytes) : App (Bytes × UInt32 × Bytes) := do
  let index ← Prog.ofOption missing (leafOf pf group device)
  let (state, out) ← commit pf "mls remove" ⟨[], [index]⟩ entropy group
  let bytes ← liftProtocol "commit" (pf.mlsToBytes out.commitMessage)
  pure (state, index, bytes)

structure Chance where
  entropy : Bytes
  order : Nat → UInt64
  draws : Nat → Send.Draw

/-- `remove`, up to its unit: a device is removed only where it is known to be revoked. -/
def remove (s : Session) (conv : Conversation) (device : Bytes) (c : Chance) : App Send.FanOut := do
  if conv.peers.any fun p => p.deviceId = device && p.revoked then
    let group ← pf.loadGroup conv.groupId
    let (state, _, bytes) ← removalCommit pf (.domain "that device holds no leaf in this conversation") device
      c.entropy group
    delivery "remove unit" (Prog.unitOfWork do
      Prog.modify (pf.writeGroup state none)
      Send.enqueueForAll pf s conv.peers none bytes c.order c.draws)
  else Prog.fail (.domain "that device is not known to be revoked here; a verified manifest must say so first")

/-- Encrypt a signed manifest as an event for the group. -/
def manifestMessage (entropy group manifest : Bytes) : App (Bytes × Bytes) :=
  liftProtocol "mls encrypt" (pf.mlsEncrypt entropy group (pf.encodeEvent ⟨"manifest", manifest⟩))

/-- Fan out the messages of one revocation in order; how many copies found no route. -/
def enqueueNotices (s : Session) (peers : List Peer) (notification : Bytes) : List (Bytes × Chance) → Sql Nat
  | [] => pure 0
  | (bytes, c) :: rest => do
      let out ← Send.enqueueForAll pf s peers (some notification) bytes c.order c.draws
      let missing ← enqueueNotices s peers notification rest
      pure (out.noRoute + missing)

/-- The manifest as an event for the group, unless it was queued before. -/
def announce (c : Chance) (queued : Bool) (group manifest : Bytes) : App (Bytes × List (Bytes × Chance)) :=
  if queued then pure (group, [])
  else do
    let (state, bytes) ← manifestMessage pf c.entropy group manifest
    pure (state, [(bytes, c)])

/-- The commit that removes the revoked device, where this device is the one to make it. -/
def enact (c : Chance) (remove : Bool) (device group : Bytes) : App (Bytes × List (Bytes × Chance)) :=
  if remove then do
    let (state, _, bytes) ← removalCommit pf (.domain "revoked device missing from roster") device c.entropy group
    pure (state, [(bytes, c)])
  else pure (group, [])

/-- What one own revocation owes one conversation: the manifest once, and the
removal while the device holds a leaf and this device commits. -/
def prepareGroup (s : Session) (chance : Bool → Chance) (r : Revocation) (manifest : Bytes) (conv : Conversation) :
    App Unit := do
  let queued ← Prog.read fun st => revocationGroupQueued st r.deviceId conv.groupId
  let group ← pf.loadGroup conv.groupId
  let committer ← Prog.read fun st => iAmCommitter pf st group
  let inGroup := (pf.mlsRoster group).any fun m => m.deviceId = some r.deviceId
  let remove := inGroup && committer
  if queued && !remove then pure ()
  else
    let (group, event) ← announce pf (chance false) queued group manifest
    let (group, removal) ← enact pf (chance true) remove r.deviceId group
    delivery "revoke unit" (Prog.unitOfWork do
      Prog.modify (pf.writeGroup group none)
      let missing ← enqueueNotices pf s conv.peers r.notificationId (event ++ removal)
      Prog.modify (revocationGroupRecord r.deviceId conv.groupId missing))

/-- One own revocation, in every conversation. -/
def prepareRevocation (s : Session) (chance : (device group : Bytes) → Bool → Chance) (r : Revocation) : App Unit := do
  let manifest ← Prog.ofOption (.domain "no manifest") (← Prog.read latestManifest)
  let convs ← Prog.read conversations
  Prog.forEach convs fun conv => prepareGroup pf s (chance r.deviceId conv.groupId) r manifest conv

def prepare (s : Session) (chance : (device group : Bytes) → Bool → Chance) : App Unit := do
  let revocations ← Prog.read Client.revocations
  Prog.forEach revocations (prepareRevocation pf s chance)

end Groups

end Arveil

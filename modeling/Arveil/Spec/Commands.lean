import Mathlib.Logic.Function.Basic
import Arveil.Lib.Task
import Arveil.Spec.Policy

/-! The commands of one profile as its executor interleaves them, down to what they do to
MLS groups: where each loads a group, changes it in memory, waits, and writes it
(`command_future`, `add`, `remove`, `queue_text`, `send_file`, `sync`, `devices::prepare`,
`attachment_ui`). What a command finds in the other tables, what the network answers and
what the system draws are arguments. The log keeps every `write_to_storage` that was
committed, with what its state was computed from. -/

namespace Arveil.Commands

open Client

/-- Where a group in memory comes from. -/
inductive Origin where
  | loaded (state : Bytes)
  | created
  | joined
deriving DecidableEq, Repr

structure Handle where
  origin : Origin
  state : Bytes
deriving DecidableEq, Repr

/-- An application message, and the state whose key encrypted it. -/
structure Sent where
  key : Bytes
  message : Bytes
deriving DecidableEq, Repr

/-- One `write_to_storage`: what was stored when it was made, and the application messages
that the same unit handed to the outbox. -/
structure Write where
  groupId : Bytes
  origin : Origin
  found : Option Bytes
  state : Bytes
  sent : List Sent
deriving DecidableEq, Repr

/-- `mls_group_state`, and what was written to it. -/
structure Mls where
  groups : Bytes → Option Bytes
  log : List Write

abbrev Local (α : Type) := Prog Mls CliError α

abbrev Command (α : Type) := Task Mls CliError α

abbrev Outcome := Except CliError Unit

variable (pf : Platform)

def lift {α : Type} (error : String → CliError) (r : Except String α) : Local α :=
  Prog.mapError error (Prog.ofExcept r)

def loadGroup (context : String) (groupId : Bytes) : Local Handle := do
  match (← Prog.read fun m => m.groups groupId) with
  | some state => pure ⟨.loaded state, state⟩
  | none => Prog.fail (storageError context pf.mlsGroupNotFound)

def write (group : Handle) (sent : List Sent) (m : Mls) : Mls :=
  let gid := pf.mlsGroupId group.state
  { groups := Function.update m.groups gid (some group.state)
    log := m.log ++ [⟨gid, group.origin, m.groups gid, group.state, sent⟩] }

/-- A unit that writes a group and queues its messages; `rest` is what else it does. -/
def writeUnit (group : Handle) (sent : List Sent) (rest : Outcome) : Local Unit :=
  Prog.unitOfWork do
    Prog.modify (write pf group sent)
    Prog.ofExcept rest

def encrypt (entropy data : Bytes) (group : Handle) : Except String (Handle × Sent) :=
  match pf.mlsEncrypt entropy group.state data with
  | .ok (state, message) => .ok ({ group with state := state }, ⟨group.state, message⟩)
  | .error e => .error e

/-- Build a commit and apply it to the group in memory. -/
def commit (what : String) (revoked : Bytes → Bool) (p : Proposals) (entropy : Bytes) (group : Handle) :
    Local (Handle × CommitOutput) := do
  lift (domainError what) (pf.mlsPropose group.state p)
  let verdict := Policy.filterProposals revoked .send (.existingMember (pf.mlsOwnIndex group.state))
    (pf.mlsRoster group.state) (pf.mlsPolicy group.state) p.removes
  lift (domainError "mls commit") (Groups.policyText pf verdict)
  let (pending, out) ← lift (domainError "mls commit") (pf.mlsBuild entropy group.state p)
  let state ← lift (protocolError "mls apply") (pf.mlsApply pending)
  pure ({ group with state := state }, out)

def removalCommit (missing : CliError) (revoked : Bytes → Bool) (device entropy : Bytes) (group : Handle) :
    Local Handle := do
  let index ← Prog.ofOption missing (Groups.leafOf pf group.state device)
  let (group, out) ← commit pf "mls remove" revoked ⟨[], [index]⟩ entropy group
  let _ ← lift (protocolError "commit") (pf.mlsToBytes out.commitMessage)
  pure group

def guardRevoked (conv : Conversation) (group : Handle) : Local Unit :=
  let stuck := Send.revokedLeaves pf conv group.state
  if stuck.isEmpty then pure ()
  else Prog.fail (.domain ("paused: " ++ toString stuck.length ++ " revoked device(s) still in the group (" ++
    ", ".intercalate (stuck.map fun d => hexOf (d.take 4)) ++ "); waiting for the committer to remove them"))

/-- An event for a conversation: `queue_text`, and the end of `send_file` and of an upload. -/
structure Event where
  conversation : Except CliError Conversation
  data : Bytes
  entropy : Bytes
  rest : Outcome

def sendEvent (load unit : String) (e : Event) : Local Unit := do
  let conv ← Prog.ofExcept e.conversation
  let group ← loadGroup pf load conv.groupId
  guardRevoked pf conv group
  let (group, sent) ← lift (fun _ => storageError unit SqlError.invalidQuery.message) (encrypt pf e.entropy e.data group)
  writeUnit pf group [sent] e.rest

def queueText (e : Event) : Local Unit := sendEvent pf "mls load" "send unit" e

def send (e : Event) (publish : List Outcome) : Command Unit := do
  Task.call (queueText pf e)
  Task.waits publish

/-- The transfer yields to other commands, so the group is loaded after it. -/
def sendFile (transfer : List Outcome) (e : Event) (publish : List Outcome) : Command Unit := do
  Task.waits transfer
  let conv ← Task.call (Prog.ofExcept e.conversation)
  let group ← Task.call (loadGroup pf "mls load" conv.groupId)
  Task.call (guardRevoked pf conv group)
  let (group, sent) ← Task.call (lift (fun _ => storageError "send unit" SqlError.invalidQuery.message)
    (encrypt pf e.entropy e.data group))
  Task.call (writeUnit pf group [sent] e.rest)
  Task.waits publish

/-- An attachment is queued where nobody revoked is left; no group is written. -/
def queueAttachment (conversation : Except CliError Conversation) : Command Unit := do
  let conv ← Task.call (Prog.ofExcept conversation)
  let group ← Task.call (loadGroup pf "mls" conv.groupId)
  Task.call (guardRevoked pf conv group)

/-- `upload`: the chunks, and then the descriptor with a group loaded after them. -/
def resumeAttachment (transfer : List Outcome) (e : Event) (publish : List Outcome) : Command Unit := do
  Task.waits transfer
  let conv ← Task.call (Prog.ofExcept e.conversation)
  let group ← Task.call (loadGroup pf "mls" conv.groupId)
  Task.call (guardRevoked pf conv group)
  let (group, sent) ← Task.call (lift (fun _ => storageError "attachment send unit" SqlError.invalidQuery.message)
    (encrypt pf e.entropy e.data group))
  Task.call (writeUnit pf group [sent] e.rest)
  Task.waits publish

structure Add where
  claim : List Outcome
  keyPackage : MlsMessage
  conversation : Except CliError Conversation
  revoked : Bytes → Bool
  entropy : Bytes
  roster : Bytes
  rosterEntropy : Bytes
  rest : Outcome
  publish : List Outcome

def add (a : Add) : Command Unit := do
  Task.waits a.claim
  let conv ← Task.call (Prog.ofExcept a.conversation)
  let group ← Task.call (loadGroup pf "mls load" conv.groupId)
  let (group, out) ← Task.call (commit pf "mls add" a.revoked ⟨[a.keyPackage], []⟩ a.entropy group)
  let welcome ← Task.call (Prog.ofOption (.protocol "no welcome produced") out.welcomeMessages.head?)
  let _ ← Task.call (lift (protocolError "welcome") (pf.mlsToBytes welcome))
  let _ ← Task.call (lift (protocolError "commit") (pf.mlsToBytes out.commitMessage))
  let (group, roster) ← Task.call (lift (protocolError "mls encrypt") (encrypt pf a.rosterEntropy a.roster group))
  Task.call (writeUnit pf group [roster] a.rest)
  Task.waits a.publish

structure Remove where
  connect : List Outcome
  conversation : Except CliError Conversation
  device : Bytes
  revoked : Bytes → Bool
  entropy : Bytes
  rest : Outcome
  publish : List Outcome

def remove (r : Remove) : Command Unit := do
  Task.waits r.connect
  let conv ← Task.call (Prog.ofExcept r.conversation)
  if conv.peers.any fun p => p.deviceId = r.device && p.revoked then
    let group ← Task.call (loadGroup pf "mls load" conv.groupId)
    let group ← Task.call (removalCommit pf (.domain "that device holds no leaf in this conversation") r.revoked
      r.device r.entropy group)
    Task.call (writeUnit pf group [] r.rest)
    Task.waits r.publish
  else Task.call (Prog.fail (.domain
    "that device is not known to be revoked here; a verified manifest must say so first"))

structure Start where
  claim : List Outcome
  keyPackages : List MlsMessage
  created : Bytes
  revoked : Bytes → Bool
  entropy : Bytes
  roster : Bytes
  rosterEntropy : Bytes
  hello : Option (Bytes × Bytes)
  rest : Outcome
  publish : List Outcome

def encryptHello (hello : Option (Bytes × Bytes)) (group : Handle) : Local (Handle × List Sent) :=
  match hello with
  | none => pure (group, [])
  | some (data, entropy) => do
      let (group, sent) ← lift (protocolError "mls encrypt") (encrypt pf entropy data group)
      pure (group, [sent])

/-- `start_with_operation` -/
def start (a : Start) : Command Unit := do
  Task.waits a.claim
  let (group, out) ← Task.call (commit pf "mls add" a.revoked ⟨a.keyPackages, []⟩ a.entropy ⟨.created, a.created⟩)
  let welcome ← Task.call (Prog.ofOption (.protocol "no welcome produced") out.welcomeMessages.head?)
  let _ ← Task.call (lift (protocolError "welcome") (pf.mlsToBytes welcome))
  let (group, roster) ← Task.call (lift (protocolError "mls encrypt") (encrypt pf a.rosterEntropy a.roster group))
  let (group, hello) ← Task.call (encryptHello pf a.hello group)
  Task.call (writeUnit pf group (roster :: hello) a.rest)
  Task.waits a.publish

/-- What one own revocation owes one conversation. -/
structure Owed where
  groupId : Bytes
  device : Bytes
  queued : Bool
  manifest : Bytes
  manifestEntropy : Bytes
  revoked : Bytes → Bool
  entropy : Bytes
  rest : Outcome

def announce (o : Owed) (group : Handle) : Local (Handle × List Sent) :=
  if o.queued then pure (group, [])
  else do
    let (group, sent) ← lift (protocolError "mls encrypt")
      (encrypt pf o.manifestEntropy (pf.encodeEvent ⟨"manifest", o.manifest⟩) group)
    pure (group, [sent])

def enact (o : Owed) (remove : Bool) (group : Handle) : Local Handle :=
  if remove then
    removalCommit pf (.domain "revoked device missing from roster") o.revoked o.device o.entropy group
  else pure group

def prepareGroup (o : Owed) : Local Unit := do
  let group ← loadGroup pf "mls load" o.groupId
  let inGroup := (pf.mlsRoster group.state).any fun m => m.deviceId = some o.device
  let remove := inGroup &&
    Policy.committerLeaf o.revoked (pf.mlsRoster group.state) = some (pf.mlsOwnIndex group.state)
  if o.queued && !remove then pure ()
  else
    let (group, event) ← announce pf o group
    let group ← enact pf o remove group
    writeUnit pf group event o.rest

/-- `devices::prepare`: no waits -/
def prepare (owed : List Owed) : Local Unit := Prog.forEach owed (prepareGroup pf)

/-- `devices::revoke` -/
def revokeDevice (owed : List Owed) (publish : List Outcome) : Command Unit := do
  Task.call (prepare pf owed)
  Task.waits publish

structure Incoming where
  recorded : Except CliError Bool
  opened : Except CliError MlsMessage
  packages : List KeyPackageRow
  declined : Bool
  revoked : Bytes → Bool
  rest : Outcome

def handleWelcome (i : Incoming) (msg : MlsMessage) : Local Unit := do
  let (state, _) ← lift (protocolError "mls join") (pf.mlsJoin i.packages msg)
  Prog.modify (write pf ⟨.joined, state⟩ [])
  Prog.ofExcept i.rest

def handleGroupMessage (i : Incoming) (msg : MlsMessage) : Local Unit := do
  let gid ← Prog.ofOption (.protocol "message without group id") msg.groupId
  if i.declined then pure ()
  else
    let group ← loadGroup pf "mls load" gid
    let (state, _) ← lift (protocolError "mls process") (pf.mlsProcess i.revoked group.state msg)
    Prog.modify (write pf { group with state := state } [])
    Prog.ofExcept i.rest

def handleMls (i : Incoming) (msg : MlsMessage) : Local Unit :=
  match msg.wireFormat with
  | .welcome => handleWelcome pf i msg
  | .privateMessage | .publicMessage => handleGroupMessage pf i msg
  | other => Prog.fail (.protocol ("unexpected MLS wire format " ++ other.debug))

def receiveUnit (i : Incoming) : Local Unit :=
  Prog.unitOfWork do
    if (← Prog.ofExcept i.recorded) then
      let msg ← Prog.ofExcept i.opened
      handleMls pf i msg
    else pure ()

/-- The first envelope that cannot be processed stops the pass. -/
def receiveItems : List Incoming → Local Unit
  | [] => pure ()
  | i :: rest => do
      match (← Prog.attempt (receiveUnit pf i)) with
      | .ok _ => receiveItems rest
      | .error _ => pure ()

/-- `settle_in_person` and `settle`: a group is loaded and its roster is read across waits. -/
def settle (looks : List (Bytes × Nat)) : Command Unit :=
  Task.forEach looks fun look => do
    let _ ← Task.call (Prog.attempt (loadGroup pf "mls load" look.1) : Local (Except CliError Handle))
    Task.waits (List.replicate look.2 (.ok ()))

structure Sync where
  before : List Owed
  fetch : List Outcome
  items : List Incoming
  looks : List (Bytes × Nat)
  acknowledge : List Outcome
  after : List Owed
  publish : List Outcome

def sync (a : Sync) : Command Unit := do
  Task.call (prepare pf a.before)
  Task.waits a.fetch
  Task.call (receiveItems pf a.items)
  settle pf a.looks
  Task.waits a.acknowledge
  Task.call (prepare pf a.after)
  Task.waits a.publish

/-- `Exclusions` -/
inductive Lock where
  | sync
  | enrollment
  | linkCompletion
  | pairingWait
  | attachment
deriving DecidableEq, Repr

inductive ClientCommand where
  | start (a : Start)
  /-- accepting an invitation, which may start a conversation -/
  | invitations (before : List Outcome) (a : Option Start) (after : List Outcome)
  | add (a : Add)
  | remove (a : Remove)
  | queueText (e : Event)
  | send (e : Event) (publish : List Outcome)
  | sendFile (transfer : List Outcome) (e : Event) (publish : List Outcome)
  | queueAttachment (conversation : Except CliError Conversation)
  | resumeAttachment (transfer : List Outcome) (e : Event) (publish : List Outcome)
  | sync (a : Sync)
  | revokeDevice (owed : List Owed) (publish : List Outcome)
  /-- one that reads the rosters of groups -/
  | queryDevices (groups : List Bytes)
  /-- one that touches no group, under the locks of its kind -/
  | elsewhere (locks : List Lock) (waits : List Outcome)

def ClientCommand.locks : ClientCommand → List Lock
  | .invitations .. => [.enrollment, .sync]
  | .sync _ | .revokeDevice .. => [.sync]
  | .resumeAttachment .. => [.attachment]
  | .elsewhere locks _ => locks
  | _ => []

/-- `run_command` -/
def ClientCommand.task : ClientCommand → Command Unit
  | .start a => Commands.start pf a
  | .invitations before a after => do
      Task.waits before
      match a with
      | some a => Commands.start pf a
      | none => pure ()
      Task.waits after
  | .add a => Commands.add pf a
  | .remove a => Commands.remove pf a
  | .queueText e => Task.call (Commands.queueText pf e)
  | .send e publish => Commands.send pf e publish
  | .sendFile transfer e publish => Commands.sendFile pf transfer e publish
  | .queueAttachment c => Commands.queueAttachment pf c
  | .resumeAttachment transfer e publish => Commands.resumeAttachment pf transfer e publish
  | .sync a => Commands.sync pf a
  | .revokeDevice owed publish => Commands.revokeDevice pf owed publish
  | .queryDevices groups => Task.forEach groups fun gid => do
      let _ ← Task.call (loadGroup pf "mls load" gid)
      pure ()
  | .elsewhere _ outcomes => Task.waits outcomes

abbrev Executor := Pool Mls CliError Lock

inductive Action where
  | submit (c : ClientCommand)
  | poll (i : Nat)

/-- `run_executor` takes a request, or lets a command go on. -/
def step (x : Executor) : Action → Executor
  | .submit c => x.submit c.locks (c.task pf)
  | .poll i => x.poll i

end Arveil.Commands

import Arveil.Spec.Platform

/-! What one decrypted MLS message does to the profile: joining a conversation,
rosters, manifests, messages, files and hellos (`handle_mls`, `requests.rs`,
`invitations::remember_hello`). -/

namespace Arveil.Receive

open Client Delivery

variable (pf : Platform)

inductive StateChange where
  | conversationJoined (groupId : Bytes) (epoch : UInt64)
  | mlsMessageProcessed (groupId : Bytes) (description : String)
  | rosterUpdated (groupId : Bytes) (peers : Nat)
  | manifestUpdated (identityId : Bytes) (sequence : UInt64) (activeDevices revokedDevices : Nat) (alreadyKnown : Bool)
  | messageReceived (groupId eventId body : Bytes)
  | fileAnnounced (groupId eventId : Bytes) (name : String) (size : UInt64)
  | helloReceived (groupId : Bytes) (name : Option String) (card : CardUse)
  | commitApplied (groupId : Bytes) (committer : UInt32) (epoch : UInt64)
deriving DecidableEq, Repr

/-- The device behind the MLS leaf that sent a message, and the identity this
profile knows for it. `none` if the leaf has no basic credential. -/
def eventSender (group gid : Bytes) (leaf : UInt32) : App (Option EventSender) := do
  match (pf.memberAtIndex group leaf).bind (·.deviceId) with
  | none => pure none
  | some deviceId =>
      let identityId ← Prog.read fun st => deviceIdentity st gid deviceId
      pure (some ⟨some deviceId, identityId⟩)

/-- A contact's manifest changed its devices: say so in every conversation shared
with that identity. -/
def recordDeviceNotices (identity : Bytes) (sequence : UInt64) (change : DeviceChange) (carrier : Option Bytes) :
    Client Unit := do
  if change.isEmpty then pure ()
  else
    let groups ← Prog.read fun st => groupsWithIdentity st identity
    Prog.forEach groups fun group =>
      Prog.mapError .sqlite (recordEventBy group (noticeEventId pf.crypto identity sequence group) .devicesChanged
        (pf.encodeChange change) (some ⟨carrier, some identity⟩))

/-- Whether what arrives for a conversation is dropped. -/
def declined (st : Store) (gid : Bytes) : Bool := (request st gid).any fun r => r.status = .declined

/-- After a roster: the conversation was started by whoever sent its first one. It
is joined without asking when that is this identity, a contact this person chose,
or when a device of this identity is already in it. -/
def classify (s : Session) (gid : Bytes) (sender : Option Bytes) (peers : List Peer) : App Unit := do
  match (← Prog.read fun st => request st gid) with
  | none => pure ()
  | some req =>
      if req.status ≠ .pending ∨ req.from_.isSome then pure ()
      else match sender with
        | none => pure ()
        | some from_ =>
            Prog.modify (requestSetFrom gid from_)
            let accepted ← Prog.read fun st => contactIsAccepted st from_
            Prog.when (from_ = s.identityId ∨ peers.any (fun p => p.identity = s.identityId) = true ∨ accepted = true)
              (Prog.modify (requestResolve gid true))

/-- Match a hello to an invitation secret issued on this device. -/
def rememberHello (gid : Bytes) (sender : Option Bytes) (hello : Hello) : App Bool := do
  match hello.invitation, hello.secret, sender with
  | some id, some secret, some sender =>
      match (← Prog.read fun st => invitationOperation st id .outgoing) with
      | none => pure false
      | some op =>
          if secret ≠ op.secret ∨ secret.length ≠ 16 ∨ op.state = "revoked" then pure false
          else
            Prog.modify (invitationHelloSave ⟨gid, id, sender, hello.name.bind cleanName⟩)
            pure true
  | _, _, _ => pure false

/-- What redeeming the secret of a hello makes of it. -/
def cardUse : Option OwnCard → CardUse
  | none => .none
  | some c =>
      match c.kind with
      | .inPerson => .inPersonPending
      | .link => .link c.createdAt

def redeemSecret (now : Int) : Option Bytes → App (Option OwnCard)
  | some secret => storage "card" (cardRedeem secret now)
  | none => pure none

/-- A hello: which card it used, and how its sender describes itself. -/
def receiveHello (s : Session) (now : Int) (gid : Bytes) (sender : Option Bytes) (body : Bytes) :
    App StateChange := do
  let hello ← liftProtocol "hello" (pf.decodeHello body)
  if sender = some s.identityId then pure (.mlsMessageProcessed gid "own hello")
  else
    let _ ← rememberHello gid sender hello
    let redeemed ← redeemSecret now hello.secret
    let name := hello.name.bind cleanName
    Prog.modify (requestSetCard gid (cardUse redeemed) name)
    pure (.helloReceived gid name (cardUse redeemed))

inductive AppKind where
  | roster
  | manifest
  | text
  | file
  | hello
  | unknown
deriving DecidableEq, Repr

def appKind (kind : String) : AppKind :=
  if kind = "roster" then .roster
  else if kind = "manifest" then .manifest
  else if kind = "text" then .text
  else if kind = "file" then .file
  else if kind = "hello" then .hello
  else .unknown

/-- The peers a roster names; this device itself is left out, and the first line
that is no route refuses the whole roster. -/
def rosterPeers (s : Session) : List Bytes → Except CliError (List Peer)
  | [] => .ok []
  | line :: rest =>
      match Route.parse pf.crypto line with
      | .error e => .error e
      | .ok r =>
          match rosterPeers s rest with
          | .error e => .error e
          | .ok ps => .ok (if r.deviceId ≠ s.device.keys.deviceId then peerFromRoute r :: ps else ps)

def handleRoster (s : Session) (now : Int) (group gid : Bytes) (leaf : UInt32) (body : Bytes) : App StateChange := do
  let peers ← Prog.ofExcept (rosterPeers pf s (Route.lines body))
  storage "conversation" (conversationSave now ⟨gid, false, peers⟩)
  let sender ← eventSender pf group gid leaf
  classify s gid (sender.bind (·.identityId)) peers
  pure (.rosterUpdated gid peers.length)

/-- A manifest is accepted only under the root already stored for that identity. -/
def acceptGroupManifest (s : Session) (group gid : Bytes) (leaf : UInt32) (body : Bytes) :
    App (DeviceManifest × Bool) :=
  match Identity.manifestIdentityUnverified pf.crypto body with
  | some id =>
      if id ≠ s.identityId then do
        let (m, new, change) ← domain "manifest" (peerManifestAccept pf.crypto id body)
        -- inside the receive unit: the notices commit with the manifest
        Prog.when (new = true) do
          let carrier ← eventSender pf group gid leaf
          storage "notice"
            (recordDeviceNotices pf id m.manifestSequence change (carrier.bind (·.deviceId)))
        pure (m, new)
      else domain "manifest" (manifestAcceptOwn pf.crypto body)
  | none => domain "manifest" (manifestAcceptOwn pf.crypto body)

def handleManifest (s : Session) (group gid : Bytes) (leaf : UInt32) (body : Bytes) : App StateChange := do
  let (m, new) ← acceptGroupManifest pf s group gid leaf body
  pure (.manifestUpdated m.identityId m.manifestSequence m.activeCredentialHashes.length
    m.revokedCredentialHashes.length !new)

def handleText (group gid : Bytes) (leaf : UInt32) (deliveryId body : Bytes) : App StateChange := do
  let sender ← eventSender pf group gid leaf
  delivery "event" (recordEventBy gid deliveryId .received body sender)
  pure (.messageReceived gid deliveryId body)

def handleFile (group gid : Bytes) (leaf : UInt32) (deliveryId body : Bytes) : App StateChange := do
  let d ← liftProtocol "file" (pf.fileDescriptor body)
  let sender ← eventSender pf group gid leaf
  delivery "event" (recordEventBy gid deliveryId .filePending body sender)
  pure (.fileAnnounced gid deliveryId d.safeName d.size)

def handleHello (s : Session) (now : Int) (group gid : Bytes) (leaf : UInt32) (body : Bytes) : App StateChange := do
  let sender ← eventSender pf group gid leaf
  receiveHello pf s now gid (sender.bind (·.identityId)) body

def handleEvent (s : Session) (now : Int) (group gid : Bytes) (leaf : UInt32) (deliveryId : Bytes) (ev : AppEvent) :
    App StateChange :=
  match appKind ev.kind with
  | .roster => handleRoster pf s now group gid leaf ev.body
  | .manifest => handleManifest pf s group gid leaf ev.body
  | .text => handleText pf group gid leaf deliveryId ev.body
  | .file => handleFile pf group gid leaf deliveryId ev.body
  | .hello => handleHello pf s now group gid leaf ev.body
  | .unknown => pure (.mlsMessageProcessed gid ("event of kind " ++ ev.kind ++ " ignored"))

/-- A conversation joined through a Welcome waits for its roster as a request. -/
def handleWelcome (now : Int) (msg : MlsMessage) : App StateChange := do
  let (group, used) ← Prog.mapError (protocolError "mls join")
    (do Prog.ofExcept (pf.mlsJoin (← Prog.read (·.mlsKeyPackages.rows)) msg))
  Prog.modify (pf.writeGroup group used)
  storage "conversation" (conversationSave now ⟨pf.mlsGroupId group, false, []⟩)
  Prog.modify (requestOpen (pf.mlsGroupId group))
  pure (.conversationJoined (pf.mlsGroupId group) (pf.mlsEpoch group))

def handleGroupMessage (s : Session) (now : Int) (msg : MlsMessage) (deliveryId : Bytes) : App StateChange := do
  let gid ← Prog.ofOption (.protocol "message without group id") msg.groupId
  if (← Prog.read fun st => declined st gid) then
    pure (.mlsMessageProcessed gid "declined conversation: dropped")
  else
    let group ← pf.loadGroup gid
    let (group, received) ← Prog.mapError (protocolError "mls process")
      (do Prog.ofExcept (pf.mlsProcess (← Prog.read deviceRevoked) group msg))
    Prog.modify (pf.writeGroup group none)
    match received with
    | .applicationMessage leaf data =>
        let ev ← liftProtocol "event" (pf.decodeEvent data)
        handleEvent pf s now group gid leaf deliveryId ev
    | .commit committer => pure (.commitApplied gid committer (pf.mlsEpoch group))
    | .other description => pure (.mlsMessageProcessed gid ("mls message " ++ description ++ " processed"))

/-- Process one decrypted MLS message inside the receive unit. -/
def handleMls (s : Session) (now : Int) (msg : MlsMessage) (deliveryId : Bytes) : App StateChange :=
  match msg.wireFormat with
  | .welcome => handleWelcome pf now msg
  | .privateMessage => handleGroupMessage pf s now msg deliveryId
  | .publicMessage => handleGroupMessage pf s now msg deliveryId
  | other => Prog.fail (.protocol ("unexpected MLS wire format " ++ other.debug))

end Arveil.Receive

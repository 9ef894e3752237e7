import Arveil.Spec.Receive

/-! What the client does over a connection to the relay. The relay is any
function of the requests it has seen; the requests are kept, so that what was
presented to it can be stated. -/

namespace Arveil

open Client Delivery

structure EnvelopeItem where
  seq : UInt64
  deliveryId : Bytes
  hpkeEnc : Bytes
  ciphertext : Bytes
deriving DecidableEq, Repr

structure InvitationRecord where
  id : Bytes
  createdAt : UInt64
  expiresAt : UInt64
  state : String
  claimedIdentity : Bytes
  claimedAt : UInt64
deriving DecidableEq, Repr

inductive Payload where
  | credentialGet (identityId credentialHash : Bytes)
  | manifestGet (identityId : Bytes)
  | keyPackagesClaim (identityId deviceId : Bytes)
  | inviteGet (invitationId : Bytes)
  | envelopePut (mailboxId writeCapability deliveryId : Bytes) (requestedExpiry : UInt64) (hpkeEnc ciphertext : Bytes)
  | envelopeFetch (mailboxId readCapability : Bytes) (cursor : UInt64) (limit : Nat)
  | envelopeAck (mailboxId readCapability : Bytes) (deliveryIds : List Bytes)
deriving DecidableEq, Repr

inductive Reply where
  | credentialFound (credential : Bytes)
  | manifestLatest (manifest : Bytes)
  | keyPackageClaimed (keyPackage : Bytes)
  | invitation (record : InvitationRecord)
  | envelopeAccepted (effectiveExpiry : UInt64)
  | envelopes (items : List EnvelopeItem) (nextCursor : UInt64)
  | ack
  | other (debug : String)
deriving DecidableEq, Repr

/-- A relay and a network between: an answer to each request, after the earlier
ones. A lost reply, a closed connection and an error frame are all errors. -/
structure Relay where
  answer : List Payload → Payload → Except CliError Reply
  debug : Reply → String

structure World where
  store : Store
  sent : List Payload

abbrev Net (α : Type) := Prog World CliError α

def onStore {α : Type} (p : App α) : Net α := Prog.zoom (·.store) (fun s w => { w with store := s }) p

namespace Net

variable (relay : Relay)

/-- `conn.request(payload)` -/
def request (p : Payload) : Net Reply := fun w => (relay.answer w.sent p, { w with sent := w.sent ++ [p] })

def unexpected {α : Type} (r : Reply) : Net α := Prog.fail (.protocol ("unexpected reply: " ++ relay.debug r))

/-- `u64::try_from(now).unwrap_or(0)` -/
def asU64 (now : Int) : UInt64 := if 0 ≤ now then UInt64.ofNat now.toNat else 0

def servedCredential (r : Route) : Net Bytes := do
  match (← Prog.attempt (request relay (.credentialGet r.identityId r.credentialHash))) with
  | .ok (.credentialFound c) => pure c
  | .ok other => unexpected relay other
  | .error (.relay 400 "unsupported frame") =>
      Prog.fail (.domain "route: this server is too old to check routes; update the relay first")
  | .error e => Prog.fail e

def servedManifest (identity : Bytes) : Net Bytes := do
  match (← request relay (.manifestGet identity)) with
  | .manifestLatest m => pure m
  | other => unexpected relay other

/-- The credential the relay serves for a route, checked with the newest manifest
it serves under the route's own root. -/
def verifiedRouteCredential (pf : Platform) (now : Int) (r : Route) : Net DeviceCredential := do
  let credential ← servedCredential relay r
  Prog.when (credential.isEmpty = true) (Prog.fail
    (.domain "route: the server holds no credential for this device; ask for a new route"))
  let manifest ← servedManifest relay r.identityId
  Prog.when (manifest.isEmpty = true) (Prog.fail
    (.domain "route: the server holds no device list for this person"))
  let root ← Prog.ofExcept (r.root pf.crypto)
  Prog.ofExcept (match Identity.verifyClaimedDevice pf.crypto
      ⟨root, r.deviceId, r.credentialHash, r.hpkePublic⟩ credential manifest (asU64 now) with
    | .ok c => .ok c
    | .error e => .error (.domain ("route: " ++ e.message ++ "; nothing was sent")))

/-- A key package belongs to a credential when its leaf carries that credential's
device id and is signed with its MLS key. -/
def checkKeyPackageBinding (pf : Platform) (keyPackage : MlsMessage) (c : DeviceCredential) : Except CliError Unit :=
  match pf.mlsSigningIdentity keyPackage with
  | none => .error (.protocol "the claimed object is not a key package")
  | some (signatureKey, identifier) =>
      if signatureKey ≠ c.mlsSignaturePublicKey then
        .error (.domain
          "route: the server handed out a key package this person's root did not sign; nothing was sent")
      else if identifier ≠ some c.deviceId then
        .error (.domain "route: the key package names another device; nothing was sent")
      else .ok ()

/-- A key package for a route, claimed only after the route is bound to its root. -/
def claimKeyPackage (pf : Platform) (now : Int) (r : Route) : Net MlsMessage := do
  let credential ← verifiedRouteCredential relay pf now r
  match (← request relay (.keyPackagesClaim r.identityId r.deviceId)) with
  | .keyPackageClaimed bytes =>
      let keyPackage ← onStore (liftProtocol "key package" (pf.mlsFromBytes bytes))
      Prog.ofExcept (checkKeyPackageBinding pf keyPackage credential)
      pure keyPackage
  | other => unexpected relay other

/-- The outcome of a check that a domain error only skips. -/
def skipDomain {α : Type} (p : Net α) : Net (Option α) := do
  match (← Prog.attempt p) with
  | .ok a => pure (some a)
  | .error (.domain _) => pure none
  | .error e => Prog.fail e

/-- Does the group hold a leaf of this device with the credential's MLS key? The
first leaf with the device's id decides. -/
def firstLeafBinds (members : List Member) (deviceId key : Bytes) : Bool :=
  (members.find? fun m => m.deviceId = some deviceId).any fun m => m.signatureKey = key

/-- The first peer of `from_` whose route binds to a signed credential and to a
leaf of the group. -/
def bindPeer (pf : Platform) (now : Int) (group : Bytes) : List Peer → Net (Option (Route × Bytes))
  | [] => pure none
  | peer :: rest =>
      match routeOfPeer peer with
      | none => bindPeer pf now group rest
      | some text => do
          let parsed ← Prog.ofExcept (Route.parse pf.crypto text)
          match (← skipDomain (verifiedRouteCredential relay pf now parsed)) with
          | none => bindPeer pf now group rest
          | some credential =>
              if firstLeafBinds (pf.mlsRoster group) parsed.deviceId credential.mlsSignaturePublicKey then
                pure (some (parsed, text))
              else bindPeer pf now group rest

/-- Bind one in-person code to the root and the leaf of whoever used it, and only
then mark them verified. A code that does not bind counts as no card at all. -/
def settleRequest (pf : Platform) (now : Int) (req : Client.Request) : Net Unit := do
  match req.from_ with
  | none => pure ()
  | some from_ =>
      match (← Prog.read fun w => (conversations w.store).find? fun c => c.groupId = req.groupId) with
      | none => pure ()
      | some conversation =>
          let group ← onStore (pf.loadGroup req.groupId)
          let bound ← bindPeer relay pf now group (conversation.peers.filter fun p => p.identity = from_)
          match bound with
          | some (route, text) =>
              onStore (storage "contact" (contactRouteSave from_ route.deviceId text))
              onStore (storage "contact" (contactVerified from_ .inPerson now))
              onStore (Prog.modify (requestSetCard req.groupId .inPerson none))
              Prog.when (req.status = .pending) (onStore (Prog.modify (requestResolve req.groupId true)))
          | none => onStore (Prog.modify (requestSetCard req.groupId .none none))

def settleInPerson (pf : Platform) (now : Int) : Net Unit := do
  let pending ← Prog.read fun w => requestsInPersonPending w.store
  Prog.forEach pending (settleRequest relay pf now)

def failure (reason : String) : CliError := .domain ("invitation: " ++ reason)

def applyRecord (now : Int) (o : InvitationOperation) (r : InvitationRecord) : Except CliError InvitationOperation :=
  if o.id ≠ r.id ∨ 2 ^ 63 ≤ r.createdAt.toNat ∨ 2 ^ 63 ≤ r.expiresAt.toNat ∨
      r.state ∉ ["pending", "used", "revoked", "expired"] then .error (failure "invalid server reply")
  else if r.state = "used" ∧ r.claimedIdentity.length ≠ 32 then .error (failure "invalid claim")
  else
    .ok { o with
      state :=
        if o.state = "revoke-pending" ∧ r.state = "pending" then "revoke-pending"
        else if r.state = "used" ∧ o.groupId ≠ [] then "connected"
        else r.state
      createdAt := r.createdAt.toNat
      expiresAt := r.expiresAt.toNat
      claimant := r.claimedIdentity
      checkedAt := now }

/-- Is there a leaf of this device with the credential's MLS key? -/
def someLeafBinds (members : List Member) (deviceId key : Bytes) : Bool :=
  members.any fun m => m.deviceId = some deviceId && m.signatureKey = key

/-- The name a sender gave itself, where the contact has none yet. -/
def adoptName (identity : Bytes) : Option String → Client Unit
  | none => pure ()
  | some name => do
      let unnamed ← Prog.read fun s => (contact s identity).any fun c => c.name.isNone
      Prog.when (unnamed = true) (contactRename identity name)

/-- Accept the claimant, with the route that bound. -/
def connectInvitation (h : InvitationHello) (op : InvitationOperation) (device text : Bytes) : Client Unit :=
  Prog.unitOfWork do
    contactRouteSave h.sender device text
    adoptName h.sender h.name
    Prog.modify (requestResolve h.groupId true)
    Prog.modify (invitationOperationSave op)
    Prog.modify (invitationHelloRemove h.groupId)

def settlePeers (pf : Platform) (now : Int) (group : Bytes) (h : InvitationHello) (op : InvitationOperation)
    (receipt : InvitationRecord) : List Peer → Net Unit
  | [] => pure ()
  | peer :: rest =>
      match routeOfPeer peer with
      | none => settlePeers pf now group h op receipt rest
      | some text => do
          let parsed ← Prog.ofExcept (Route.parse pf.crypto text)
          match (← skipDomain (verifiedRouteCredential relay pf now parsed)) with
          | none => settlePeers pf now group h op receipt rest
          | some credential =>
              if someLeafBinds (pf.mlsRoster group) parsed.deviceId credential.mlsSignaturePublicKey then do
                let op ← Prog.ofExcept (applyRecord now op receipt)
                onStore (storage "invitation contact" (connectInvitation h
                  { op with state := "connected", groupId := h.groupId, link := "" } parsed.deviceId text))
              else settlePeers pf now group h op receipt rest

/-- One hello that carried an invitation secret of this device. -/
def settleHello (pf : Platform) (now : Int) (h : InvitationHello) : Net Unit := do
  match (← Prog.read fun w => invitationOperation w.store h.invitationId .outgoing) with
  | none => pure ()
  | some op =>
      if op.state = "revoked" ∨ op.state = "revoke-pending" ∨ (op.groupId ≠ [] ∧ op.groupId ≠ h.groupId) then pure ()
      else
        match (← Prog.attempt (request relay (.inviteGet op.id))) with
        | .error (.relay 410 _) => onStore (Prog.modify (invitationHelloRemove h.groupId))
        | .error e => Prog.fail e
        | .ok (.invitation receipt) =>
            if receipt.id ≠ op.id ∨ receipt.state ≠ "used" ∨ receipt.claimedIdentity ≠ h.sender ∨
                receipt.expiresAt < receipt.claimedAt then pure ()
            else if (← Prog.read fun w => Receive.declined w.store h.groupId) then
              onStore (Prog.modify (invitationHelloRemove h.groupId))
            else
              match (← Prog.read fun w => (conversations w.store).find? fun c => c.groupId = h.groupId) with
              | none => pure ()
              | some conv =>
                  let group ← onStore (pf.loadGroup h.groupId)
                  settlePeers relay pf now group h op receipt (conv.peers.filter fun p => p.identity = h.sender)
        | .ok _ => pure ()

def settle (pf : Platform) (now : Int) : Net Unit := do
  let hellos ← Prog.read fun w => w.store.invitationHellos.rows
  Prog.forEach hellos (settleHello relay pf now)

end Net

def saveSenderRoute (from_ : Bytes) (p : Peer) : App Unit :=
  match routeOfPeer p with
  | some route => if p.identity = from_ then storage "contact" (contactRouteSave from_ p.deviceId route) else pure ()
  | none => pure ()

/-- Make the sender a contact with the routes the conversation carries. -/
def acceptSender (groupId from_ : Bytes) (name : Option String) : App Unit := do
  let peers ← Prog.read fun s => ((conversations s).find? fun c => c.groupId = groupId).elim [] (·.peers)
  Prog.forEach peers (saveSenderRoute from_)
  storage "contact" (contactAccept from_)
  storage "contact" (Net.adoptName from_ name)

/-- Accepting makes the sender a contact; declining drops what arrives. -/
def answer (groupId : Bytes) (accept : Bool) : App Unit := do
  let req ← Prog.ofOption (.domain "no request waits for an answer here")
    (← Prog.read fun s => (Client.request s groupId).filter fun r => r.status = .pending)
  Prog.when (accept = true) (req.from_.elim (pure ()) fun from_ => acceptSender groupId from_ req.name)
  Prog.modify (requestResolve groupId accept)

namespace Receive

/-- What is inside an envelope, as this device opens it. -/
def openedMessage (pf : Platform) (s : Session) (mailbox : Bytes) (item : EnvelopeItem) : Except String MlsMessage :=
  match pf.openEnvelope s.device.keys.hpkePrivate ⟨1, s.realmId, mailbox, item.deliveryId⟩ item.hpkeEnc
      item.ciphertext with
  | .error e => .error e
  | .ok inner => pf.mlsFromBytes inner.payload

/-- Who said what in an envelope, computed: the group and its state after the message,
the leaf that sent it and the event. -/
def heard (pf : Platform) (s : Session) (st : Store) (mailbox : Bytes) (item : EnvelopeItem) :
    Option (Bytes × Bytes × UInt32 × AppEvent) := do
  let msg ← (openedMessage pf s mailbox item).toOption
  let gid ← msg.groupId
  let row ← st.mlsGroups.get? gid
  match (← (pf.mlsProcess (deviceRevoked st) row.state msg).toOption) with
  | (group, .applicationMessage leaf data) => (pf.decodeEvent data).toOption.map fun ev => (gid, group, leaf, ev)
  | _ => none

end Receive

end Arveil

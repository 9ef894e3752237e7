import Mathlib.Data.List.Sort
import Arveil.Spec.Identity

/-! The tables of a client profile, the errors of the client layer and the
operations of `client.rs` on identities, devices, manifests, contacts and
conversations. What SQLite or the system draws (the clock, a seed, fresh keys) is
an argument. A row stands where its row id puts it; a column that holds 0 or 1 is
a `Bool`, and a sequence number is stored as a signed 64-bit integer. -/

namespace Arveil

structure IdentityRow where
  rootSeed : Option Bytes
  rootPublic : Bytes
  identityId : Bytes
deriving DecidableEq, Repr

/-- The keys of one device; `public` is what it presents of them. -/
structure DeviceKeys where
  deviceId : Bytes
  noisePrivate : Bytes
  noisePublic : Bytes
  hpkePrivate : Bytes
  hpkePublic : Bytes
  mlsSigningPublicKey : Bytes
deriving DecidableEq, Repr

def DeviceKeys.public (k : DeviceKeys) : DevicePublicKeys where
  deviceId := k.deviceId
  mlsSignaturePublicKey := k.mlsSigningPublicKey
  transportNoisePublicKey := k.noisePublic
  envelopeHpkePublicKey := k.hpkePublic

structure StoredDevice where
  keys : DeviceKeys
  mlsSigningSecret : Bytes
  credential : Bytes
  credentialHash : Bytes
deriving DecidableEq, Repr

structure ManifestRow where
  identityId : Bytes
  sequence : Int64
  signed : Bytes
  hash : Bytes
deriving DecidableEq, Repr

structure OwnDevice where
  deviceId : Bytes
  credentialHash : Bytes
  revoked : Bool
deriving DecidableEq, Repr

structure Revocation where
  deviceId : Bytes
  notificationId : Bytes
  relayPublished : Bool
deriving DecidableEq, Repr

structure RevocationGroup where
  deviceId : Bytes
  groupId : Bytes
  withoutRoute : Nat
deriving DecidableEq, Repr

structure PeerManifestRow where
  identityId : Bytes
  sequence : Int64
  hash : Bytes
  active : Option Bytes
deriving DecidableEq, Repr

inductive VerifiedHow where
  | comparison
  | inPerson
deriving DecidableEq, Repr

structure ContactRow where
  identityId : Bytes
  rootPublic : Bytes
  name : Option String
  verified : Bool
  verifiedAt : Option Int
  accepted : Bool
  verifiedHow : Option VerifiedHow
deriving DecidableEq, Repr

theorem ContactRow.accepted_key (c : ContactRow) : ({ c with accepted := true } : ContactRow).identityId = c.identityId := rfl

structure ContactRoute where
  identityId : Bytes
  deviceId : Bytes
  route : Bytes
deriving DecidableEq, Repr

inductive RequestStatus where
  | pending
  | declined
deriving DecidableEq, Repr

/-- What a card did for a conversation that someone started. -/
inductive CardUse where
  | none
  | link (createdAt : Int)
  | inPersonPending
  | inPerson
deriving DecidableEq, Repr

structure ConversationRow where
  groupId : Bytes
  creator : Bool
  createdAt : Int
  request : Option RequestStatus
  requestFrom : Option Bytes
  requestCard : CardUse
  requestName : Option String
deriving DecidableEq, Repr

/-- One device of a conversation; the upsert of `conversation_save` writes the
route fields and the flag of a known one only. -/
structure PeerRow where
  groupId : Bytes
  deviceId : Bytes
  peerIdentity : Bytes
  credentialHash : Bytes
  rootPublic : Bytes
  mailbox : Option Bytes
  writeCap : Option Bytes
  hpke : Option Bytes
  revoked : Bool
deriving DecidableEq, Repr

inductive CardKind where
  | inPerson
  | link
deriving DecidableEq, Repr

structure OwnCard where
  secret : Bytes
  kind : CardKind
  createdAt : Int
  expiresAt : Int
  usedAt : Option Int
  revoked : Bool
deriving DecidableEq, Repr

inductive InvitationDirection where
  | outgoing
  | incoming
deriving DecidableEq, Repr

structure InvitationOperation where
  id : Bytes
  direction : InvitationDirection
  link : String
  requestKey : Bytes
  claimKey : Bytes
  secret : Bytes
  state : String
  createdAt : Int
  expiresAt : Int
  claimant : Bytes
  groupId : Bytes
  keyPackage : Bytes
  checkedAt : Int
deriving DecidableEq, Repr

structure InvitationHello where
  groupId : Bytes
  invitationId : Bytes
  sender : Bytes
  name : Option String
deriving DecidableEq, Repr

structure MailboxOwn where
  mailboxId : Bytes
  readCapability : Bytes
  writeCapability : Bytes
  createdAt : Int
deriving DecidableEq, Repr

inductive OutboxState where
  | sealed
  | accepted
  | undeliverable
deriving DecidableEq, Repr

structure OutboxRow where
  id : Nat
  mailboxId : Bytes
  deliveryId : Bytes
  eventId : Option Bytes
  hpkeEnc : Bytes
  ciphertext : Bytes
  state : OutboxState
  attempts : Nat
  expiresAt : Option Int
deriving DecidableEq, Repr

structure InboxRow where
  mailboxId : Bytes
  deliveryId : Bytes
  seq : Int64
  acked : Bool
deriving DecidableEq, Repr

structure CursorRow where
  mailboxId : Bytes
  cursor : Int64
deriving DecidableEq, Repr

inductive EventKind where
  | sent
  | received
  | sentFile
  | fileOutgoing
  | receivedFile
  | filePending
  | fileUnavailable
  | devicesChanged
deriving DecidableEq, Repr

structure EventRow where
  groupId : Bytes
  eventId : Bytes
  kind : EventKind
  body : Bytes
  senderDevice : Option Bytes
  senderIdentity : Option Bytes
deriving DecidableEq, Repr

theorem EventRow.written_key (kind : EventKind) (body : Bytes) (e : EventRow) :
    ({ e with kind := kind, body := body } : EventRow).eventId = e.eventId := rfl

structure MlsGroupRow where
  groupId : Bytes
  state : Bytes
deriving DecidableEq, Repr

structure KeyPackageRow where
  id : Bytes
  data : Bytes
deriving DecidableEq, Repr

/-- The tables of one profile that the modelled operations read or write. -/
structure Store where
  identity : Option IdentityRow
  device : Table fun d : StoredDevice => d.keys.deviceId
  manifest : Table fun r : ManifestRow => (r.identityId, r.sequence)
  identityDevices : Table OwnDevice.deviceId
  deviceRevocations : Table Revocation.deviceId
  revocationGroups : Table fun r : RevocationGroup => (r.deviceId, r.groupId)
  peerManifests : Table PeerManifestRow.identityId
  contacts : Table ContactRow.identityId
  contactRoutes : Table fun r : ContactRoute => (r.identityId, r.deviceId)
  conversations : Table ConversationRow.groupId
  peers : Table fun r : PeerRow => (r.groupId, r.deviceId)
  contactCards : Table OwnCard.secret
  invitationOperations : Table fun r : InvitationOperation => (r.id, r.direction)
  invitationHellos : Table InvitationHello.groupId
  mailboxOwn : Table MailboxOwn.mailboxId
  outbox : Table OutboxRow.id
  inbox : Table fun r : InboxRow => (r.mailboxId, r.deliveryId)
  mailboxCursor : Table CursorRow.mailboxId
  events : Table EventRow.eventId
  mlsGroups : Table MlsGroupRow.groupId
  mlsKeyPackages : Table KeyPackageRow.id

def Store.empty : Store where
  identity := none
  device := .empty
  manifest := .empty
  identityDevices := .empty
  deviceRevocations := .empty
  revocationGroups := .empty
  peerManifests := .empty
  contacts := .empty
  contactRoutes := .empty
  conversations := .empty
  peers := .empty
  contactCards := .empty
  invitationOperations := .empty
  invitationHellos := .empty
  mailboxOwn := .empty
  outbox := .empty
  inbox := .empty
  mailboxCursor := .empty
  events := .empty
  mlsGroups := .empty
  mlsKeyPackages := .empty

inductive ClientError where
  | sqlite (e : SqlError)
  | identity (e : IdentityError)
  | identityExists
  | noIdentity
  | noDevice
  | noRoot
  | unknownDevice (device : String)
  | revokeSelf
  | revokedDevice
  | unknownIdentity
  | contactRootMismatch (identity : String)
  | noSuchContact (identity : String)
deriving DecidableEq, Repr

def ClientError.message : ClientError → String
  | .sqlite e => "sqlite: " ++ e.message
  | .identity e => e.message
  | .identityExists => "client: identity already exists"
  | .noIdentity => "client: no identity; run \x60identity new\x60 first"
  | .noDevice => "client: no device enrolled"
  | .noRoot => "client: this device holds no root key; run this on the administration device"
  | .unknownDevice d => "client: unknown device " ++ d ++ " for this identity"
  | .revokeSelf => "client: refusing to revoke the device in use; do it from another device"
  | .revokedDevice => "client: this device was revoked; link a fresh profile with new device keys"
  | .unknownIdentity => "client: manifest for an identity with no known root key"
  | .contactRootMismatch i =>
      "client: identity " ++ i ++
        " is a verified contact whose root key does not match this route; refusing to accept it"
  | .noSuchContact i =>
      "client: no contact " ++ i ++ " to verify; you have to meet them in a conversation first"

abbrev Sql (α : Type) := Prog Store SqlError α

abbrev Client (α : Type) := Prog Store ClientError α

/-- `INSERT INTO what`: a taken primary key is refused. -/
def sqlInsert {ρ κ : Type} {key : ρ → κ} [DecidableEq κ] (what : String) (table : Store → Table key)
    (put : Store → Table key → Store) (row : ρ) : Sql Unit :=
  Prog.tryModify fun s =>
    match (table s).insert row with
    | some t => .ok (put s t)
    | none => .error (.constraint what)

def insertInto {ρ κ : Type} {key : ρ → κ} [DecidableEq κ] (what : String) (table : Store → Table key)
    (put : Store → Table key → Store) (row : ρ) : Client Unit :=
  Prog.mapError .sqlite (sqlInsert what table put row)

def liftIdentity {α : Type} (r : Except IdentityError α) : Client α :=
  Prog.mapError .identity (Prog.ofExcept r)

namespace Client

variable (cx : Crypto)

def identityNew (seed : Bytes) : Client Unit := do
  match (← Prog.read (·.identity)).bind (·.rootSeed) with
  | some _ => Prog.fail .identityExists
  | none => pure ()
  Prog.tryModify fun s =>
    match s.identity with
    | some _ => .error (.sqlite (.constraint "identity.id"))
    | none =>
        let root := cx.publicKey seed
        .ok { s with identity := some ⟨some seed, root, Identity.identityId cx root⟩ }

def identityId (s : Store) : Option Bytes := s.identity.map (·.identityId)

def rootPublic (s : Store) : Option Bytes := s.identity.map (·.rootPublic)

def root (s : Store) : Option Bytes := s.identity.bind (·.rootSeed)

def device (s : Store) : Option StoredDevice := s.device.rows.head?

def ownDevices (s : Store) : List OwnDevice := s.identityDevices.rows

/-- The identity a device in `group` belongs to: this profile's own for this
device and those it authorized, a peer's from that conversation's roster. -/
def deviceIdentity (s : Store) (group device : Bytes) : Option Bytes :=
  let own := s.identity.filter fun _ =>
    (s.device.get? device).isSome || (s.identityDevices.get? device).isSome
  (own.map (·.identityId)).or ((s.peers.get? (group, device)).map (·.peerIdentity))

/-- `ORDER BY sequence DESC LIMIT 1` -/
def newestRow : List ManifestRow → Option ManifestRow
  | [] => none
  | r :: rs =>
      match newestRow rs with
      | some b => if r.sequence < b.sequence then some b else some r
      | none => some r

def manifestState (s : Store) : Option Identity.ManifestState :=
  (newestRow s.manifest.rows).map fun r => ⟨r.sequence.toUInt64, r.hash⟩

def latestManifest (s : Store) : Option Bytes := (newestRow s.manifest.rows).map (·.signed)

/-- Body of the newest manifest this client stored. -/
def latestManifestBody : Client (Option DeviceManifest) := do
  match (← Prog.read latestManifest) with
  | none => pure none
  | some signed =>
      let root ← Prog.ofOption .noIdentity (← Prog.read rootPublic)
      let (body, _) ← liftIdentity (Identity.acceptManifest cx signed root none)
      pure (some body)

def insertManifest (row : ManifestRow) : Client Unit :=
  insertInto "manifest.identity_id, manifest.sequence" (·.manifest) ({ · with manifest := · }) row

def defaultValiditySecs : UInt64 := 365 * 24 * 3600

/-- From five minutes ago, for a year. -/
def validityAt (now : UInt64) : Validity where
  notBefore := if now < 300 then 0 else now - 300
  notAfter := now + defaultValiditySecs

def allUses : UInt8 := useMlsLeaf ||| useTransport ||| useEnvelope

/-- Issue the credential and the manifest of this device under the local root.
After a kit recovery every credential the chain listed is revoked with it. -/
def deviceNewInUnit (keys : DeviceKeys) (mlsSigningSecret : Bytes) (now : UInt64) :
    Client (StoredDevice × Bytes) := do
  let seed ← Prog.ofOption .noIdentity (← Prog.read root)
  let credential := Identity.issueCredential cx seed keys.public (validityAt now) allUses
  let credentialHash := Identity.credentialHash cx credential
  let previous ← Prog.read manifestState
  let old ← latestManifestBody cx
  let revoked := old.elim [] fun b => b.activeCredentialHashes ++ b.revokedCredentialHashes
  let manifest := Identity.issueManifest cx seed previous [credentialHash] revoked
  let (body, state) ← liftIdentity (Identity.acceptManifest cx manifest (cx.publicKey seed) previous)
  let stored : StoredDevice := ⟨keys, mlsSigningSecret, credential, credentialHash⟩
  insertInto "device.device_id" (·.device) ({ · with device := · }) stored
  insertManifest ⟨body.identityId, state.sequence.toInt64, manifest, state.hash⟩
  insertInto "identity_devices.device_id" (·.identityDevices) ({ · with identityDevices := · })
    ⟨keys.deviceId, credentialHash, false⟩
  pure (stored, manifest)

def deviceNew (keys : DeviceKeys) (mlsSigningSecret : Bytes) (now : UInt64) : Client (StoredDevice × Bytes) :=
  Prog.unitOfWork (deviceNewInUnit cx keys mlsSigningSecret now)

/-- Administration device: sign a credential for `device` and the next manifest,
which lists it active alongside the current ones. -/
def deviceAuthorize (device : DevicePublicKeys) (now : UInt64) : Client (Bytes × Bytes) := do
  let seed ← Prog.ofOption .noRoot (← Prog.read root)
  if (← Prog.read ownDevices).any (fun d => d.deviceId = device.deviceId && d.revoked) then
    Prog.fail .revokedDevice
  else
    let credential := Identity.issueCredential cx seed device (validityAt now) allUses
    let hash := Identity.credentialHash cx credential
    let previous ← Prog.read manifestState
    let body ← latestManifestBody cx
    let active := body.elim [] (·.activeCredentialHashes) ++ [hash]
    let revoked := body.elim [] (·.revokedCredentialHashes)
    let manifest := Identity.issueManifest cx seed previous active revoked
    let (mbody, state) ← liftIdentity (Identity.acceptManifest cx manifest (cx.publicKey seed) previous)
    Prog.unitOfWork do
      insertManifest ⟨mbody.identityId, state.sequence.toInt64, manifest, state.hash⟩
      Prog.modify fun s =>
        { s with identityDevices := s.identityDevices.replace ⟨device.deviceId, hash, false⟩ }
    pure (credential, manifest)

def deviceRevoked (s : Store) (device : Bytes) : Bool :=
  s.peers.rows.any (fun p => p.deviceId = device && p.revoked) ||
    s.identityDevices.rows.any (fun d => d.deviceId = device && d.revoked)

/-- Mark every row carrying this credential hash, in every conversation. -/
def markRevoked (hash : Bytes) (s : Store) : Store :=
  { s with
    peers := s.peers.update (fun p => p.credentialHash = hash && !p.revoked) ({ · with revoked := true })
      fun _ => rfl
    identityDevices := s.identityDevices.update (fun d => d.credentialHash = hash)
      ({ · with revoked := true }) fun _ => rfl }

/-- The rows changed in `peers`, hash by hash. -/
def peersMarkRevoked (hashes : List Bytes) : Client Nat := do
  match hashes with
  | [] => pure 0
  | h :: hs =>
      let n ← Prog.read fun s => (s.peers.rows.filter fun p => p.credentialHash = h && !p.revoked).length
      Prog.modify (markRevoked h)
      let m ← peersMarkRevoked hs
      pure (n + m)

/-- A retry retains its marker; both columns of the journal are unique. -/
def revocationStart (device marker : Bytes) (s : Store) : Store :=
  if s.deviceRevocations.rows.any (fun r => r.notificationId = marker) then s
  else { s with deviceRevocations := s.deviceRevocations.insertOrIgnore ⟨device, marker, false⟩ }

/-- `ORDER BY rowid` -/
def revocations (s : Store) : List Revocation := s.deviceRevocations.rows

def revocationGroupQueued (s : Store) (device group : Bytes) : Bool :=
  (s.revocationGroups.get? (device, group)).isSome

def revocationGroupRecord (device group : Bytes) (withoutRoute : Nat) (s : Store) : Store :=
  { s with
    revocationGroups := s.revocationGroups.upsert
      (fun r n => { r with withoutRoute := r.withoutRoute + n.withoutRoute }) (fun _ _ => rfl)
      ⟨device, group, withoutRoute⟩ }

def deviceRevokeInUnit (device : Bytes) : Client (Bytes × Bytes) := do
  let seed ← Prog.ofOption .noRoot (← Prog.read root)
  let me ← Prog.ofOption .noDevice (← Prog.read Client.device)
  if me.keys.deviceId = device then Prog.fail .revokeSelf
  else
    let known ← Prog.ofOption (.unknownDevice (hexOf device))
      ((← Prog.read ownDevices).find? fun d => d.deviceId = device)
    let hash := known.credentialHash
    let previous ← Prog.read manifestState
    let body ← Prog.ofOption .noIdentity (← latestManifestBody cx)
    let marker := utf8 "revocation:" ++ hash
    -- Retrying an already committed revocation must not sign another version.
    if hash ∈ body.revokedCredentialHashes then
      let _ ← peersMarkRevoked [hash]
      Prog.modify (revocationStart device marker)
      let latest ← Prog.ofOption .noIdentity (← Prog.read latestManifest)
      pure (latest, hash)
    else
      let active := body.activeCredentialHashes.filter (· ≠ hash)
      let revoked := body.revokedCredentialHashes ++ [hash]
      let manifest := Identity.issueManifest cx seed previous active revoked
      let (mbody, state) ← liftIdentity (Identity.acceptManifest cx manifest (cx.publicKey seed) previous)
      insertManifest ⟨mbody.identityId, state.sequence.toInt64, manifest, state.hash⟩
      let _ ← peersMarkRevoked [hash]
      Prog.modify (revocationStart device marker)
      pure (manifest, hash)

def deviceRevoke (device : Bytes) : Client (Bytes × Bytes) :=
  Prog.unitOfWork (deviceRevokeInUnit cx device)

/-- A manifest of this device's own identity, from another own device or from the
realm. Returns the body and whether it was new. -/
def manifestAcceptOwn (signed : Bytes) : Client (DeviceManifest × Bool) := do
  let root ← Prog.ofOption .noIdentity (← Prog.read rootPublic)
  let known ← Prog.read manifestState
  let (body, state) ← liftIdentity (Identity.acceptManifest cx signed root known)
  let new := known.map (·.sequence) ≠ some state.sequence
  Prog.when new (insertManifest ⟨body.identityId, state.sequence.toInt64, signed, state.hash⟩)
  let _ ← peersMarkRevoked body.revokedCredentialHashes
  pure (body, decide new)

/-- Devices an accepted manifest added to or removed from the active set. -/
structure DeviceChange where
  added : UInt32
  removed : UInt32
deriving DecidableEq, Repr

def DeviceChange.isEmpty (c : DeviceChange) : Bool := c.added = 0 && c.removed = 0

def deviceChange (active previous : List Bytes) : DeviceChange where
  added := (active.dedup.filter (· ∉ previous)).length.toUInt32
  removed := (previous.dedup.filter (· ∉ active)).length.toUInt32

def peerManifestState (s : Store) (identity : Bytes) : Option Identity.ManifestState :=
  (s.peerManifests.get? identity).map fun r => ⟨r.sequence.toUInt64, r.hash⟩

/-- The root stored for an identity: that of its first row in `peers`. -/
def peerRoot (s : Store) (identity : Bytes) : Option Bytes :=
  (s.peers.rows.find? fun p => p.peerIdentity = identity).map (·.rootPublic)

def savePeerManifest (row : PeerManifestRow) (s : Store) : Store :=
  { s with
    peerManifests := s.peerManifests.upsert
      (fun r n => { r with sequence := n.sequence, hash := n.hash, active := n.active }) (fun _ _ => rfl) row }

/-- A manifest of a peer identity, verified under the root learned from that
peer's routes. Revoked hashes mark the matching rows in every conversation. -/
def peerManifestAccept (identity signed : Bytes) : Client (DeviceManifest × Bool × DeviceChange) := do
  let rootBytes ← Prog.ofOption .unknownIdentity (← Prog.read (peerRoot · identity))
  let root ← Prog.ofOption .unknownIdentity (Identity.verifyingKey cx rootBytes)
  let known ← Prog.read (peerManifestState · identity)
  let (body, state) ← liftIdentity (Identity.acceptManifest cx signed root known)
  let new := known.map (·.sequence) ≠ some state.sequence
  let previous ← Prog.read fun s =>
    ((s.peerManifests.get? identity).bind (·.active)).bind fun b => (cx.decodeHashes b).toOption
  let change := if new then previous.elim ⟨0, 0⟩ (deviceChange body.activeCredentialHashes) else ⟨0, 0⟩
  Prog.when new (Prog.modify (savePeerManifest
    ⟨identity, state.sequence.toInt64, state.hash, some (cx.encodeHashes body.activeCredentialHashes)⟩))
  let _ ← peersMarkRevoked body.revokedCredentialHashes
  pure (body, decide new, change)

/-- The order of blobs: byte by byte, a proper beginning first. -/
def bytesLe : Bytes → Bytes → Bool
  | [], _ => true
  | _ :: _, [] => false
  | a :: as, b :: bs => a < b || (a = b && bytesLe as bs)

/-- Conversations in which `identity` holds a device. -/
def groupsWithIdentity (s : Store) (identity : Bytes) : List Bytes :=
  (((s.peers.rows.filter fun p => p.peerIdentity = identity).map (·.groupId)).dedup).insertionSort
    fun a b => bytesLe a b

def contact (s : Store) (identity : Bytes) : Option ContactRow := s.contacts.get? identity

def updateContact (identity : Bytes) (f : ContactRow → ContactRow)
    (hf : ∀ r, (f r).identityId = r.identityId) (s : Store) : Store :=
  { s with contacts := s.contacts.update (fun c => c.identityId = identity) f hf }

/-- Remember an identity seen in a conversation, with the root its route carries.
A root that contradicts a verified contact is refused. -/
def contactSeen (identity rootPublic : Bytes) : Client Unit := do
  match (← Prog.read (contact · identity)) with
  | some c =>
      if c.rootPublic = rootPublic then pure ()
      else if c.verified then Prog.fail (.contactRootMismatch (hexOf identity))
      else Prog.modify (updateContact identity ({ · with rootPublic := rootPublic }) fun _ => rfl)
  | none =>
      insertInto "contacts.identity_id" (·.contacts) ({ · with contacts := · })
        ⟨identity, rootPublic, none, false, none, false, none⟩

def contactRename (identity : Bytes) (name : String) : Client Unit := do
  match (← Prog.read (contact · identity)) with
  | none => Prog.fail (.noSuchContact (hexOf identity))
  | some _ =>
      let value := if (trim name).isEmpty then none else some (trim name)
      Prog.modify (updateContact identity ({ · with name := value }) fun _ => rfl)

/-- Saving someone's route is choosing them as a contact. -/
def contactRouteSave (identity device route : Bytes) : Client Unit := do
  match (← Prog.read (contact · identity)) with
  | none => Prog.fail (.noSuchContact (hexOf identity))
  | some _ =>
      Prog.modify fun s =>
        { s with
          contactRoutes := s.contactRoutes.upsert (fun r n => { r with route := n.route }) (fun _ _ => rfl)
            ⟨identity, device, route⟩ }
      Prog.modify (updateContact identity ({ · with accepted := true }) ContactRow.accepted_key)

structure Peer where
  identity : Bytes
  deviceId : Bytes
  credentialHash : Bytes
  rootPublic : Bytes
  mailbox : Option Bytes
  writeCap : Option Bytes
  hpke : Option Bytes
  revoked : Bool
deriving DecidableEq, Repr

structure Conversation where
  groupId : Bytes
  creator : Bool
  peers : List Peer
deriving DecidableEq, Repr

def peerRow (groupId : Bytes) (p : Peer) : PeerRow :=
  ⟨groupId, p.deviceId, p.identity, p.credentialHash, p.rootPublic, p.mailbox, p.writeCap, p.hpke, p.revoked⟩

/-- Known route fields are never overwritten with `NULL`, nor a revocation undone. -/
def mergePeer (r new : PeerRow) : PeerRow :=
  { r with
    mailbox := new.mailbox.or r.mailbox
    writeCap := new.writeCap.or r.writeCap
    hpke := new.hpke.or r.hpke
    revoked := r.revoked || new.revoked }

def savePeer (groupId : Bytes) (p : Peer) (s : Store) : Store :=
  { s with peers := s.peers.upsert mergePeer (fun _ _ => rfl) (peerRow groupId p) }

def saveConversationRow (at_ : Int) (groupId : Bytes) (creator : Bool) (s : Store) : Store :=
  { s with
    conversations := s.conversations.upsert (fun r n => { r with creator := r.creator || n.creator })
      (fun _ _ => rfl) ⟨groupId, creator, at_, none, none, .none, none⟩ }

/-- Create or refresh a conversation row and upsert its peers. Every peer's root
is first checked against what this device knows about that identity. -/
def conversationSave (at_ : Int) (c : Conversation) : Client Unit := do
  let own ← Prog.read identityId
  Prog.forEach c.peers fun p =>
    if !p.rootPublic.isEmpty && own ≠ some p.identity then contactSeen p.identity p.rootPublic else pure ()
  Prog.modify (saveConversationRow at_ c.groupId c.creator)
  Prog.forEach c.peers fun p => Prog.modify (savePeer c.groupId p)

def peerLe (a b : PeerRow) : Bool :=
  if a.peerIdentity = b.peerIdentity then bytesLe a.deviceId b.deviceId
  else bytesLe a.peerIdentity b.peerIdentity

def peerOfRow (r : PeerRow) : Peer :=
  ⟨r.peerIdentity, r.deviceId, r.credentialHash, r.rootPublic, r.mailbox, r.writeCap, r.hpke, r.revoked⟩

/-- `ORDER BY peer_identity, device_id` -/
def peersOf (s : Store) (groupId : Bytes) : List Peer :=
  ((s.peers.rows.filter fun p => p.groupId = groupId).insertionSort fun a b => peerLe a b).map peerOfRow

def conversation (s : Store) (groupId : Bytes) : Option Conversation :=
  (s.conversations.get? groupId).map fun r => ⟨groupId, r.creator, peersOf s groupId⟩

/-- `ORDER BY created_at` -/
def conversations (s : Store) : List Conversation :=
  (s.conversations.rows.insertionSort fun a b => a.createdAt ≤ b.createdAt).filterMap fun r =>
    conversation s r.groupId

end Client

end Arveil

import Arveil.Spec.Relay
import Arveil.Spec.RelayIdentity

/-! The relay's database (`relay/internal/store`): memberships, credentials and manifests,
invitations, mailboxes and their capabilities, key packages, watch keys, hints and blobs.
A transaction is a program that leaves nothing behind when it fails. Constraints of the
schema that are no primary key stand in the insert they refuse. -/

namespace Arveil.RelayStore

inductive Status where
  | active
  | revoked
deriving DecidableEq, Repr

structure MembershipRow where
  identityId : Bytes
  rootPublic : Bytes
  role : String
  status : Status
deriving DecidableEq, Repr

structure InviteRow where
  tokenHash : Bytes
  role : String
  expiresAt : Int
  usesLeft : Int
deriving DecidableEq, Repr

structure CredentialRow where
  credentialHash : Bytes
  identityId : Bytes
  deviceId : Bytes
  transportKey : Bytes
  signed : Bytes
  status : Status
  notAfter : Int
deriving DecidableEq, Repr

structure RedemptionRow where
  tokenHash : Bytes
  identityId : Bytes
  credentialHash : Bytes
deriving DecidableEq, Repr

structure ManifestRow where
  identityId : Bytes
  sequence : Nat
  signed : Bytes
deriving DecidableEq, Repr

structure RecoveryRow where
  credentialHash : Bytes
  signedManifest : Bytes
  previousSequence : Nat
deriving DecidableEq, Repr

structure WatchKeyRow where
  identityId : Bytes
  deviceId : Bytes
  watchKey : Bytes
deriving DecidableEq, Repr

/-- Who owns a mailbox; its queue counter stands with the queue. -/
structure OwnerRow where
  mailboxId : Bytes
  ownerIdentity : Bytes
  ownerDevice : Bytes
deriving DecidableEq, Repr

inductive Scope where
  | read
  | write
deriving DecidableEq, Repr

structure CapabilityRow where
  capHash : Bytes
  mailboxId : Bytes
  scope : Scope
  expiresAt : Int
  revoked : Bool
deriving DecidableEq, Repr

structure MailboxRequestRow where
  requestKey : Bytes
  ownerDevice : Bytes
  mailboxId : Bytes
  readHash : Bytes
  writeHash : Bytes
deriving DecidableEq, Repr

structure HintRow where
  deviceId : Bytes
  url : String
deriving DecidableEq, Repr

structure KeyPackageRow where
  ref : Bytes
  identityId : Bytes
  deviceId : Bytes
  bytes : Bytes
  published : Int
  consumed : Bool
deriving DecidableEq, Repr

structure ClaimReceiptRow where
  claimant : Bytes
  requestKey : Bytes
  identityId : Bytes
  deviceId : Bytes
  package : Bytes
  createdAt : Int
deriving DecidableEq, Repr

inductive InvitationState where
  | pending
  | used
  | revoked
  | expired
deriving DecidableEq, Repr

structure IssuedRow where
  seq : Nat
  tokenHash : Bytes
  issuer : Bytes
  requestKey : Bytes
  createdAt : Int
  expiresAt : Int
  ttl : UInt64
  state : InvitationState
  claimedIdentity : Bytes
  claimedAt : Int
deriving DecidableEq, Repr

inductive BlobState where
  | staging
  | committed
deriving DecidableEq, Repr

structure BlobRow where
  blobId : Bytes
  ownerIdentity : Bytes
  readCapHash : Bytes
  declaredSize : Nat
  storedSize : Nat
  state : BlobState
  createdAt : Int
  expiresAt : Int
deriving DecidableEq, Repr

theorem BlobRow.grown_key (n : Nat) (b : BlobRow) : ({ b with storedSize := b.storedSize + n } : BlobRow).blobId = b.blobId := rfl

theorem BlobRow.committed_key (expiry : Int) (b : BlobRow) :
    ({ b with state := .committed, expiresAt := expiry } : BlobRow).blobId = b.blobId := rfl

structure BlobFile where
  blobId : Bytes
  content : Bytes
deriving DecidableEq, Repr

theorem BlobFile.appended_key (data : Bytes) (f : BlobFile) :
    ({ f with content := f.content ++ data } : BlobFile).blobId = f.blobId := rfl

structure Db where
  memberships : Table MembershipRow.identityId
  invites : Table InviteRow.tokenHash
  credentials : Table CredentialRow.credentialHash
  redemptions : Table fun r : RedemptionRow => (r.tokenHash, r.identityId)
  manifests : Table fun m : ManifestRow => (m.identityId, m.sequence)
  recoveries : Table RecoveryRow.credentialHash
  watchKeys : Table fun w : WatchKeyRow => (w.identityId, w.deviceId)
  owners : Table OwnerRow.mailboxId
  capabilities : Table CapabilityRow.capHash
  mailboxRequests : Table MailboxRequestRow.requestKey
  hints : Table HintRow.deviceId
  keyPackages : Table KeyPackageRow.ref
  receipts : Table fun r : ClaimReceiptRow => (r.claimant, r.requestKey)
  issued : Table IssuedRow.tokenHash
  /-- the number the next issued invitation gets -/
  nextIssued : Nat
  blobs : Table BlobRow.blobId
  staging : Table BlobFile.blobId
  files : Table BlobFile.blobId
  queue : RelayQueue.Queue

def Db.empty : Db where
  memberships := .empty
  invites := .empty
  credentials := .empty
  redemptions := .empty
  manifests := .empty
  recoveries := .empty
  watchKeys := .empty
  owners := .empty
  capabilities := .empty
  mailboxRequests := .empty
  hints := .empty
  keyPackages := .empty
  receipts := .empty
  issued := .empty
  nextIssued := 1
  blobs := .empty
  staging := .empty
  files := .empty
  queue := ⟨.empty, .empty⟩

inductive StoreError where
  | inviteInvalid
  | alreadyMember
  | deviceKeyInUse
  | alreadyRedeemed
  | manifestOrder
  | unknownIdentity
  | requestConflict
  | capabilityInUse
  | invitePermission
  | inviteQuota
  | inviteRequest
  | inviteUsed
  | keyPackageBatch
  | noKeyPackage
  | watchKeyInUse
  | watchKeyShape
  | capability
  | envelopeTooBig
  | mailboxFull
  | deliveryConflict
  | unknownMailbox
  | blobUnknown
  | blobState
  | blobOffset
  | blobSize
  | blobHash
  | blobQuota
  | blobExpired
  | sqlite
  | file
deriving DecidableEq, Repr

abbrev Txn (α : Type) := Prog Db StoreError α

def require {α : Type} (e : StoreError) (f : Db → Option α) : Txn α := do
  Prog.ofOption e (← Prog.read f)

/-- An insert the schema may refuse. -/
def insertRow {ρ : Type} (e : StoreError) (f : ρ → Db → Option Db) (row : ρ) : Txn Unit :=
  Prog.tryModify fun db => match f row db with
    | some db => .ok db
    | none => .error e

def isMember (db : Db) (identityId : Bytes) : Prop := (db.memberships.get? identityId).isSome = true

instance (db : Db) (identityId : Bytes) : Decidable (isMember db identityId) := inferInstanceAs (Decidable (_ = true))

/-- What a redeemed invite creates. -/
structure Enrollment where
  identityId : Bytes
  rootPublic : Bytes
  credentialHash : Bytes
  deviceId : Bytes
  transportKey : Bytes
  signedCred : Bytes
  notAfter : Int
  manifestSeq : UInt64
  signedManifest : Bytes

/-- The device row the handshake looks up. -/
structure Device where
  credentialHash : Bytes
  identityId : Bytes
  deviceId : Bytes
  status : Status
  notAfter : Int
deriving DecidableEq, Repr

def CredentialRow.device (c : CredentialRow) : Device := ⟨c.credentialHash, c.identityId, c.deviceId, c.status, c.notAfter⟩

/-- One device id never names devices of two identities, a transport key is never also a
watch key, and the row must fit the schema. -/
def addCredential (e : Enrollment) (db : Db) : Option Db :=
  if db.credentials.rows.any (fun c => c.deviceId = e.deviceId && c.identityId ≠ e.identityId) then none
  else if db.watchKeys.rows.any (fun w => w.watchKey = e.transportKey) then none
  else if db.credentials.rows.any (fun c => c.transportKey = e.transportKey) then none
  else if ¬ isMember db e.identityId then none
  else (db.credentials.insert ⟨e.credentialHash, e.identityId, e.deviceId, e.transportKey, e.signedCred, .active, e.notAfter⟩).map
    fun t => { db with credentials := t }

def insertCredential (e : Enrollment) : Txn Unit := insertRow .deviceKeyInUse addCredential e

def addMembership (row : MembershipRow) (db : Db) : Option Db :=
  (db.memberships.insert row).map fun t => { db with memberships := t }

/-- A sequence past the largest signed integer is none the driver takes. -/
def addManifest (row : ManifestRow) (db : Db) : Option Db :=
  if 2 ^ 63 ≤ row.sequence ∨ ¬ isMember db row.identityId then none
  else (db.manifests.insert row).map fun t => { db with manifests := t }

def addRedemption (row : RedemptionRow) (db : Db) : Option Db :=
  (db.redemptions.insert row).map fun t => { db with redemptions := t }

def usableInvite (tokenHash : Bytes) (now : Int) (db : Db) : Option InviteRow :=
  (db.invites.get? tokenHash).filter fun i => decide (now < i.expiresAt) && decide (0 < i.usesLeft)

def setUsesLeft (tokenHash : Bytes) (f : Int → Int) (db : Db) : Db :=
  { db with invites := db.invites.update (fun i => i.tokenHash = tokenHash) (fun i => { i with usesLeft := f i.usesLeft }) fun _ => rfl }

def markUsed (tokenHash identityId : Bytes) (now : Int) (db : Db) : Db :=
  { db with
    issued := db.issued.update (fun i => i.tokenHash = tokenHash)
      (fun i => { i with state := .used, claimedIdentity := identityId, claimedAt := now }) fun _ => rfl }

/-- One use of the invite for membership, credential and manifest. A redemption already
made is answered from what was recorded. -/
def redeemInvite (tokenHash : Bytes) (now : Int) (e : Enrollment) : Txn Unit := Prog.unitOfWork do
  match (← Prog.read fun db => db.redemptions.get? (tokenHash, e.identityId)) with
  | some r => Prog.fail (if r.credentialHash = e.credentialHash then .alreadyRedeemed else .alreadyMember)
  | none =>
      let invite ← require .inviteInvalid (usableInvite tokenHash now)
      Prog.modify (setUsesLeft tokenHash (· - 1))
      insertRow .alreadyMember addMembership ⟨e.identityId, e.rootPublic, invite.role, .active⟩
      insertCredential e
      insertRow .sqlite addManifest ⟨e.identityId, e.manifestSeq.toNat, e.signedManifest⟩
      insertRow .sqlite addRedemption ⟨tokenHash, e.identityId, e.credentialHash⟩
      Prog.modify (markUsed tokenHash e.identityId now)

/-- Registers one more credential of a member. -/
def putCredential (e : Enrollment) : Txn Unit := Prog.unitOfWork (insertCredential e)

def deviceByTransportKey (key : Bytes) : Txn (Option Device) :=
  Prog.read fun db => (db.credentials.rows.find? fun c => c.transportKey = key).map (·.device)

def rootPublic (identityId : Bytes) : Txn Bytes :=
  require .unknownIdentity fun db => ((db.memberships.get? identityId).filter fun m => m.status = .active).map (·.rootPublic)

def manifestsOf (db : Db) (identityId : Bytes) : List ManifestRow :=
  (db.manifests.rows.filter fun m => m.identityId = identityId).insertionSort fun a b => b.sequence ≤ a.sequence

def newestManifest (db : Db) (identityId : Bytes) : Option ManifestRow := (manifestsOf db identityId).head?

def latestManifest (identityId : Bytes) : Txn (Option ManifestRow) := Prog.read (newestManifest · identityId)

def credentialByHash (identityId hash : Bytes) : Txn (Option Bytes) :=
  Prog.read fun db => ((db.credentials.get? hash).filter fun c => c.identityId = identityId).map (·.signed)

/-- A device that has no active credential left has no watch key. -/
def forgetWatchKey (identityId deviceId : Bytes) (db : Db) : Db :=
  if db.credentials.rows.any (fun c => c.identityId = identityId && c.deviceId = deviceId && c.status = .active) then db
  else { db with watchKeys := db.watchKeys.delete fun w => w.identityId = identityId && w.deviceId = deviceId }

def setRevoked (hash : Bytes) (db : Db) : Db :=
  { db with
    credentials := db.credentials.update (fun c => c.credentialHash = hash) (fun c => { c with status := .revoked }) fun _ => rfl }

def revokeCapabilities (identityId deviceId : Bytes) (db : Db) : Db :=
  { db with
    capabilities := db.capabilities.update
      (fun c => db.owners.rows.any fun o => o.mailboxId = c.mailboxId && o.ownerIdentity = identityId && o.ownerDevice = deviceId)
      (fun c => { c with revoked := true }) fun _ => rfl }

def revokeDevice (identityId hash deviceId : Bytes) (db : Db) : Db :=
  forgetWatchKey identityId deviceId (revokeCapabilities identityId deviceId (setRevoked hash db))

/-- Revokes what is not revoked yet, and counts it. -/
def revokeEach (identityId : Bytes) : List Bytes → Db → Nat × Db
  | [], db => (0, db)
  | hash :: hashes, db =>
      match (db.credentials.get? hash).filter fun c => c.identityId = identityId && c.status ≠ .revoked with
      | none => revokeEach identityId hashes db
      | some c =>
          let (n, db) := revokeEach identityId hashes (revokeDevice identityId hash c.deviceId db)
          (n + 1, db)

def revokeCredentials (identityId : Bytes) (hashes : List Bytes) : Txn Nat := fun db =>
  (.ok (revokeEach identityId hashes db).1, (revokeEach identityId hashes db).2)

/-- Stores a manifest that is newer than the stored one, or the same bytes again, with its
revocations. -/
def publishManifest (identityId : Bytes) (seq : UInt64) (signed : Bytes) (revoked : List Bytes) : Txn Nat :=
  Prog.unitOfWork do
    let newest ← Prog.read (newestManifest · identityId)
    Prog.when (newest.any (fun m => seq.toNat < m.sequence || (seq.toNat = m.sequence && m.signed ≠ signed)) = true)
      (Prog.fail .manifestOrder)
    Prog.when (newest.all (fun m => m.sequence < seq.toNat) = true)
      (insertRow .sqlite addManifest ⟨identityId, seq.toNat, signed⟩)
    revokeCredentials identityId revoked

/-- The revocations of a recovery: a credential already revoked is revoked again. -/
def revokeAgain (identityId : Bytes) : List Bytes → Db → Db
  | [], db => db
  | hash :: hashes, db =>
      match (db.credentials.get? hash).filter fun c => c.identityId = identityId with
      | none => revokeAgain identityId hashes db
      | some c => revokeAgain identityId hashes (revokeDevice identityId hash c.deviceId db)

def addRecovery (row : RecoveryRow) (db : Db) : Option Db :=
  if (db.credentials.get? row.credentialHash).isNone then none
  else (db.recoveries.insert row).map fun t => { db with recoveries := t }

/-- The recovery recorded for a credential, with the credential. -/
def recoveryOf (hash : Bytes) (db : Db) : Option (RecoveryRow × CredentialRow) := do
  let r ← db.recoveries.get? hash
  let c ← db.credentials.get? hash
  pure (r, c)

/-- Registers a new device of a member, authorized by its root alone. The same request
under a credential still active is answered as before. -/
def recoverIdentity (e : Enrollment) (revoked : List Bytes) (now : Int) : Txn Nat := Prog.unitOfWork do
  match (← Prog.read (recoveryOf e.credentialHash)) with
  | some (r, c) =>
      if r.signedManifest ≠ e.signedManifest ∨ c.identityId ≠ e.identityId ∨ c.signed ≠ e.signedCred ∨ c.status ≠ .active ∨
          c.notAfter ≤ now then Prog.fail .requestConflict
      else pure r.previousSequence
  | none =>
      let previous ← Prog.read fun db => ((newestManifest db e.identityId).map (·.sequence)).getD 0
      Prog.when (e.manifestSeq.toNat ≤ previous) (Prog.fail .manifestOrder)
      insertRow .sqlite addManifest ⟨e.identityId, e.manifestSeq.toNat, e.signedManifest⟩
      insertCredential e
      Prog.modify (revokeAgain e.identityId revoked)
      insertRow .sqlite addRecovery ⟨e.credentialHash, e.signedManifest, previous⟩
      pure previous

def activeDevice (identityId deviceId : Bytes) (now : Int) (db : Db) : Option Device :=
  ((db.credentials.rows.filter fun c =>
    c.identityId = identityId && c.deviceId = deviceId && c.status = .active && decide (now < c.notAfter)).insertionSort
      fun a b => b.notAfter ≤ a.notAfter).head?.map (·.device)

/-- Is the key a watch key, and of which device that is still active? -/
def deviceByWatchKey (key : Bytes) (now : Int) : Txn (Option Device × Bool) :=
  Prog.read fun db => match db.watchKeys.rows.find? fun w => w.watchKey = key with
    | none => (none, false)
    | some w => (activeDevice w.identityId w.deviceId now db, true)

def watchKeyBytes : Nat := 32

def addWatchKey (row : WatchKeyRow) (db : Db) : Option Db :=
  if db.watchKeys.rows.any (fun w => w.watchKey = row.watchKey && (w.identityId ≠ row.identityId || w.deviceId ≠ row.deviceId)) then
    none
  else some { db with watchKeys := db.watchKeys.upsert (fun w new => { w with watchKey := new.watchKey }) (fun _ _ => rfl) row }

/-- Registers, replaces or, with an empty key, removes the watch key of a device. -/
def setWatchKey (identityId deviceId key : Bytes) : Txn Unit :=
  if key = [] then Prog.modify fun db =>
    { db with watchKeys := db.watchKeys.delete fun w => w.identityId = identityId && w.deviceId = deviceId }
  else if key.length ≠ watchKeyBytes then Prog.fail .watchKeyShape
  else Prog.unitOfWork do
    let transport ← Prog.read fun db => db.credentials.rows.any fun c => c.transportKey = key
    Prog.when (transport = true) (Prog.fail .watchKeyInUse)
    insertRow .watchKeyInUse addWatchKey ⟨identityId, deviceId, key⟩

def setNotifyHint (deviceId : Bytes) (url : String) : Txn Unit := Prog.modify fun db =>
  { db with
    hints :=
      if url = "" then db.hints.delete fun h => h.deviceId = deviceId
      else db.hints.upsert (fun h new => { h with url := new.url }) (fun _ _ => rfl) ⟨deviceId, url⟩ }

end Arveil.RelayStore

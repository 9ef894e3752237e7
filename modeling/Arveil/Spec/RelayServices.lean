import Arveil.Spec.RelayStore

/-! What members use of the relay's store: mailboxes and capabilities, the queue, key
packages, personal invitations and blobs. What is drawn at random comes as an argument. -/

namespace Arveil.RelayStore

variable (sha256 : Bytes → Bytes)

def capabilityTtl : Int := 365 * 24 * 3600

structure Mailbox where
  mailboxId : Bytes
  readCapability : Bytes
  writeCapability : Bytes
deriving DecidableEq, Repr

def addMailbox (row : OwnerRow) (db : Db) : Option Db :=
  if ¬ isMember db row.ownerIdentity then none
  else (db.owners.insert row).bind fun owners => (db.queue.mailboxes.insert ⟨row.mailboxId, 1⟩).map fun mailboxes =>
    { db with owners := owners, queue := { db.queue with mailboxes := mailboxes } }

def addCapability (row : CapabilityRow) (db : Db) : Option Db :=
  if (db.owners.get? row.mailboxId).isNone then none
  else (db.capabilities.insert row).map fun t => { db with capabilities := t }

def addMailboxRequest (row : MailboxRequestRow) (db : Db) : Option Db :=
  (db.mailboxRequests.insert row).map fun t => { db with mailboxRequests := t }

/-- One mailbox for a request of a client, or the one the request already created. -/
def createMailboxForRequest (ownerIdentity ownerDevice requestKey readCap writeCap id : Bytes) (now : Int) : Txn Mailbox :=
  Prog.unitOfWork do
    match (← Prog.read fun db => db.mailboxRequests.get? requestKey) with
    | some r =>
        if r.ownerDevice ≠ ownerDevice ∨ r.readHash ≠ sha256 readCap ∨ r.writeHash ≠ sha256 writeCap then
          Prog.fail .requestConflict
        else pure ⟨r.mailboxId, readCap, writeCap⟩
    | none =>
        insertRow .sqlite addMailbox ⟨id, ownerIdentity, ownerDevice⟩
        insertRow .capabilityInUse addCapability ⟨sha256 readCap, id, .read, now + capabilityTtl, false⟩
        insertRow .capabilityInUse addCapability ⟨sha256 writeCap, id, .write, now + capabilityTtl, false⟩
        insertRow .requestConflict addMailboxRequest ⟨requestKey, ownerDevice, id, sha256 readCap, sha256 writeCap⟩
        pure ⟨id, readCap, writeCap⟩

def createMailbox (ownerIdentity ownerDevice id readCap writeCap : Bytes) (now : Int) : Txn Mailbox := Prog.unitOfWork do
  insertRow .sqlite addMailbox ⟨id, ownerIdentity, ownerDevice⟩
  insertRow .sqlite addCapability ⟨sha256 readCap, id, .read, now + capabilityTtl, false⟩
  insertRow .sqlite addCapability ⟨sha256 writeCap, id, .write, now + capabilityTtl, false⟩
  pure ⟨id, readCap, writeCap⟩

def checkCapability (mailboxId capability : Bytes) (scope : Scope) (now : Int) : Txn Unit := do
  let holds ← Prog.read fun db => (db.capabilities.get? (sha256 capability)).any fun c =>
    c.mailboxId = mailboxId && c.scope = scope && c.revoked = false && decide (now < c.expiresAt)
  Prog.when (holds = false) (Prog.fail .capability)

def queueError : RelayQueue.StoreError → StoreError
  | .envelopeTooBig => .envelopeTooBig
  | .mailboxFull => .mailboxFull
  | .deliveryConflict => .deliveryConflict
  | .unknownMailbox => .unknownMailbox
  | .sqlite => .sqlite

def onQueue {α : Type} (p : Prog RelayQueue.Queue StoreError α) : Txn α :=
  Prog.zoom (·.queue) (fun q db => { db with queue := q }) p

def putEnvelope (mailboxId deliveryId hpkeEnc ciphertext : Bytes) (requestedExpiry now : Int) : Txn RelayQueue.PutResult :=
  onQueue (Prog.mapError queueError
    (RelayQueue.putEnvelope sha256 mailboxId deliveryId hpkeEnc ciphertext requestedExpiry now))

def fetchEnvelopes (mailboxId : Bytes) (cursor limit : Nat) (now : Int) : Txn (List RelayQueue.QueuedEnvelope) :=
  -- `database/sql` takes no number from 2^63 on as an argument
  if 2 ^ 63 ≤ cursor then Prog.fail .sqlite
  else Prog.read fun db => RelayQueue.fetchEnvelopes mailboxId cursor limit now db.queue

def ackEnvelopes (mailboxId : Bytes) (deliveryIds : List Bytes) : Txn Unit :=
  onQueue (Prog.modify (RelayQueue.ackEnvelopes mailboxId deliveryIds))

def maxKeyPackagesPerDevice : Nat := 50
def maxKeyPackageBytes : Nat := 8 * 1024

def available (deviceId : Bytes) (db : Db) : Nat :=
  (db.keyPackages.rows.filter fun k => k.deviceId = deviceId && k.consumed = false).length

/-- A package with the same bytes is ignored, a consumed one too. -/
def publishOne (identityId deviceId : Bytes) (now : Int) (package : Bytes) : Txn Unit := do
  Prog.when (package.length = 0 ∨ maxKeyPackageBytes < package.length) (Prog.fail .envelopeTooBig)
  let member ← Prog.read fun db => decide (isMember db identityId)
  Prog.when (member = false) (Prog.fail .sqlite)
  Prog.modify fun db =>
    { db with keyPackages := db.keyPackages.insertOrIgnore ⟨sha256 package, identityId, deviceId, package, now, false⟩ }

def publishKeyPackages (identityId deviceId : Bytes) (packages : List Bytes) (now : Int) : Txn Unit :=
  if maxKeyPackagesPerDevice < packages.length then Prog.fail .keyPackageBatch
  else Prog.unitOfWork do
    Prog.forEach packages (publishOne sha256 identityId deviceId now)
    let n ← Prog.read (available deviceId)
    Prog.when (maxKeyPackagesPerDevice < n) (Prog.fail .keyPackageBatch)

/-- The oldest package left of an identity, of any of its devices if none is named. -/
def oldestPackage (identityId deviceId : Bytes) (db : Db) : Option KeyPackageRow :=
  ((db.keyPackages.rows.filter fun k =>
    k.identityId = identityId && (deviceId = [] || k.deviceId = deviceId) && k.consumed = false).insertionSort
      fun a b => a.published < b.published ∨ (a.published = b.published ∧ a.ref ≤ b.ref)).head?

def consume (ref : Bytes) (db : Db) : Db :=
  { db with keyPackages := db.keyPackages.update (fun k => k.ref = ref) (fun k => { k with consumed := true }) fun _ => rfl }

def claimKeyPackage (identityId deviceId : Bytes) : Txn Bytes := Prog.unitOfWork do
  let k ← require .noKeyPackage (oldestPackage identityId deviceId)
  Prog.modify (consume k.ref)
  pure k.bytes

def invitationTtl : UInt64 := 7 * 24 * 3600
def invitationRetention : Int := 37 * 24 * 3600
def invitationDailyLimit : Nat := 20
def invitationPendingLimit : Nat := 50

/-- Who holds an active credential that has not expired, and the role; read in the
transaction, not kept from the handshake. -/
def activeRole (credential : Bytes) (now : Int) : Txn (Bytes × String) :=
  require .invitePermission fun db => do
    let c ← (db.credentials.get? credential).filter fun c => c.status = .active && decide (now ≤ c.notAfter)
    let m ← (db.memberships.get? c.identityId).filter fun m => m.status = .active
    pure (m.identityId, m.role)

structure Invitation where
  sequence : Nat
  id : Bytes
  createdAt : Int
  expiresAt : Int
  state : InvitationState
  claimedIdentity : Bytes
  claimedAt : Int
deriving DecidableEq, Repr

def scanInvitation (i : IssuedRow) (now : Int) : Invitation :=
  ⟨i.seq, i.tokenHash, i.createdAt, i.expiresAt,
    if i.state = .pending ∧ i.expiresAt ≤ now then .expired else i.state, i.claimedIdentity, i.claimedAt⟩

def invitationPolicy (credential : Bytes) (now : Int) : Txn Bool := do
  let (_, role) ← activeRole credential now
  pure (decide (role = "owner"))

/-- Eight bytes of creation time, the highest first, before sixteen random ones. -/
def validRequestKey (key : Bytes) (now : Int) : Bool :=
  if key.length ≠ 24 then false
  else
    let timestamp : UInt64 := (key.take 8).foldl (fun n b => n * 256 + b.toUInt64) 0
    let n := UInt64.ofInt now
    timestamp ≤ n + 300 && n ≤ timestamp + invitationTtl

def addInvite (row : InviteRow) (db : Db) : Option Db :=
  (db.invites.insert row).map fun t => { db with invites := t }

def addIssued (row : IssuedRow) (db : Db) : Option Db :=
  (db.issued.insert row).map fun t => { db with issued := t, nextIssued := db.nextIssued + 1 }

def issueInvitation (credential key hash : Bytes) (ttl : UInt64) (now : Int) : Txn Invitation :=
  if hash.length ≠ 32 ∨ key.length ≠ 24 ∨ ttl = 0 ∨ invitationTtl < ttl then Prog.fail .inviteRequest
  else Prog.unitOfWork do
    let (actor, role) ← activeRole credential now
    Prog.when (role ≠ "owner") (Prog.fail .invitePermission)
    match (← Prog.read fun db => db.issued.rows.find? fun i => i.issuer = actor && i.requestKey = key) with
    | some i => if hash ≠ i.tokenHash ∨ ttl ≠ i.ttl then Prog.fail .requestConflict else pure (scanInvitation i now)
    | none =>
        Prog.when (validRequestKey key now = false) (Prog.fail .inviteInvalid)
        let daily ← Prog.read fun db =>
          (db.issued.rows.filter fun i => i.issuer = actor && decide (now - 24 * 3600 < i.createdAt)).length
        let pending ← Prog.read fun db =>
          (db.issued.rows.filter fun i => i.state = .pending && decide (now < i.expiresAt)).length
        Prog.when (invitationDailyLimit ≤ daily ∨ invitationPendingLimit ≤ pending) (Prog.fail .inviteQuota)
        let redeemed ← Prog.read fun db => db.redemptions.rows.any fun r => r.tokenHash = hash
        Prog.when (redeemed = true) (Prog.fail .requestConflict)
        let expiry := now + ttl.toNat
        insertRow .requestConflict addInvite ⟨hash, "member", expiry, 1⟩
        let seq ← Prog.read (·.nextIssued)
        let row : IssuedRow := ⟨seq, hash, actor, key, now, expiry, ttl, .pending, [], 0⟩
        insertRow .sqlite addIssued row
        pure (scanInvitation row now)

def listInvitations (credential : Bytes) (cursor : Nat) (limit : Nat) (now : Int) : Txn (List Invitation) :=
  if limit = 0 ∨ 50 < limit then Prog.fail .inviteRequest
  else do
    let (actor, _) ← activeRole credential now
    Prog.read fun db => (((db.issued.rows.filter fun i => i.issuer = actor && decide (cursor < i.seq)).insertionSort
      fun a b => a.seq ≤ b.seq).take limit).map (scanInvitation · now)

def getInvitation (credential hash : Bytes) (now : Int) : Txn Invitation := do
  let (actor, _) ← activeRole credential now
  let i ← require .inviteInvalid fun db =>
    (db.issued.get? hash).filter fun i => i.issuer = actor || i.claimedIdentity = actor
  pure (scanInvitation i now)

def setInvitationState (hash : Bytes) (state : InvitationState) (db : Db) : Db :=
  { db with issued := db.issued.update (fun i => i.tokenHash = hash) (fun i => { i with state := state }) fun _ => rfl }

def revokeInvitation (credential hash : Bytes) (now : Int) : Txn Invitation := Prog.unitOfWork do
  let (actor, role) ← activeRole credential now
  Prog.when (role ≠ "owner") (Prog.fail .invitePermission)
  let row ← require .inviteInvalid fun db => (db.issued.get? hash).filter fun i => i.issuer = actor
  let i := scanInvitation row now
  if i.state = .used then Prog.fail .inviteUsed
  else if i.state = .revoked then pure i
  else do
    Prog.modify (setUsesLeft hash fun _ => 0)
    Prog.modify (setInvitationState hash .revoked)
    pure { i with state := .revoked }

/-- A member spends a personal invitation without a new identity. -/
def acceptInvitation (credential hash : Bytes) (now : Int) : Txn Invitation := Prog.unitOfWork do
  let (actor, _) ← activeRole credential now
  let row ← require .inviteInvalid fun db => db.issued.get? hash
  Prog.when (actor = row.issuer) (Prog.fail .inviteRequest)
  let i := scanInvitation row now
  if i.state = .used then do
    let mine ← Prog.read fun db => (db.redemptions.get? (hash, actor)).any fun r => r.credentialHash = credential
    if mine = true then pure i else Prog.fail .inviteUsed
  else if i.state ≠ .pending then Prog.fail .inviteInvalid
  else do
    Prog.modify (setUsesLeft hash fun _ => 0)
    Prog.modify (markUsed hash actor now)
    insertRow .sqlite addRedemption ⟨hash, actor, credential⟩
    pure { i with state := .used, claimedIdentity := actor, claimedAt := now }

def addReceipt (row : ClaimReceiptRow) (db : Db) : Option Db :=
  (db.receipts.insert row).map fun t => { db with receipts := t }

def claimsPerDay : Nat := 100

/-- The package is consumed and the answer kept in one transaction. -/
def claimKeyPackageOnce (credential key identity device : Bytes) (now : Int) : Txn Bytes :=
  if key.length ≠ 24 ∨ identity.length ≠ 32 ∨ device.length ≠ 16 then Prog.fail .inviteRequest
  else Prog.unitOfWork do
    let _ ← activeRole credential now
    match (← Prog.read fun db => db.receipts.get? (credential, key)) with
    | some r => if r.identityId ≠ identity ∨ r.deviceId ≠ device then Prog.fail .requestConflict else pure r.package
    | none =>
        Prog.when (validRequestKey key now = false) (Prog.fail .inviteInvalid)
        let count ← Prog.read fun db =>
          (db.receipts.rows.filter fun r => r.claimant = credential && decide (now - 24 * 3600 < r.createdAt)).length
        Prog.when (claimsPerDay ≤ count) (Prog.fail .inviteQuota)
        let k ← require .noKeyPackage (oldestPackage identity device)
        Prog.modify (consume k.ref)
        insertRow .sqlite addReceipt ⟨credential, key, identity, device, k.bytes, now⟩
        pure k.bytes

def createInvite (tokenHash : Bytes) (role : String) (expiresAt uses : Int) : Txn Unit :=
  insertRow .sqlite addInvite ⟨tokenHash, role, expiresAt, uses⟩

def makeOwner (identity : Bytes) : Txn Unit := Prog.unitOfWork do
  let _ ← require .unknownIdentity fun db => (db.memberships.get? identity).filter fun m => m.status = .active
  Prog.modify fun db =>
    { db with memberships := db.memberships.update (fun m => m.identityId = identity) (fun m => { m with role := "owner" }) fun _ => rfl }

/-- Invites of the operator go when they are spent or expired. -/
def sweepInvites (now : Int) (db : Db) : Db :=
  { db with
    invites := db.invites.delete fun i => (decide (i.expiresAt ≤ now) || decide (i.usesLeft ≤ 0)) && (db.issued.get? i.tokenHash).isNone }

def sweepInvitationHistory (now : Int) (db : Db) : Db :=
  let cutoff := now - invitationRetention
  let old := fun i : IssuedRow => decide (i.expiresAt < cutoff) && decide (i.claimedAt < cutoff)
  { db with
    invites := db.invites.delete fun i => (db.issued.get? i.tokenHash).any old
    issued := db.issued.delete old
    receipts := db.receipts.delete fun r => decide (r.createdAt < cutoff) }

def maxBlobBytes : Nat := 25 * 1024 * 1024
def maxBlobChunk : Nat := 60 * 1024
def defaultBlobTtl : Int := 30 * 24 * 3600
def quotaPerIdentity : Nat := 200 * 1024 * 1024

def blobUsage (identity : Bytes) : Txn Nat :=
  Prog.read fun db => ((db.blobs.rows.filter fun b => b.ownerIdentity = identity && b.state = .committed).map (·.storedSize)).sum

def addBlob (row : BlobRow) (db : Db) : Option Db :=
  if ¬ isMember db row.ownerIdentity then none else (db.blobs.insert row).map fun t => { db with blobs := t }

def coarseHour (now : Int) : Int := now - now.tmod 3600

def blobInsert (id identity readCap : Bytes) (size : Nat) (now : Int) : Txn Unit :=
  insertRow .sqlite addBlob ⟨id, identity, sha256 readCap, size, 0, .staging, coarseHour now, 0⟩

def stagingCreate (id : Bytes) : Txn Unit :=
  insertRow .file (fun row db => (db.staging.insert row).map fun t => { db with staging := t }) (⟨id, []⟩ : BlobFile)

def blobRow (id identity : Bytes) : Txn BlobRow :=
  require .blobUnknown fun db => (db.blobs.get? id).filter fun b => b.ownerIdentity = identity

def stagingAppend (id data : Bytes) : Txn Unit := do
  let _ ← require .file fun db => db.staging.get? id
  Prog.modify fun db =>
    { db with staging := db.staging.update (fun f => f.blobId = id) (fun f => { f with content := f.content ++ data }) (BlobFile.appended_key data) }

def blobGrow (id : Bytes) (n : Nat) : Txn Unit := Prog.modify fun db =>
  { db with blobs := db.blobs.update (fun b => b.blobId = id) (fun b => { b with storedSize := b.storedSize + n }) (BlobRow.grown_key n) }

def stagingRead (id : Bytes) : Txn Bytes := do
  let f ← require .file fun db => db.staging.get? id
  pure f.content

def stagingRename (id : Bytes) : Txn Unit := do
  let f ← require .file fun db => db.staging.get? id
  Prog.modify fun db => { db with staging := db.staging.delete fun g => g.blobId = id, files := db.files.replace f }

def blobCommitted (id : Bytes) (expiry : Int) : Txn Unit := Prog.modify fun db =>
  { db with
    blobs := db.blobs.update (fun b => b.blobId = id) (fun b => { b with state := .committed, expiresAt := expiry }) (BlobRow.committed_key expiry) }

def blobReadable (id readCap : Bytes) : Txn BlobRow :=
  require .blobUnknown fun db => (db.blobs.get? id).filter fun b => b.readCapHash = sha256 readCap && b.state = .committed

def fileRead (id : Bytes) (offset length : Nat) : Txn Bytes := do
  let f ← require .file fun db => db.files.get? id
  let data := (f.content.drop offset).take length
  if data = [] then Prog.fail .file else pure data

end Arveil.RelayStore

import Arveil.Lib.Handler
import Arveil.Spec.RelayServices

/-! The relay's sessions (`relay/internal/server`). A connection is authorized by its Noise
key and then sends frames, one at a time; a frame's handler goes from one call of the store
to the next, and the calls of different sessions interleave in any order. Limits, the
notices to watchers and the pairing rendezvous are left out. -/

namespace Arveil.RelayServer

open RelayStore

inductive Call where
  | deviceByTransportKey (key : Bytes)
  | deviceByWatchKey (key : Bytes) (now : Int)
  | rootPublic (identityId : Bytes)
  | latestManifest (identityId : Bytes)
  | credentialByHash (identityId hash : Bytes)
  | redeemInvite (tokenHash : Bytes) (now : Int) (e : Enrollment)
  | putCredential (e : Enrollment)
  | publishManifest (identityId : Bytes) (seq : UInt64) (signed : Bytes) (revoked : List Bytes)
  | recoverIdentity (e : Enrollment) (revoked : List Bytes) (now : Int)
  | setNotifyHint (deviceId : Bytes) (url : String)
  | setWatchKey (identityId deviceId key : Bytes)
  | createMailbox (identityId deviceId id readCap writeCap : Bytes) (now : Int)
  | createMailboxForRequest (identityId deviceId requestKey readCap writeCap id : Bytes) (now : Int)
  | checkCapability (mailboxId capability : Bytes) (scope : Scope) (now : Int)
  | putEnvelope (mailboxId deliveryId hpkeEnc ciphertext : Bytes) (requestedExpiry now : Int)
  | fetchEnvelopes (mailboxId : Bytes) (cursor limit : Nat) (now : Int)
  | ackEnvelopes (mailboxId : Bytes) (deliveryIds : List Bytes)
  | publishKeyPackages (identityId deviceId : Bytes) (packages : List Bytes) (now : Int)
  | availableKeyPackages (deviceId : Bytes)
  | claimKeyPackage (identityId deviceId : Bytes)
  | invitationPolicy (credential : Bytes) (now : Int)
  | issueInvitation (credential key hash : Bytes) (ttl : UInt64) (now : Int)
  | listInvitations (credential : Bytes) (cursor limit : Nat) (now : Int)
  | getInvitation (credential hash : Bytes) (now : Int)
  | revokeInvitation (credential hash : Bytes) (now : Int)
  | acceptInvitation (credential hash : Bytes) (now : Int)
  | claimKeyPackageOnce (credential key identity device : Bytes) (now : Int)
  | blobUsage (identity : Bytes)
  | blobInsert (id identity readCap : Bytes) (size : Nat) (now : Int)
  | stagingCreate (id : Bytes)
  | blobRow (id identity : Bytes)
  | stagingAppend (id data : Bytes)
  | blobGrow (id : Bytes) (n : Nat)
  | stagingRead (id : Bytes)
  | stagingRename (id : Bytes)
  | blobCommitted (id : Bytes) (expiry : Int)
  | blobReadable (id readCap : Bytes)
  | fileRead (id : Bytes) (offset length : Nat)
  | createInvite (tokenHash : Bytes) (role : String) (expiresAt uses : Int)
  | makeOwner (identity : Bytes)
  | expireEnvelopes (now : Int)
  | sweepInvites (now : Int)
  | sweepInvitationHistory (now : Int)

abbrev Call.Result : Call → Type
  | .deviceByTransportKey .. => Option Device
  | .deviceByWatchKey .. => Option Device × Bool
  | .rootPublic .. | .claimKeyPackage .. | .claimKeyPackageOnce .. | .stagingRead .. | .fileRead .. => Bytes
  | .latestManifest .. => Option RelayStore.ManifestRow
  | .credentialByHash .. => Option Bytes
  | .publishManifest .. | .recoverIdentity .. | .availableKeyPackages .. | .blobUsage .. => Nat
  | .createMailbox .. | .createMailboxForRequest .. => Mailbox
  | .putEnvelope .. => RelayQueue.PutResult
  | .fetchEnvelopes .. => List RelayQueue.QueuedEnvelope
  | .invitationPolicy .. => Bool
  | .issueInvitation .. | .getInvitation .. | .revokeInvitation .. | .acceptInvitation .. => Invitation
  | .listInvitations .. => List Invitation
  | .blobRow .. | .blobReadable .. => BlobRow
  | .redeemInvite .. | .putCredential .. | .setNotifyHint .. | .setWatchKey .. | .checkCapability .. | .ackEnvelopes ..
  | .publishKeyPackages .. | .blobInsert .. | .stagingCreate .. | .stagingAppend .. | .blobGrow .. | .stagingRename ..
  | .blobCommitted .. | .createInvite .. | .makeOwner .. | .expireEnvelopes .. | .sweepInvites ..
  | .sweepInvitationHistory .. => Unit

def Call.prog (sha256 : Bytes → Bytes) : (c : Call) → Txn c.Result
  | .deviceByTransportKey key => RelayStore.deviceByTransportKey key
  | .deviceByWatchKey key now => RelayStore.deviceByWatchKey key now
  | .rootPublic identityId => RelayStore.rootPublic identityId
  | .latestManifest identityId => RelayStore.latestManifest identityId
  | .credentialByHash identityId hash => RelayStore.credentialByHash identityId hash
  | .redeemInvite tokenHash now e => RelayStore.redeemInvite tokenHash now e
  | .putCredential e => RelayStore.putCredential e
  | .publishManifest identityId seq signed revoked => RelayStore.publishManifest identityId seq signed revoked
  | .recoverIdentity e revoked now => RelayStore.recoverIdentity e revoked now
  | .setNotifyHint deviceId url => RelayStore.setNotifyHint deviceId url
  | .setWatchKey identityId deviceId key => RelayStore.setWatchKey identityId deviceId key
  | .createMailbox identityId deviceId id readCap writeCap now =>
      RelayStore.createMailbox sha256 identityId deviceId id readCap writeCap now
  | .createMailboxForRequest identityId deviceId requestKey readCap writeCap id now =>
      RelayStore.createMailboxForRequest sha256 identityId deviceId requestKey readCap writeCap id now
  | .checkCapability mailboxId capability scope now => RelayStore.checkCapability sha256 mailboxId capability scope now
  | .putEnvelope mailboxId deliveryId hpkeEnc ciphertext requestedExpiry now =>
      RelayStore.putEnvelope sha256 mailboxId deliveryId hpkeEnc ciphertext requestedExpiry now
  | .fetchEnvelopes mailboxId cursor limit now => RelayStore.fetchEnvelopes mailboxId cursor limit now
  | .ackEnvelopes mailboxId deliveryIds => RelayStore.ackEnvelopes mailboxId deliveryIds
  | .publishKeyPackages identityId deviceId packages now => RelayStore.publishKeyPackages sha256 identityId deviceId packages now
  | .availableKeyPackages deviceId => Prog.read (RelayStore.available deviceId)
  | .claimKeyPackage identityId deviceId => RelayStore.claimKeyPackage identityId deviceId
  | .invitationPolicy credential now => RelayStore.invitationPolicy credential now
  | .issueInvitation credential key hash ttl now => RelayStore.issueInvitation credential key hash ttl now
  | .listInvitations credential cursor limit now => RelayStore.listInvitations credential cursor limit now
  | .getInvitation credential hash now => RelayStore.getInvitation credential hash now
  | .revokeInvitation credential hash now => RelayStore.revokeInvitation credential hash now
  | .acceptInvitation credential hash now => RelayStore.acceptInvitation credential hash now
  | .claimKeyPackageOnce credential key identity device now => RelayStore.claimKeyPackageOnce credential key identity device now
  | .blobUsage identity => RelayStore.blobUsage identity
  | .blobInsert id identity readCap size now => RelayStore.blobInsert sha256 id identity readCap size now
  | .stagingCreate id => RelayStore.stagingCreate id
  | .blobRow id identity => RelayStore.blobRow id identity
  | .stagingAppend id data => RelayStore.stagingAppend id data
  | .blobGrow id n => RelayStore.blobGrow id n
  | .stagingRead id => RelayStore.stagingRead id
  | .stagingRename id => RelayStore.stagingRename id
  | .blobCommitted id expiry => RelayStore.blobCommitted id expiry
  | .blobReadable id readCap => RelayStore.blobReadable sha256 id readCap
  | .fileRead id offset length => RelayStore.fileRead id offset length
  | .createInvite tokenHash role expiresAt uses => RelayStore.createInvite tokenHash role expiresAt uses
  | .makeOwner identity => RelayStore.makeOwner identity
  | .expireEnvelopes now => RelayStore.onQueue (Prog.modify (RelayQueue.expireEnvelopes now))
  | .sweepInvites now => Prog.modify (RelayStore.sweepInvites now)
  | .sweepInvitationHistory now => Prog.modify (RelayStore.sweepInvitationHistory now)

def service (sha256 : Bytes → Bytes) : Service Db StoreError := ⟨Call, Call.Result, Call.prog sha256⟩

/-- The authorization state of one channel: a member session has a device, a watch session
a watcher, a provisional one neither. -/
structure Session where
  remoteStatic : Bytes
  device : Option Device
  watcher : Option Device
deriving DecidableEq, Repr

inductive Frame where
  | ping
  | endpointListGet
  | inviteRedeem (token credential manifest : Bytes)
  | credentialPut (credential : Bytes)
  | manifestPut (manifest : Bytes)
  | manifestGet (identityId : Bytes)
  | credentialGet (identityId credentialHash : Bytes)
  | recoverIdentity (credential manifest : Bytes)
  | notifyHintSet (url : String) (valid : Bool)
  | watchKeySet (watchKey : Bytes)
  | blobUploadBegin (size : Nat) (id readCap : Bytes)
  | blobChunk (blobId : Bytes) (offset : Nat) (data : Bytes)
  | blobCommit (blobId ciphertextHash : Bytes) (requestedExpiry : UInt64)
  | blobFetch (blobId readCapability : Bytes) (offset length : Nat)
  | blobResume (blobId : Bytes)
  | keyPackagesPublish (keyPackages : List Bytes)
  | keyPackagesStatus
  | keyPackagesClaim (identityId deviceId : Bytes)
  | mailboxCreate (requestKey readCapability writeCapability : Bytes) (id drawnRead drawnWrite : Bytes)
  | envelopePut (mailboxId writeCapability deliveryId hpkeEnc ciphertext : Bytes) (requestedExpiry : UInt64)
  | envelopeFetch (mailboxId readCapability : Bytes) (cursor limit : Nat)
  | envelopeAck (mailboxId readCapability : Bytes) (deliveryIds : List Bytes)
  | invitePolicyGet
  | inviteCreate (requestKey tokenHash : Bytes) (ttl : UInt64)
  | inviteList (cursor limit : Nat)
  | inviteGet (invitationId : Bytes)
  | inviteRevoke (invitationId : Bytes)
  | inviteAccept (token : Bytes)
  | keyPackagesClaimOnce (requestKey identityId deviceId : Bytes)

inductive Answer where
  | error (code : Nat) (message : String)
  | pong
  | endpointList
  | ack
  | inviteRedeemed (identityId : Bytes)
  | recovered (identityId : Bytes) (previousSequence : Nat)
  | manifestLatest (manifest : Option Bytes)
  | credentialFound (credential : Option Bytes)
  | mailboxCreated (mailbox : Mailbox)
  | envelopeAccepted (effectiveExpiry : Int)
  | envelopes (items : List RelayQueue.QueuedEnvelope)
  | keyPackagesAvailable (count : Nat)
  | keyPackageClaimed (keyPackage : Bytes)
  | blobUploadStarted (blobId readCapability : Bytes)
  | blobOffset (offset : Nat)
  | blobCommitted (effectiveExpiry : Int)
  | blobData (totalSize : Nat) (data : Bytes)
  | invitePolicy (canInvite : Bool)
  | invitation (i : Invitation)
  | invitations (items : List Invitation)
deriving DecidableEq

def Answer.success : Answer → Bool
  | .error _ _ => false
  | _ => true

/-- The answer to a frame, and the device it makes of the session. -/
structure Outcome where
  answer : Answer
  device : Option Device := none

section handlers

variable (cx : Crypto) (items : CborItems)

abbrev Handles (α : Type) := Handler (service cx.sha256) α

def ask (c : Call) : Handles cx (Except StoreError c.Result) := Handler.ask (I := service cx.sha256) c

def answer (a : Answer) : Handles cx Outcome := pure ⟨a, none⟩

def refuse (code : Nat) (message : String) : Handles cx Outcome := answer cx (.error code message)

/-- The handler of a frame that requires a member session. -/
def whenMember (s : Session) (k : Device → Handles cx Outcome) : Handles cx Outcome :=
  match s.device with
  | none => refuse cx 401 "not a member session"
  | some d => k d

/-- A revoked or expired credential is refused, an unknown key gets a provisional session. -/
def authorize (remoteStatic : Bytes) (now : Int) : Handles cx (Option Session) := do
  match (← ask cx (.deviceByTransportKey remoteStatic)) with
  | .error _ => pure none
  | .ok (some d) =>
      if d.status ≠ .active ∨ d.notAfter < now then pure none else pure (some ⟨remoteStatic, some d, none⟩)
  | .ok none => do
      match (← ask cx (.deviceByWatchKey remoteStatic now)) with
      | .error _ => pure none
      | .ok (none, true) => pure none
      | .ok (some w, _) => pure (some ⟨remoteStatic, none, some w⟩)
      | .ok (none, false) => pure (some ⟨remoteStatic, none, none⟩)

/-- The root authorized the session's Noise key for transport. -/
def bindsSession (v : RelayIdentity.VerifiedCredential) (remoteStatic : Bytes) : Bool :=
  v.credential.allowedUses &&& useTransport ≠ 0 && v.credential.transportNoisePublicKey = remoteStatic

def notAfter (v : RelayIdentity.VerifiedCredential) : Int := v.credential.validity.notAfter.toInt64.toInt

/-- What a verified credential registers, with the manifest that came with it. -/
def enrollment (v : RelayIdentity.VerifiedCredential) (credential manifest : Bytes) (seq : UInt64) : Enrollment where
  identityId := v.identityId
  rootPublic := v.root
  credentialHash := v.hash
  deviceId := v.credential.deviceId
  transportKey := v.credential.transportNoisePublicKey
  signedCred := credential
  notAfter := notAfter v
  manifestSeq := seq
  signedManifest := manifest

def admitted (v : RelayIdentity.VerifiedCredential) : Device := ⟨v.hash, v.identityId, v.credential.deviceId, .active, notAfter v⟩

def inviteRedeem (s : Session) (token credential manifest : Bytes) (now : Int) : Handles cx Outcome :=
  match RelayIdentity.verifyCredential cx items credential (UInt64.ofInt now) with
  | .error _ => refuse cx 401 "credential rejected"
  | .ok v =>
      if s.device.any (fun d => d.credentialHash ≠ v.hash) then refuse cx 409 "session is already a member"
      else if bindsSession v s.remoteStatic = false then refuse cx 401 "credential does not bind this session"
      else match RelayIdentity.verifyManifest cx items manifest v.root with
      | .error _ => refuse cx 401 "manifest rejected"
      | .ok m =>
          if m.manifestSequence ≠ 1 ∨ v.hash ∉ m.activeCredentialHashes ∨ m.previousManifestHash.length ≠ 0 then
            refuse cx 400 "first manifest must be sequence 1 and list the credential"
          else do
            match (← ask cx (.redeemInvite (cx.sha256 token) now (enrollment v credential manifest m.manifestSequence))) with
            -- the same token, identity and credential as before: the answer recorded then
            | .error .alreadyRedeemed => pure ⟨.inviteRedeemed v.identityId, some (admitted v)⟩
            | .error .inviteInvalid => refuse cx 410 "invite invalid"
            | .error .alreadyMember | .error .deviceKeyInUse => refuse cx 409 "already enrolled"
            | .error _ => refuse cx 500 "store error"
            | .ok () => pure ⟨.inviteRedeemed v.identityId, some (admitted v)⟩

/-- The newest manifest must already list the credential as active; that is read before the
credential is stored. -/
def credentialPut (s : Session) (credential : Bytes) (now : Int) : Handles cx Outcome := whenMember cx s fun d =>
  match RelayIdentity.verifyCredential cx items credential (UInt64.ofInt now) with
  | .error _ => refuse cx 401 "credential rejected"
  | .ok v => do
      match (← ask cx (.rootPublic d.identityId)) with
      | .error _ => refuse cx 403 "credential is not signed by this member's root"
      | .ok root =>
          if root ≠ v.root then refuse cx 403 "credential is not signed by this member's root"
          else do
            match (← ask cx (.latestManifest d.identityId)) with
            | .error _ | .ok none => refuse cx 400 "no manifest for this identity"
            | .ok (some row) =>
                match RelayIdentity.verifyManifest cx items row.signed root with
                | .error _ => refuse cx 400 "credential not listed active in the newest manifest"
                | .ok m =>
                    if v.hash ∉ m.activeCredentialHashes then
                      refuse cx 400 "credential not listed active in the newest manifest"
                    else do
                      match (← ask cx (.putCredential (enrollment v credential [] 0))) with
                      | .error .deviceKeyInUse => refuse cx 409 "transport key already registered"
                      | .error _ => refuse cx 500 "store error"
                      | .ok () => answer cx .ack

def manifestPut (s : Session) (manifest : Bytes) : Handles cx Outcome := whenMember cx s fun d => do
  match (← ask cx (.rootPublic d.identityId)) with
  | .error _ => refuse cx 403 "unknown member"
  | .ok root =>
      match RelayIdentity.verifyManifest cx items manifest root with
      | .error _ => refuse cx 401 "manifest rejected"
      | .ok m => do
          match (← ask cx (.publishManifest d.identityId m.manifestSequence manifest m.revokedCredentialHashes)) with
          | .error .manifestOrder => refuse cx 409 "manifest sequence not increasing"
          | .error _ => refuse cx 500 "store error"
          | .ok _ => answer cx .ack

def recoverIdentity (s : Session) (credential manifest : Bytes) (now : Int) : Handles cx Outcome :=
  match RelayIdentity.verifyCredential cx items credential (UInt64.ofInt now) with
  | .error _ => refuse cx 401 "credential rejected"
  | .ok v =>
      if bindsSession v s.remoteStatic = false then refuse cx 401 "credential does not bind this session"
      else do
        match (← ask cx (.rootPublic v.identityId)) with
        | .error _ => refuse cx 403 "unknown identity"
        | .ok root =>
            if root ≠ v.root then refuse cx 403 "credential is not signed by this identity's root"
            else match RelayIdentity.verifyManifest cx items manifest root with
            | .error _ => refuse cx 401 "manifest rejected"
            | .ok m =>
                if v.hash ∉ m.activeCredentialHashes then
                  refuse cx 400 "manifest does not list the new credential as active"
                else do
                  match (← ask cx (.recoverIdentity (enrollment v credential manifest m.manifestSequence)
                    m.revokedCredentialHashes now)) with
                  | .error .requestConflict => refuse cx 409 "recovery request changed or credential is no longer active"
                  | .error .manifestOrder => refuse cx 409 "the realm holds a newer manifest for this identity"
                  | .error .deviceKeyInUse => refuse cx 409 "transport key already registered"
                  | .error _ => refuse cx 500 "store error"
                  | .ok previous => pure ⟨.recovered v.identityId previous, some (admitted v)⟩

def manifestGet (s : Session) (identityId : Bytes) : Handles cx Outcome := whenMember cx s fun _ => do
  match (← ask cx (.latestManifest identityId)) with
  | .error _ => refuse cx 500 "store error"
  | .ok m => answer cx (.manifestLatest (m.map (·.signed)))

def credentialGet (s : Session) (identityId credentialHash : Bytes) : Handles cx Outcome := whenMember cx s fun _ => do
  match (← ask cx (.credentialByHash identityId credentialHash)) with
  | .error _ => refuse cx 500 "store error"
  | .ok c => answer cx (.credentialFound c)

def notifyHintSet (s : Session) (url : String) (valid : Bool) : Handles cx Outcome := whenMember cx s fun d =>
  if url ≠ "" ∧ valid = false then
    refuse cx 400 "a hint endpoint must be an http or https URL without credentials"
  else do
    match (← ask cx (.setNotifyHint d.deviceId url)) with
    | .error _ => refuse cx 500 "store error"
    | .ok () => answer cx .ack

def watchKeySet (s : Session) (watchKey : Bytes) : Handles cx Outcome := whenMember cx s fun d => do
  match (← ask cx (.setWatchKey d.identityId d.deviceId watchKey)) with
  | .error .watchKeyShape => refuse cx 400 "a watch key is 32 bytes"
  | .error .watchKeyInUse => refuse cx 409 "watch key already in use"
  | .error _ => refuse cx 500 "store error"
  | .ok () => answer cx .ack

def capabilityHashBytes : Nat := 32

def mailboxCreate (s : Session) (requestKey readCapability writeCapability id drawnRead drawnWrite : Bytes) (now : Int) :
    Handles cx Outcome := whenMember cx s fun d =>
  if requestKey.length = 0 then do
    match (← ask cx (.createMailbox d.identityId d.deviceId id drawnRead drawnWrite now)) with
    | .error _ => refuse cx 500 "store error"
    | .ok mb => answer cx (.mailboxCreated mb)
  else if requestKey.length < 16 ∨ 32 < requestKey.length then refuse cx 400 "request key must be 16 to 32 bytes"
  else if readCapability.length ≠ capabilityHashBytes ∨ writeCapability.length ≠ capabilityHashBytes then
    refuse cx 400 "capabilities must be 32 bytes"
  else if readCapability = writeCapability then refuse cx 400 "read and write capabilities must differ"
  else do
    match (← ask cx (.createMailboxForRequest d.identityId d.deviceId requestKey readCapability writeCapability id now)) with
    | .error .requestConflict => refuse cx 409 "request key reused with other parameters"
    | .error .capabilityInUse => refuse cx 409 "capability already in use"
    | .error _ => refuse cx 500 "store error"
    | .ok mb => answer cx (.mailboxCreated mb)

def envelopePut (s : Session) (mailboxId writeCapability deliveryId hpkeEnc ciphertext : Bytes) (requestedExpiry : UInt64)
    (now : Int) : Handles cx Outcome := whenMember cx s fun _ => do
  match (← ask cx (.checkCapability mailboxId writeCapability .write now)) with
  | .error _ => refuse cx 403 "write capability rejected"
  | .ok () => do
      match (← ask cx (.putEnvelope mailboxId deliveryId hpkeEnc ciphertext requestedExpiry.toInt64.toInt now)) with
      | .error .deliveryConflict => refuse cx 409 "delivery id reused with a different body"
      | .error .envelopeTooBig => refuse cx 413 "envelope too large"
      | .error .mailboxFull => refuse cx 429 "mailbox queue full"
      | .error _ => refuse cx 500 "store error"
      | .ok r => answer cx (.envelopeAccepted r.effectiveExpiry)

def envelopeFetch (s : Session) (mailboxId readCapability : Bytes) (cursor limit : Nat) (now : Int) : Handles cx Outcome :=
  whenMember cx s fun _ => do
    match (← ask cx (.checkCapability mailboxId readCapability .read now)) with
    | .error _ => refuse cx 403 "read capability rejected"
    | .ok () => do
        match (← ask cx (.fetchEnvelopes mailboxId cursor limit now)) with
        | .error _ => refuse cx 500 "store error"
        | .ok items => answer cx (.envelopes items)

def envelopeAck (s : Session) (mailboxId readCapability : Bytes) (deliveryIds : List Bytes) (now : Int) : Handles cx Outcome :=
  whenMember cx s fun _ => do
    match (← ask cx (.checkCapability mailboxId readCapability .read now)) with
    | .error _ => refuse cx 403 "read capability rejected"
    | .ok () => do
        match (← ask cx (.ackEnvelopes mailboxId deliveryIds)) with
        | .error _ => refuse cx 500 "store error"
        | .ok () => answer cx .ack

def keyPackagesPublish (s : Session) (keyPackages : List Bytes) (now : Int) : Handles cx Outcome := whenMember cx s fun d => do
  match (← ask cx (.publishKeyPackages d.identityId d.deviceId keyPackages now)) with
  | .error .keyPackageBatch => refuse cx 429 "key package batch exceeds the bound"
  | .error .envelopeTooBig => refuse cx 413 "key package too large"
  | .error _ => refuse cx 500 "store error"
  | .ok () => answer cx .ack

def keyPackagesStatus (s : Session) : Handles cx Outcome := whenMember cx s fun d => do
  match (← ask cx (.availableKeyPackages d.deviceId)) with
  | .error _ => refuse cx 500 "store error"
  | .ok n => answer cx (.keyPackagesAvailable n)

def keyPackagesClaim (s : Session) (identityId deviceId : Bytes) : Handles cx Outcome := whenMember cx s fun _ => do
  match (← ask cx (.claimKeyPackage identityId deviceId)) with
  | .error .noKeyPackage => refuse cx 410 "no key package available"
  | .error _ => refuse cx 500 "store error"
  | .ok kp => answer cx (.keyPackageClaimed kp)

def blobError : StoreError → Handles cx Outcome
  | .blobUnknown => refuse cx 403 "blob unknown or capability rejected"
  | .blobExpired => refuse cx 410 "blob expired"
  | .blobSize => refuse cx 413 "blob size or chunk refused"
  | .blobQuota => refuse cx 429 "blob quota exceeded"
  | .blobOffset => refuse cx 409 "blob: chunk offset is not the current end of the staging file"
  | .blobState => refuse cx 409 "blob: wrong state for this operation"
  | .blobHash => refuse cx 409 "blob: ciphertext hash does not match"
  | _ => refuse cx 500 "store error"

/-- Go on with what a call of the blob store returned. -/
def blobCall (c : Call) (k : c.Result → Handles cx Outcome) : Handles cx Outcome := do
  match (← ask cx c) with
  | .error e => blobError cx e
  | .ok r => k r

def blobUploadBegin (s : Session) (size : Nat) (id readCap : Bytes) (now : Int) : Handles cx Outcome := whenMember cx s fun d =>
  if size = 0 ∨ maxBlobBytes < size then blobError cx .blobSize
  else blobCall cx (.blobUsage d.identityId) fun used =>
    if quotaPerIdentity < used + size then blobError cx .blobQuota
    else blobCall cx (.blobInsert id d.identityId readCap size now) fun _ =>
      blobCall cx (.stagingCreate id) fun _ => answer cx (.blobUploadStarted id readCap)

def blobChunk (s : Session) (blobId : Bytes) (offset : Nat) (data : Bytes) : Handles cx Outcome := whenMember cx s fun d =>
  if data.length = 0 ∨ maxBlobChunk < data.length then blobError cx .blobSize
  else blobCall cx (.blobRow blobId d.identityId) fun b =>
    if b.state ≠ .staging then blobError cx .blobState
    else if b.storedSize ≠ offset then blobError cx .blobOffset
    else if b.declaredSize < b.storedSize + data.length then blobError cx .blobSize
    else blobCall cx (.stagingAppend blobId data) fun _ =>
      blobCall cx (.blobGrow blobId data.length) fun _ => answer cx .ack

def blobResume (s : Session) (blobId : Bytes) : Handles cx Outcome := whenMember cx s fun d =>
  blobCall cx (.blobRow blobId d.identityId) fun b =>
    if b.state ≠ .staging then blobError cx .blobState else answer cx (.blobOffset b.storedSize)

def blobExpiry (requestedExpiry now : Int) : Int :=
  RelayQueue.coarseExpiry
    (if requestedExpiry ≤ 0 ∨ now + defaultBlobTtl < requestedExpiry then now + defaultBlobTtl else requestedExpiry) now

def blobCommit (s : Session) (blobId ciphertextHash : Bytes) (requestedExpiry : UInt64) (now : Int) : Handles cx Outcome :=
  whenMember cx s fun d => blobCall cx (.blobRow blobId d.identityId) fun b =>
    if b.state ≠ .staging then blobError cx .blobState
    else if b.storedSize ≠ b.declaredSize then blobError cx .blobSize
    else blobCall cx (.stagingRead blobId) fun content =>
      if cx.sha256 content ≠ ciphertextHash then blobError cx .blobHash
      else blobCall cx (.stagingRename blobId) fun _ =>
        blobCall cx (.blobCommitted blobId (blobExpiry requestedExpiry.toInt64.toInt now)) fun _ =>
          answer cx (.blobCommitted (blobExpiry requestedExpiry.toInt64.toInt now))

def blobFetch (s : Session) (blobId readCapability : Bytes) (offset length : Nat) (now : Int) : Handles cx Outcome :=
  whenMember cx s fun _ => blobCall cx (.blobReadable blobId readCapability) fun b =>
    if b.expiresAt ≤ now then blobError cx .blobExpired
    else if b.storedSize ≤ offset then answer cx (.blobData b.storedSize [])
    else blobCall cx (.fileRead blobId offset (if length = 0 ∨ maxBlobChunk < length then maxBlobChunk else length)) fun data =>
      answer cx (.blobData b.storedSize data)

def invitationError : StoreError → Handles cx Outcome
  | .invitePermission => refuse cx 403 "invitation permission denied"
  | .inviteRequest => refuse cx 400 "invalid invitation request"
  | .requestConflict => refuse cx 409 "invitation request conflict"
  | .inviteUsed => refuse cx 409 "invitation already used"
  | .inviteInvalid => refuse cx 410 "invitation unavailable"
  | .noKeyPackage => refuse cx 410 "no key package available"
  | .inviteQuota => refuse cx 429 "invitation limit reached"
  | _ => refuse cx 500 "store error"

/-- Answer an invitation frame with what its call of the store returned. -/
def invitationCall (c : Call) (k : c.Result → Answer) : Handles cx Outcome := do
  match (← ask cx c) with
  | .error e => invitationError cx e
  | .ok r => answer cx (k r)

def invitation (d : Device) (now : Int) : Frame → Handles cx Outcome
  | .invitePolicyGet => invitationCall cx (.invitationPolicy d.credentialHash now) .invitePolicy
  | .inviteCreate requestKey tokenHash ttl =>
      invitationCall cx (.issueInvitation d.credentialHash requestKey tokenHash ttl now) .invitation
  | .inviteList cursor limit => invitationCall cx (.listInvitations d.credentialHash cursor limit now) .invitations
  | .inviteGet id =>
      if id.length ≠ 32 then invitationError cx .inviteRequest
      else invitationCall cx (.getInvitation d.credentialHash id now) .invitation
  | .inviteRevoke id =>
      if id.length ≠ 32 then invitationError cx .inviteRequest
      else invitationCall cx (.revokeInvitation d.credentialHash id now) .invitation
  | .inviteAccept token =>
      if token.length ≠ 32 then invitationError cx .inviteRequest
      else invitationCall cx (.acceptInvitation d.credentialHash (cx.sha256 token) now) .invitation
  | .keyPackagesClaimOnce requestKey identityId deviceId =>
      invitationCall cx (.claimKeyPackageOnce d.credentialHash requestKey identityId deviceId now) .keyPackageClaimed
  | _ => refuse cx 400 "unsupported frame"

def dispatchSession (s : Session) (f : Frame) (now : Int) : Handles cx Outcome :=
  match f with
  | .invitePolicyGet | .inviteCreate _ _ _ | .inviteList _ _ | .inviteGet _ | .inviteRevoke _ | .inviteAccept _
  | .keyPackagesClaimOnce _ _ _ => whenMember cx s fun d => invitation cx d now f
  | .ping => answer cx .pong
  | .endpointListGet => answer cx .endpointList
  | .inviteRedeem token credential manifest => inviteRedeem cx items s token credential manifest now
  | .credentialPut credential => credentialPut cx items s credential now
  | .manifestPut manifest => manifestPut cx items s manifest
  | .manifestGet identityId => manifestGet cx s identityId
  | .credentialGet identityId credentialHash => credentialGet cx s identityId credentialHash
  | .recoverIdentity credential manifest => recoverIdentity cx items s credential manifest now
  | .notifyHintSet url valid => notifyHintSet cx s url valid
  | .watchKeySet watchKey => watchKeySet cx s watchKey
  | .blobUploadBegin size id readCap => blobUploadBegin cx s size id readCap now
  | .blobChunk blobId offset data => blobChunk cx s blobId offset data
  | .blobCommit blobId ciphertextHash requestedExpiry => blobCommit cx s blobId ciphertextHash requestedExpiry now
  | .blobFetch blobId readCapability offset length => blobFetch cx s blobId readCapability offset length now
  | .blobResume blobId => blobResume cx s blobId
  | .keyPackagesPublish keyPackages => keyPackagesPublish cx s keyPackages now
  | .keyPackagesStatus => keyPackagesStatus cx s
  | .keyPackagesClaim identityId deviceId => keyPackagesClaim cx s identityId deviceId
  | .mailboxCreate requestKey readCapability writeCapability id drawnRead drawnWrite =>
      mailboxCreate cx s requestKey readCapability writeCapability id drawnRead drawnWrite now
  | .envelopePut mailboxId writeCapability deliveryId hpkeEnc ciphertext requestedExpiry =>
      envelopePut cx s mailboxId writeCapability deliveryId hpkeEnc ciphertext requestedExpiry now
  | .envelopeFetch mailboxId readCapability cursor limit => envelopeFetch cx s mailboxId readCapability cursor limit now
  | .envelopeAck mailboxId readCapability deliveryIds => envelopeAck cx s mailboxId readCapability deliveryIds now

/-- All a watch session may do. -/
def dispatchWatch : Frame → Handles cx Outcome
  | .ping => answer cx .pong
  | .endpointListGet => answer cx .endpointList
  | _ => refuse cx 403 "not allowed on a watch session"

def dispatch (s : Session) (f : Frame) (now : Int) : Handles cx Outcome :=
  if s.watcher.isSome then dispatchWatch cx f else dispatchSession cx items s f now

/-- A connection between two of its steps: what it calls next and how it goes on. A frame
keeps the store it found when it came. -/
inductive Connection where
  | handshake (c : Call) (k : Except StoreError c.Result → Handles cx (Option Session))
  | idle (s : Session)
  | busy (s : Session) (f : Frame) (found : Db) (c : Call) (k : Except StoreError c.Result → Handles cx Outcome)
  | closed

def Session.enter (s : Session) (o : Outcome) : Session := { s with device := o.device.or s.device }

def handshakeGoes : Handles cx (Option Session) → Connection cx
  | .done none => .closed
  | .done (some s) => .idle s
  | .call c k => .handshake c k

def frameGoes (s : Session) (f : Frame) (found : Db) : Handles cx Outcome → Connection cx
  | .done o => .idle (s.enter o)
  | .call c k => .busy s f found c k

inductive Chore where
  | createInvite (tokenHash : Bytes) (role : String) (expiresAt uses : Int)
  | makeOwner (identity : Bytes)
  | expireEnvelopes (now : Int)
  | sweepInvites (now : Int)
  | sweepInvitationHistory (now : Int)

def Chore.call : Chore → Call
  | .createInvite tokenHash role expiresAt uses => .createInvite tokenHash role expiresAt uses
  | .makeOwner identity => .makeOwner identity
  | .expireEnvelopes now => .expireEnvelopes now
  | .sweepInvites now => .sweepInvites now
  | .sweepInvitationHistory now => .sweepInvitationHistory now

structure World where
  db : Db
  connections : List (Connection cx)

inductive Event where
  | connect (remoteStatic : Bytes) (now : Int)
  | frame (i : Nat) (f : Frame) (now : Int)
  | advance (i : Nat)
  | close (i : Nat)
  | chore (c : Chore)

def start : World cx := ⟨.empty, []⟩

def step (w : World cx) : Event → World cx
  | .connect remoteStatic now =>
      { w with connections := w.connections ++ [handshakeGoes cx (authorize cx remoteStatic now)] }
  | .frame i f now =>
      match w.connections[i]? with
      | some (.idle s) => { w with connections := w.connections.set i (frameGoes cx s f w.db (dispatch cx items s f now)) }
      | _ => w
  | .advance i =>
      match w.connections[i]? with
      | some (.handshake c k) =>
          ⟨(c.prog cx.sha256 w.db).2, w.connections.set i (handshakeGoes cx (k (c.prog cx.sha256 w.db).1))⟩
      | some (.busy s f found c k) =>
          ⟨(c.prog cx.sha256 w.db).2, w.connections.set i (frameGoes cx s f found (k (c.prog cx.sha256 w.db).1))⟩
      | _ => w
  | .close i => { w with connections := w.connections.set i .closed }
  | .chore c => { w with db := (c.call.prog cx.sha256 w.db).2 }

/-- The session that an event makes a member session. -/
def becomesMember (w : World cx) : Event → Option Session
  | .frame i f now =>
      match w.connections[i]? with
      | some (.idle s) =>
          match dispatch cx items s f now with
          | .done o => if o.device.isSome then some (s.enter o) else none
          | .call _ _ => none
      | _ => none
  | .advance i =>
      match w.connections[i]? with
      | some (.handshake c k) =>
          match k (c.prog cx.sha256 w.db).1 with
          | .done (some s) => if s.device.isSome then some s else none
          | _ => none
      | some (.busy s _ _ c k) =>
          match k (c.prog cx.sha256 w.db).1 with
          | .done o => if o.device.isSome then some (s.enter o) else none
          | .call _ _ => none
      | _ => none
  | _ => none

/-- A frame that an event answers, with the session it came on and the store it found. -/
structure Answered where
  session : Session
  frame : Frame
  found : Db
  answer : Answer

def answers (w : World cx) : Event → Option Answered
  | .frame i f now =>
      match w.connections[i]? with
      | some (.idle s) =>
          match dispatch cx items s f now with
          | .done o => some ⟨s, f, w.db, o.answer⟩
          | .call _ _ => none
      | _ => none
  | .advance i =>
      match w.connections[i]? with
      | some (.busy s f found c k) =>
          match k (c.prog cx.sha256 w.db).1 with
          | .done o => some ⟨s, f, found, o.answer⟩
          | .call _ _ => none
      | _ => none
  | _ => none

end handlers

end Arveil.RelayServer

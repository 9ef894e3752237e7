import Arveil.Spec.RelayServer

/-! Which tables each call of the relay's store writes. Every other table is after the call
what it was before, whether the call succeeds or fails. -/

namespace Arveil.RelayStore

open Prog

inductive Part where
  | memberships
  | invites
  | credentials
  | redemptions
  | manifests
  | recoveries
  | watchKeys
  | owners
  | capabilities
  | mailboxRequests
  | hints
  | keyPackages
  | receipts
  | issued
  | blobs
  | staging
  | files
  | queue
deriving DecidableEq

/-- What a part holds; issued invitations come with their counter. -/
abbrev Part.Rows : Part → Type
  | .memberships => Table MembershipRow.identityId
  | .invites => Table InviteRow.tokenHash
  | .credentials => Table CredentialRow.credentialHash
  | .redemptions => Table fun r : RedemptionRow => (r.tokenHash, r.identityId)
  | .manifests => Table fun m : ManifestRow => (m.identityId, m.sequence)
  | .recoveries => Table RecoveryRow.credentialHash
  | .watchKeys => Table fun w : WatchKeyRow => (w.identityId, w.deviceId)
  | .owners => Table OwnerRow.mailboxId
  | .capabilities => Table CapabilityRow.capHash
  | .mailboxRequests => Table MailboxRequestRow.requestKey
  | .hints => Table HintRow.deviceId
  | .keyPackages => Table KeyPackageRow.ref
  | .receipts => Table fun r : ClaimReceiptRow => (r.claimant, r.requestKey)
  | .issued => Table IssuedRow.tokenHash × Nat
  | .blobs => Table BlobRow.blobId
  | .staging => Table BlobFile.blobId
  | .files => Table BlobFile.blobId
  | .queue => RelayQueue.Queue

def Db.part (db : Db) : (p : Part) → p.Rows
  | .memberships => db.memberships
  | .invites => db.invites
  | .credentials => db.credentials
  | .redemptions => db.redemptions
  | .manifests => db.manifests
  | .recoveries => db.recoveries
  | .watchKeys => db.watchKeys
  | .owners => db.owners
  | .capabilities => db.capabilities
  | .mailboxRequests => db.mailboxRequests
  | .hints => db.hints
  | .keyPackages => db.keyPackages
  | .receipts => db.receipts
  | .issued => (db.issued, db.nextIssued)
  | .blobs => db.blobs
  | .staging => db.staging
  | .files => db.files
  | .queue => db.queue

def Db.set (db : Db) : (p : Part) → p.Rows → Db
  | .memberships, t => { db with memberships := t }
  | .invites, t => { db with invites := t }
  | .credentials, t => { db with credentials := t }
  | .redemptions, t => { db with redemptions := t }
  | .manifests, t => { db with manifests := t }
  | .recoveries, t => { db with recoveries := t }
  | .watchKeys, t => { db with watchKeys := t }
  | .owners, t => { db with owners := t }
  | .capabilities, t => { db with capabilities := t }
  | .mailboxRequests, t => { db with mailboxRequests := t }
  | .hints, t => { db with hints := t }
  | .keyPackages, t => { db with keyPackages := t }
  | .receipts, t => { db with receipts := t }
  | .issued, t => { db with issued := t.1, nextIssued := t.2 }
  | .blobs, t => { db with blobs := t }
  | .staging, t => { db with staging := t }
  | .files, t => { db with files := t }
  | .queue, q => { db with queue := q }

def outside (ps : List Part) (db : Db) : (p : Part) → p ∉ ps → p.Rows := fun p _ => db.part p

theorem part_set_ne {p q : Part} (h : q ≠ p) (db : Db) (t : p.Rows) : (db.set p t).part q = db.part q := by
  cases p <;> cases q <;> first | rfl | exact absurd rfl h

theorem outside_set {ps : List Part} {p : Part} (hp : p ∈ ps) (db : Db) (t : p.Rows) : outside ps (db.set p t) = outside ps db := by
  funext q hq
  refine part_set_ne (fun h => hq ?_) db t
  rw [h]
  exact hp

theorem part_of_outside {ps : List Part} {db db' : Db} (h : outside ps db' = outside ps db) {p : Part} (hp : p ∉ ps) :
    db'.part p = db.part p := congrFun (congrFun h p) hp

section rows

variable {α γ ρ : Type} {f : Db → γ}

theorem insertRow_eq_ok {e : StoreError} {g : ρ → Db → Option Db} {row : ρ} {db db' : Db} {u : Unit} :
    insertRow e g row db = (.ok u, db') ↔ g row db = some db' := by
  rw [insertRow, tryModify_eq_ok]
  cases g row db <;> simp

theorem insertRow_eq_error {e e' : StoreError} {g : ρ → Db → Option Db} {row : ρ} {db db' : Db}
    (h : insertRow e g row db = (.error e', db')) : db' = db := by
  unfold insertRow tryModify at h
  cases hf : g row db with
  | some db₁ => simp [hf] at h
  | none =>
    obtain ⟨-, rfl⟩ : e = e' ∧ db = db' := by simpa [hf] using h
    rfl

theorem require_eq_ok {e : StoreError} {g : Db → Option α} {db db' : Db} {a : α} :
    require e g db = (.ok a, db') ↔ g db = some a ∧ db = db' := by
  rw [require, bind_eq_ok]
  simp only [read_eq_ok, ofOption_eq_ok]
  constructor
  · rintro ⟨o, db₁, ⟨rfl, rfl⟩, ho, rfl⟩
    exact ⟨ho, rfl⟩
  · rintro ⟨ho, rfl⟩
    exact ⟨_, _, ⟨rfl, rfl⟩, ho, rfl⟩

theorem failsOnly_require {P : StoreError → Prop} {e : StoreError} (he : P e) (g : Db → Option α) :
    FailsOnly P (require e g) := failsOnly_bind (failsOnly_read _) fun o => failsOnly_ofOption he o

theorem failsOnly_insertRow {P : StoreError → Prop} {e : StoreError} (he : P e) (g : ρ → Db → Option Db) (row : ρ) :
    FailsOnly P (insertRow e g row) := by
  intro db e' db' h
  unfold insertRow tryModify at h
  cases hf : g row db with
  | some db₁ => simp [hf] at h
  | none =>
    obtain ⟨rfl, -⟩ : e = e' ∧ db = db' := by simpa [hf] using h
    exact he

theorem fixes_require (e : StoreError) (g : Db → Option α) : Fixes f (require e g) :=
  fixes_bind (fixes_read _) fun _ => fixes_ofOption _ _

theorem fixes_insertRow {e : StoreError} {g : ρ → Db → Option Db} {row : ρ}
    (h : ∀ db db', g row db = some db' → f db' = f db) : Fixes f (insertRow e g row) := by
  refine fixes_tryModify fun db db' hg => ?_
  cases hr : g row db with
  | none => simp [hr] at hg
  | some db₁ =>
    obtain rfl : db₁ = db' := by simpa [hr] using hg
    exact h db db₁ hr

theorem fixes_activeRole (credential : Bytes) (now : Int) : Fixes f (activeRole credential now) := fixes_require _ _

end rows

section writes

variable {ps : List Part} {α ρ : Type}

/-- An insert goes into one part. -/
def InsertsInto (p : Part) (g : ρ → Db → Option Db) : Prop := ∀ row db db', g row db = some db' → ∃ t, db' = db.set p t

theorem insertsInto_map {κ : Type} {key : ρ → κ} [DecidableEq κ] (p : Part) (table : Db → Table key)
    (rows : Db → Table key → p.Rows) : InsertsInto p fun row db => ((table db).insert row).map fun t => db.set p (rows db t) := by
  intro row db db' h
  obtain ⟨t, -, rfl⟩ := Option.map_eq_some_iff.1 h
  exact ⟨_, rfl⟩

theorem InsertsInto.guarded {p : Part} {g : ρ → Db → Option Db} (hg : InsertsInto p g) (c : ρ → Db → Prop)
    [∀ row db, Decidable (c row db)] : InsertsInto p fun row db => if c row db then none else g row db := by
  intro row db db' h
  dsimp only at h
  split at h
  · cases h
  · exact hg row db db' h

theorem fixes_insertInto {p : Part} {e : StoreError} {g : ρ → Db → Option Db} {row : ρ} (hg : InsertsInto p g) (hp : p ∈ ps) :
    Fixes (outside ps) (insertRow e g row) := by
  refine fixes_insertRow fun db db' h => ?_
  obtain ⟨t, rfl⟩ := hg row db db' h
  exact outside_set hp db t

theorem fixes_set {p : Part} {g : Db → Db} (hp : p ∈ ps) (hg : ∀ db, ∃ t, g db = db.set p t) :
    Fixes (outside ps) (Prog.modify g : Txn Unit) := by
  refine fixes_modify fun db => ?_
  obtain ⟨t, ht⟩ := hg db
  rw [ht]
  exact outside_set hp db t

theorem insertsInto_membership : InsertsInto .memberships addMembership := insertsInto_map .memberships (·.memberships) fun _ t => t

theorem insertsInto_redemption : InsertsInto .redemptions addRedemption := insertsInto_map .redemptions (·.redemptions) fun _ t => t

theorem insertsInto_mailboxRequest : InsertsInto .mailboxRequests addMailboxRequest :=
  insertsInto_map .mailboxRequests (·.mailboxRequests) fun _ t => t

theorem insertsInto_invite : InsertsInto .invites addInvite := insertsInto_map .invites (·.invites) fun _ t => t

theorem insertsInto_issued : InsertsInto .issued addIssued :=
  insertsInto_map .issued (·.issued) fun db t => (t, db.nextIssued + 1)

theorem insertsInto_receipt : InsertsInto .receipts addReceipt := insertsInto_map .receipts (·.receipts) fun _ t => t

theorem insertsInto_manifest : InsertsInto .manifests addManifest :=
  (insertsInto_map .manifests (·.manifests) fun _ t => t).guarded _

theorem insertsInto_recovery : InsertsInto .recoveries addRecovery :=
  (insertsInto_map .recoveries (·.recoveries) fun _ t => t).guarded _

theorem insertsInto_capability : InsertsInto .capabilities addCapability :=
  (insertsInto_map .capabilities (·.capabilities) fun _ t => t).guarded _

theorem insertsInto_blob : InsertsInto .blobs addBlob := (insertsInto_map .blobs (·.blobs) fun _ t => t).guarded _

theorem insertsInto_watchKey : InsertsInto .watchKeys addWatchKey := by
  intro row db db' h
  unfold addWatchKey at h
  split at h
  · cases h
  · obtain rfl := Option.some.inj h
    exact ⟨_, rfl⟩

theorem insertsInto_credential : InsertsInto .credentials addCredential := by
  intro e db db' h
  unfold addCredential at h
  split at h
  · cases h
  · split at h
    · cases h
    · split at h
      · cases h
      · split at h
        · cases h
        · obtain ⟨t, -, rfl⟩ := Option.map_eq_some_iff.1 h
          exact ⟨t, rfl⟩

theorem fixes_addMailbox {e : StoreError} {row : OwnerRow} (ho : Part.owners ∈ ps) (hq : Part.queue ∈ ps) :
    Fixes (outside ps) (insertRow e addMailbox row) := by
  refine fixes_insertRow fun db db' h => ?_
  unfold addMailbox at h
  split at h
  · cases h
  · obtain ⟨owners, -, h⟩ := Option.bind_eq_some_iff.1 h
    obtain ⟨mailboxes, -, rfl⟩ := Option.map_eq_some_iff.1 h
    exact (outside_set hq (db.set .owners owners) _).trans (outside_set ho db owners)

theorem outside_revokeDevice (hc : Part.credentials ∈ ps) (hcap : Part.capabilities ∈ ps) (hw : Part.watchKeys ∈ ps)
    (identityId hash deviceId : Bytes) (db : Db) :
    outside ps (revokeDevice identityId hash deviceId db) = outside ps db := by
  have hrevoked : outside ps (revokeCapabilities identityId deviceId (setRevoked hash db)) = outside ps db :=
    (outside_set hcap (setRevoked hash db) _).trans (outside_set hc db _)
  unfold revokeDevice forgetWatchKey
  split
  · exact hrevoked
  · exact (outside_set hw _ _).trans hrevoked

theorem outside_revokeEach (hc : Part.credentials ∈ ps) (hcap : Part.capabilities ∈ ps) (hw : Part.watchKeys ∈ ps)
    (identityId : Bytes) (hashes : List Bytes) (db : Db) :
    outside ps (revokeEach identityId hashes db).2 = outside ps db := by
  induction hashes generalizing db with
  | nil => rfl
  | cons hash hashes ih =>
    unfold revokeEach
    split
    · exact ih db
    · exact (ih _).trans (outside_revokeDevice hc hcap hw _ _ _ _)

theorem outside_revokeAgain (hc : Part.credentials ∈ ps) (hcap : Part.capabilities ∈ ps) (hw : Part.watchKeys ∈ ps)
    (identityId : Bytes) (hashes : List Bytes) (db : Db) :
    outside ps (revokeAgain identityId hashes db) = outside ps db := by
  induction hashes generalizing db with
  | nil => rfl
  | cons hash hashes ih =>
    unfold revokeAgain
    split
    · exact ih db
    · exact (ih _).trans (outside_revokeDevice hc hcap hw _ _ _ _)

end writes

/-- The parts a call writes. -/
def writes : RelayServer.Call → List Part
  | .redeemInvite _ _ _ => [.memberships, .invites, .credentials, .manifests, .redemptions, .issued]
  | .putCredential _ => [.credentials]
  | .publishManifest _ _ _ _ => [.manifests, .credentials, .capabilities, .watchKeys]
  | .recoverIdentity _ _ _ => [.manifests, .credentials, .capabilities, .watchKeys, .recoveries]
  | .setNotifyHint _ _ => [.hints]
  | .setWatchKey _ _ _ => [.watchKeys]
  | .createMailbox _ _ _ _ _ _ => [.owners, .queue, .capabilities]
  | .createMailboxForRequest _ _ _ _ _ _ _ => [.owners, .queue, .capabilities, .mailboxRequests]
  | .putEnvelope _ _ _ _ _ _ | .ackEnvelopes _ _ | .expireEnvelopes _ => [.queue]
  | .publishKeyPackages _ _ _ _ | .claimKeyPackage _ _ => [.keyPackages]
  | .issueInvitation _ _ _ _ _ | .revokeInvitation _ _ _ => [.invites, .issued]
  | .acceptInvitation _ _ _ => [.invites, .issued, .redemptions]
  | .claimKeyPackageOnce _ _ _ _ _ => [.keyPackages, .receipts]
  | .blobInsert _ _ _ _ _ | .blobGrow _ _ | .blobCommitted _ _ => [.blobs]
  | .stagingCreate _ | .stagingAppend _ _ => [.staging]
  | .stagingRename _ => [.staging, .files]
  | .createInvite _ _ _ _ | .sweepInvites _ => [.invites]
  | .makeOwner _ => [.memberships]
  | .sweepInvitationHistory _ => [.invites, .issued, .receipts]
  | _ => []

attribute [local simp] writes

def clock : RelayServer.Call → Option Int
  | .deviceByWatchKey _ now | .redeemInvite _ now _ | .recoverIdentity _ _ now | .createMailbox _ _ _ _ _ now
  | .createMailboxForRequest _ _ _ _ _ _ now | .checkCapability _ _ _ now | .putEnvelope _ _ _ _ _ now | .fetchEnvelopes _ _ _ now
  | .publishKeyPackages _ _ _ now | .invitationPolicy _ now | .issueInvitation _ _ _ _ now | .listInvitations _ _ _ now
  | .getInvitation _ _ now | .revokeInvitation _ _ now | .acceptInvitation _ _ now | .claimKeyPackageOnce _ _ _ _ now
  | .blobInsert _ _ _ _ now | .expireEnvelopes now | .sweepInvites now | .sweepInvitationHistory now => some now
  | _ => none

variable {sha256 : Bytes → Bytes}

section calls

theorem fixes_redeemInvite (tokenHash : Bytes) (now : Int) (e : Enrollment) :
    Fixes (outside (writes (.redeemInvite tokenHash now e))) (redeemInvite tokenHash now e) := by
  refine fixes_unitOfWork (fixes_bind (fixes_read _) fun r => ?_)
  cases r with
  | some r => exact fixes_fail _
  | none =>
    refine fixes_bind (fixes_require _ _) fun _ => fixes_bind (fixes_set (p := .invites) (by simp [writes]) fun _ => ⟨_, rfl⟩) fun _ => ?_
    refine fixes_bind (fixes_insertInto insertsInto_membership (by simp [writes])) fun _ => ?_
    refine fixes_bind (fixes_insertInto insertsInto_credential (by simp [writes])) fun _ => ?_
    refine fixes_bind (fixes_insertInto insertsInto_manifest (by simp [writes])) fun _ => ?_
    refine fixes_bind (fixes_insertInto insertsInto_redemption (by simp [writes])) fun _ => ?_
    exact fixes_set (p := .issued) (by simp [writes]) fun db => ⟨(_, db.nextIssued), rfl⟩

theorem fixes_publishManifest (identityId : Bytes) (seq : UInt64) (signed : Bytes) (revoked : List Bytes) :
    Fixes (outside (writes (.publishManifest identityId seq signed revoked))) (publishManifest identityId seq signed revoked) := by
  refine fixes_unitOfWork (fixes_bind (fixes_read _) fun _ => fixes_bind (fixes_when _ (fixes_fail _)) fun _ => ?_)
  refine fixes_bind (fixes_when _ (fixes_insertInto insertsInto_manifest (by simp [writes]))) fun _ => ?_
  exact fun db => outside_revokeEach (by simp [writes]) (by simp [writes]) (by simp [writes]) _ _ db

theorem fixes_recoverIdentity (e : Enrollment) (revoked : List Bytes) (now : Int) :
    Fixes (outside (writes (.recoverIdentity e revoked now))) (recoverIdentity e revoked now) := by
  refine fixes_unitOfWork (fixes_bind (fixes_read _) fun r => ?_)
  cases r with
  | some r =>
    dsimp only
    split
    · exact fixes_fail _
    · exact fixes_pure _
  | none =>
    refine fixes_bind (fixes_read _) fun _ => fixes_bind (fixes_when _ (fixes_fail _)) fun _ => ?_
    refine fixes_bind (fixes_insertInto insertsInto_manifest (by simp [writes])) fun _ => ?_
    refine fixes_bind (fixes_insertInto insertsInto_credential (by simp [writes])) fun _ => ?_
    refine fixes_bind (fixes_modify fun db => outside_revokeAgain (by simp [writes]) (by simp [writes]) (by simp [writes]) _ _ db) fun _ => ?_
    exact fixes_bind (fixes_insertInto insertsInto_recovery (by simp [writes])) fun _ => fixes_pure _

theorem fixes_setWatchKey (identityId deviceId key : Bytes) :
    Fixes (outside (writes (.setWatchKey identityId deviceId key))) (setWatchKey identityId deviceId key) := by
  unfold setWatchKey
  split
  · exact fixes_set (p := .watchKeys) (by simp [writes]) fun _ => ⟨_, rfl⟩
  · split
    · exact fixes_fail _
    · exact fixes_unitOfWork (fixes_bind (fixes_read _) fun _ => fixes_bind (fixes_when _ (fixes_fail _)) fun _ =>
        fixes_insertInto insertsInto_watchKey (by simp [writes]))

theorem fixes_createMailbox (identityId deviceId id readCap writeCap : Bytes) (now : Int) :
    Fixes (outside (writes (.createMailbox identityId deviceId id readCap writeCap now)))
      (createMailbox sha256 identityId deviceId id readCap writeCap now) :=
  fixes_unitOfWork (fixes_bind (fixes_addMailbox (by simp [writes]) (by simp [writes])) fun _ =>
    fixes_bind (fixes_insertInto insertsInto_capability (by simp [writes])) fun _ =>
    fixes_bind (fixes_insertInto insertsInto_capability (by simp [writes])) fun _ => fixes_pure _)

theorem fixes_createMailboxForRequest (identityId deviceId requestKey readCap writeCap id : Bytes) (now : Int) :
    Fixes (outside (writes (.createMailboxForRequest identityId deviceId requestKey readCap writeCap id now)))
      (createMailboxForRequest sha256 identityId deviceId requestKey readCap writeCap id now) := by
  refine fixes_unitOfWork (fixes_bind (fixes_read _) fun r => ?_)
  cases r with
  | some r =>
    dsimp only
    split
    · exact fixes_fail _
    · exact fixes_pure _
  | none =>
    refine fixes_bind (fixes_addMailbox (by simp [writes]) (by simp [writes])) fun _ => ?_
    refine fixes_bind (fixes_insertInto insertsInto_capability (by simp [writes])) fun _ => ?_
    refine fixes_bind (fixes_insertInto insertsInto_capability (by simp [writes])) fun _ => ?_
    exact fixes_bind (fixes_insertInto insertsInto_mailboxRequest (by simp [writes])) fun _ => fixes_pure _

theorem fixes_onQueue {α : Type} {ps : List Part} (hq : Part.queue ∈ ps) (p : Prog RelayQueue.Queue StoreError α) :
    Fixes (outside ps) (onQueue p) := fun db => outside_set hq db _

theorem fixes_publishKeyPackages (identityId deviceId : Bytes) (packages : List Bytes) (now : Int) :
    Fixes (outside (writes (.publishKeyPackages identityId deviceId packages now)))
      (publishKeyPackages sha256 identityId deviceId packages now) := by
  unfold publishKeyPackages
  split
  · exact fixes_fail _
  · refine fixes_unitOfWork (fixes_bind (fixes_forEach _ fun package _ => ?_) fun _ =>
      fixes_bind (fixes_read _) fun _ => fixes_when _ (fixes_fail _))
    exact fixes_bind (fixes_when _ (fixes_fail _)) fun _ => fixes_bind (fixes_read _) fun _ =>
      fixes_bind (fixes_when _ (fixes_fail _)) fun _ => fixes_set (p := .keyPackages) (by simp [writes]) fun _ => ⟨_, rfl⟩

theorem fixes_consume {ps : List Part} (hp : Part.keyPackages ∈ ps) (ref : Bytes) :
    Fixes (outside ps) (Prog.modify (consume ref) : Txn Unit) := fixes_set hp fun _ => ⟨_, rfl⟩

theorem fixes_claimKeyPackage (identityId deviceId : Bytes) :
    Fixes (outside (writes (.claimKeyPackage identityId deviceId))) (claimKeyPackage identityId deviceId) :=
  fixes_unitOfWork (fixes_bind (fixes_require _ _) fun _ => fixes_bind (fixes_consume (by simp [writes]) _) fun _ => fixes_pure _)

theorem fixes_issueInvitation (credential key hash : Bytes) (ttl : UInt64) (now : Int) :
    Fixes (outside (writes (.issueInvitation credential key hash ttl now))) (issueInvitation credential key hash ttl now) := by
  unfold issueInvitation
  split
  · exact fixes_fail _
  · refine fixes_unitOfWork (fixes_bind (fixes_activeRole _ _) fun _ => fixes_bind (fixes_when _ (fixes_fail _)) fun _ =>
      fixes_bind (fixes_read _) fun r => ?_)
    cases r with
    | some i =>
      dsimp only
      split
      · exact fixes_fail _
      · exact fixes_pure _
    | none =>
      refine fixes_bind (fixes_when _ (fixes_fail _)) fun _ => fixes_bind (fixes_read _) fun _ => fixes_bind (fixes_read _) fun _ =>
        fixes_bind (fixes_when _ (fixes_fail _)) fun _ => fixes_bind (fixes_read _) fun _ =>
        fixes_bind (fixes_when _ (fixes_fail _)) fun _ => ?_
      refine fixes_bind (fixes_insertInto insertsInto_invite (by simp [writes])) fun _ => fixes_bind (fixes_read _) fun _ => ?_
      exact fixes_bind (fixes_insertInto insertsInto_issued (by simp [writes])) fun _ => fixes_pure _

theorem fixes_setUsesLeft {ps : List Part} (hp : Part.invites ∈ ps) (hash : Bytes) (f : Int → Int) :
    Fixes (outside ps) (Prog.modify (setUsesLeft hash f) : Txn Unit) := fixes_set hp fun _ => ⟨_, rfl⟩

theorem fixes_revokeInvitation (credential hash : Bytes) (now : Int) :
    Fixes (outside (writes (.revokeInvitation credential hash now))) (revokeInvitation credential hash now) := by
  refine fixes_unitOfWork (fixes_bind (fixes_activeRole _ _) fun _ => fixes_bind (fixes_when _ (fixes_fail _)) fun _ =>
    fixes_bind (fixes_require _ _) fun _ => ?_)
  dsimp only
  split
  · exact fixes_fail _
  · split
    · exact fixes_pure _
    · refine fixes_bind (fixes_setUsesLeft (by simp [writes]) _ _) fun _ => ?_
      exact fixes_bind (fixes_set (p := .issued) (by simp [writes]) fun db => ⟨(_, db.nextIssued), rfl⟩) fun _ => fixes_pure _

theorem fixes_acceptInvitation (credential hash : Bytes) (now : Int) :
    Fixes (outside (writes (.acceptInvitation credential hash now))) (acceptInvitation credential hash now) := by
  refine fixes_unitOfWork (fixes_bind (fixes_activeRole _ _) fun _ => fixes_bind (fixes_require _ _) fun _ =>
    fixes_bind (fixes_when _ (fixes_fail _)) fun _ => ?_)
  dsimp only
  split
  · refine fixes_bind (fixes_read _) fun mine => ?_
    split
    · exact fixes_pure _
    · exact fixes_fail _
  · split
    · exact fixes_fail _
    · refine fixes_bind (fixes_setUsesLeft (by simp [writes]) _ _) fun _ => ?_
      refine fixes_bind (fixes_set (p := .issued) (by simp [writes]) fun db => ⟨(_, db.nextIssued), rfl⟩) fun _ => ?_
      exact fixes_bind (fixes_insertInto insertsInto_redemption (by simp [writes])) fun _ => fixes_pure _

theorem fixes_claimKeyPackageOnce (credential key identity device : Bytes) (now : Int) :
    Fixes (outside (writes (.claimKeyPackageOnce credential key identity device now)))
      (claimKeyPackageOnce credential key identity device now) := by
  unfold claimKeyPackageOnce
  split
  · exact fixes_fail _
  · refine fixes_unitOfWork (fixes_bind (fixes_activeRole _ _) fun _ => fixes_bind (fixes_read _) fun r => ?_)
    cases r with
    | some r =>
      dsimp only
      split
      · exact fixes_fail _
      · exact fixes_pure _
    | none =>
      refine fixes_bind (fixes_when _ (fixes_fail _)) fun _ => fixes_bind (fixes_read _) fun _ =>
        fixes_bind (fixes_when _ (fixes_fail _)) fun _ => fixes_bind (fixes_require _ _) fun _ => ?_
      refine fixes_bind (fixes_consume (by simp [writes]) _) fun _ => ?_
      exact fixes_bind (fixes_insertInto insertsInto_receipt (by simp [writes])) fun _ => fixes_pure _

theorem fixes_sweepInvitationHistory (now : Int) :
    Fixes (outside (writes (.sweepInvitationHistory now))) (Prog.modify (sweepInvitationHistory now) : Txn Unit) := by
  refine fixes_modify fun db => ?_
  funext p hp
  cases p <;> first | rfl | exact absurd (by simp [writes]) hp

theorem fixes_stagingRename (id : Bytes) : Fixes (outside (writes (.stagingRename id))) (stagingRename id) := by
  refine fixes_bind (fixes_require _ _) fun f => fixes_modify fun db => ?_
  funext p hp
  cases p <;> first | rfl | exact absurd (by simp [writes]) hp

end calls

theorem fixes_outside (c : RelayServer.Call) : Fixes (outside (writes c)) (c.prog sha256) := by
  cases c with
  | redeemInvite tokenHash now e => exact fixes_redeemInvite _ _ _
  | putCredential e => exact fixes_unitOfWork (fixes_insertInto insertsInto_credential (by simp [writes]))
  | publishManifest identityId seq signed revoked => exact fixes_publishManifest _ _ _ _
  | recoverIdentity e revoked now => exact fixes_recoverIdentity _ _ _
  | setNotifyHint deviceId url => exact fixes_set (p := .hints) (by simp [writes]) fun _ => ⟨_, rfl⟩
  | setWatchKey identityId deviceId key => exact fixes_setWatchKey _ _ _
  | createMailbox identityId deviceId id readCap writeCap now => exact fixes_createMailbox _ _ _ _ _ _
  | createMailboxForRequest identityId deviceId requestKey readCap writeCap id now =>
    exact fixes_createMailboxForRequest _ _ _ _ _ _ _
  | checkCapability mailboxId capability scope now => exact fixes_bind (fixes_read _) fun _ => fixes_when _ (fixes_fail _)
  | putEnvelope mailboxId deliveryId hpkeEnc ciphertext requestedExpiry now => exact fixes_onQueue (by simp [writes]) _
  | ackEnvelopes mailboxId deliveryIds => exact fixes_onQueue (by simp [writes]) _
  | expireEnvelopes now => exact fixes_onQueue (by simp [writes]) _
  | publishKeyPackages identityId deviceId packages now => exact fixes_publishKeyPackages _ _ _ _
  | claimKeyPackage identityId deviceId => exact fixes_claimKeyPackage _ _
  | invitationPolicy credential now => exact fixes_bind (fixes_activeRole _ _) fun _ => fixes_pure _
  | issueInvitation credential key hash ttl now => exact fixes_issueInvitation _ _ _ _ _
  | listInvitations credential cursor limit now =>
    dsimp only [RelayServer.Call.prog, listInvitations]
    split
    · exact fixes_fail _
    · exact fixes_bind (fixes_activeRole _ _) fun _ => fixes_read _
  | getInvitation credential hash now =>
    exact fixes_bind (fixes_activeRole _ _) fun _ => fixes_bind (fixes_require _ _) fun _ => fixes_pure _
  | revokeInvitation credential hash now => exact fixes_revokeInvitation _ _ _
  | acceptInvitation credential hash now => exact fixes_acceptInvitation _ _ _
  | claimKeyPackageOnce credential key identity device now => exact fixes_claimKeyPackageOnce _ _ _ _ _
  | blobInsert id identity readCap size now => exact fixes_insertInto insertsInto_blob (by simp [writes])
  | blobGrow id n => exact fixes_set (p := .blobs) (by simp [writes]) fun _ => ⟨_, rfl⟩
  | blobCommitted id expiry => exact fixes_set (p := .blobs) (by simp [writes]) fun _ => ⟨_, rfl⟩
  | stagingCreate id =>
    exact fixes_insertInto (p := .staging) (insertsInto_map .staging (·.staging) fun _ t => t) (by simp [writes])
  | stagingAppend id data =>
    refine fixes_bind (fixes_require _ _) fun _ => ?_
    exact fixes_set (p := .staging) (by simp [writes]) fun _ => ⟨_, rfl⟩
  | stagingRename id => exact fixes_stagingRename id
  | stagingRead id => exact fixes_bind (fixes_require _ _) fun _ => fixes_pure _
  | fileRead id offset length =>
    refine fixes_bind (fixes_require _ _) fun f => ?_
    dsimp only
    split
    · exact fixes_fail _
    · exact fixes_pure _
  | createInvite tokenHash role expiresAt uses => exact fixes_insertInto insertsInto_invite (by simp [writes])
  | makeOwner identity =>
    exact fixes_unitOfWork (fixes_bind (fixes_require _ _) fun _ => fixes_set (p := .memberships) (by simp [writes]) fun _ => ⟨_, rfl⟩)
  | sweepInvites now => exact fixes_set (p := .invites) (by simp [writes]) fun _ => ⟨_, rfl⟩
  | sweepInvitationHistory now => exact fixes_sweepInvitationHistory now
  | rootPublic identityId => exact fixes_require _ _
  | blobRow id identity => exact fixes_require _ _
  | blobReadable id readCap => exact fixes_require _ _
  | fetchEnvelopes mailboxId cursor limit now =>
    show Fixes _ (RelayStore.fetchEnvelopes mailboxId cursor limit now)
    unfold RelayStore.fetchEnvelopes
    split_ifs <;> exact fun _ => rfl
  | deviceByTransportKey | deviceByWatchKey | latestManifest | credentialByHash | availableKeyPackages | blobUsage => exact fun _ => rfl

theorem part_call (c : RelayServer.Call) (db : Db) {p : Part} (hp : p ∉ writes c) : (c.prog sha256 db).2.part p = db.part p :=
  part_of_outside (fixes_outside c db) hp

end Arveil.RelayStore

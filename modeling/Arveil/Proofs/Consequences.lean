import Arveil.Proofs.Chain
import Arveil.Proofs.WatchKeys

/-! What a revocation does to the mailboxes of a device. A credential is revoked, and with it
the capabilities of every mailbox its device owns, whatever else the device has; a watch key
goes only with the last credential. The two agree where a device is revoked as a whole and
nothing is made for it afterwards. -/

namespace Arveil.RelayStore

open Prog RelayServer

variable {sha256 : Bytes → Bytes}

def Active (identityId deviceId : Bytes) (db : Db) : Prop :=
  ∃ c ∈ db.credentials, c.identityId = identityId ∧ c.deviceId = deviceId ∧ c.status = .active

def Owns (identityId deviceId : Bytes) (db : Db) : Prop :=
  ∃ o ∈ db.owners, o.ownerIdentity = identityId ∧ o.ownerDevice = deviceId

instance (identityId deviceId : Bytes) (db : Db) : Decidable (Active identityId deviceId db) :=
  inferInstanceAs (Decidable (∃ c ∈ db.credentials.rows, c.identityId = identityId ∧ c.deviceId = deviceId ∧ c.status = .active))

instance (identityId deviceId : Bytes) (db : Db) : Decidable (Owns identityId deviceId db) :=
  inferInstanceAs (Decidable (∃ o ∈ db.owners.rows, o.ownerIdentity = identityId ∧ o.ownerDevice = deviceId))

/-- The consequences of a revocation agree: a mailbox is silent exactly when its device lost
its last credential, it can be used only with an active one, and a watch key is dropped with
the last. -/
structure ConsequencesAgree (db : Db) : Prop where
  silent : ∀ o ∈ db.owners, ∀ k ∈ db.capabilities, k.mailboxId = o.mailboxId →
    (k.revoked = true ↔ Lapsed o.ownerIdentity o.ownerDevice db)
  usable : ∀ o ∈ db.owners, ∀ k ∈ db.capabilities, k.mailboxId = o.mailboxId → k.revoked = false →
    Active o.ownerIdentity o.ownerDevice db
  forgotten : Forgotten db

/-- The capabilities of the mailboxes of some devices of an identity are revoked, and no others. -/
structure Silences (identityId : Bytes) (hit : Bytes → Prop) (db db' : Db) : Prop where
  owners : db'.owners = db.owners
  capabilities : ∀ k' ∈ db'.capabilities, ∃ k ∈ db.capabilities, k'.mailboxId = k.mailboxId ∧
    (k'.revoked = true ↔ k.revoked = true ∨
      ∃ o ∈ db.owners, o.mailboxId = k.mailboxId ∧ o.ownerIdentity = identityId ∧ hit o.ownerDevice)

theorem Silences.congr {identityId : Bytes} {hit hit' : Bytes → Prop} {db db' : Db} (h : Silences identityId hit db db')
    (heq : ∀ d, hit d ↔ hit' d) : Silences identityId hit' db db' := by
  obtain rfl : hit = hit' := funext fun d => propext (heq d)
  exact h

theorem Silences.refl (identityId : Bytes) (db : Db) : Silences identityId (fun _ => False) db db where
  owners := rfl
  capabilities k hk := ⟨k, hk, rfl, by simp⟩

theorem Silences.trans {identityId : Bytes} {hit hit' : Bytes → Prop} {db db₁ db' : Db} (h : Silences identityId hit db db₁)
    (h' : Silences identityId hit' db₁ db') : Silences identityId (fun d => hit d ∨ hit' d) db db' where
  owners := h'.owners.trans h.owners
  capabilities k' hk' := by
    obtain ⟨k₁, hk₁, hbox', hrevoked'⟩ := h'.capabilities k' hk'
    obtain ⟨k, hk, hbox, hrevoked⟩ := h.capabilities k₁ hk₁
    refine ⟨k, hk, hbox'.trans hbox, ?_⟩
    rw [hrevoked', hrevoked, h.owners, hbox, or_assoc, ← exists_or]
    refine or_congr_right (exists_congr fun o => ?_)
    simp only [← and_or_left]

theorem revokeDevice_silences (identityId hash deviceId : Bytes) (db : Db) :
    Silences identityId (fun d => d = deviceId) db (revokeDevice identityId hash deviceId db) := by
  have hparts : (revokeDevice identityId hash deviceId db).owners = db.owners ∧
      (revokeDevice identityId hash deviceId db).capabilities =
        (revokeCapabilities identityId deviceId (setRevoked hash db)).capabilities := by
    unfold revokeDevice forgetWatchKey
    split <;> exact ⟨rfl, rfl⟩
  refine ⟨hparts.1, fun k' hk' => ?_⟩
  rw [hparts.2] at hk'
  dsimp only [revokeCapabilities, setRevoked] at hk'
  obtain ⟨k, hk, rfl⟩ := Table.mem_update.1 hk'
  refine ⟨k, hk, ?_, ?_⟩
  · split <;> rfl
  · split
    · next hany =>
      simp only [List.any_eq_true, Bool.and_eq_true, decide_eq_true_eq] at hany
      obtain ⟨o, ho, ⟨hbox, hid⟩, hdev⟩ := hany
      exact ⟨fun _ => Or.inr ⟨o, ho, hbox, hid, hdev⟩, fun _ => rfl⟩
    · next hany =>
      simp only [List.any_eq_true, Bool.and_eq_true, decide_eq_true_eq] at hany
      refine ⟨Or.inl, fun hk => hk.resolve_right ?_⟩
      rintro ⟨o, ho, hbox, hid, hdev⟩
      exact hany ⟨o, ho, ⟨hbox, hid⟩, hdev⟩

/-- The devices whose rows a revocation names. -/
def NamedDevice (identityId : Bytes) (hashes : List Bytes) (p : Status → Prop) (db : Db) (deviceId : Bytes) : Prop :=
  ∃ c ∈ db.credentials, c.identityId = identityId ∧ c.credentialHash ∈ hashes ∧ c.deviceId = deviceId ∧ p c.status

theorem namedDevice_cons {identityId hash : Bytes} {hashes : List Bytes} {p : Status → Prop} {db : Db} {c : CredentialRow}
    (hc : c ∈ db.credentials) (hhash : c.credentialHash = hash) (hid : c.identityId = identityId) (hp : p c.status) (d : Bytes) :
    (d = c.deviceId ∨ NamedDevice identityId hashes p (revokeDevice identityId hash c.deviceId db) d) ↔
      NamedDevice identityId (hash :: hashes) p db d := by
  constructor
  · rintro (rfl | ⟨r, hr, hrid, hrhash, hrdev, hrp⟩)
    · exact ⟨c, hc, hid, hhash ▸ List.mem_cons_self, rfl, hp⟩
    · obtain ⟨r₀, hr₀, rfl⟩ := (mem_revokeDevice r).1 hr
      by_cases heq : r₀.credentialHash = hash
      · obtain rfl := Table.eq_of_key hc hr₀ (hhash.trans heq.symm)
        rw [if_pos heq] at hrdev
        exact ⟨c, hc, hid, hhash ▸ List.mem_cons_self, hrdev, hp⟩
      · rw [if_neg heq] at hrid hrhash hrdev hrp
        exact ⟨r₀, hr₀, hrid, List.mem_cons_of_mem _ hrhash, hrdev, hrp⟩
  · rintro ⟨r, hr, hrid, hrhash, hrdev, hrp⟩
    by_cases heq : r.credentialHash = hash
    · obtain rfl := Table.eq_of_key hc hr (hhash.trans heq.symm)
      exact Or.inl hrdev.symm
    · refine Or.inr ⟨r, (mem_revokeDevice r).2 ⟨r, hr, if_neg heq⟩, hrid, ?_, hrdev, hrp⟩
      exact (List.mem_cons.1 hrhash).resolve_left heq

theorem namedDevice_skip {identityId hash : Bytes} {hashes : List Bytes} {p : Status → Prop} {db : Db}
    (hskip : ∀ c ∈ db.credentials, c.credentialHash = hash → c.identityId = identityId → ¬ p c.status) (d : Bytes) :
    NamedDevice identityId hashes p db d ↔ NamedDevice identityId (hash :: hashes) p db d := by
  constructor
  · rintro ⟨r, hr, hrid, hrhash, hrest⟩
    exact ⟨r, hr, hrid, List.mem_cons_of_mem _ hrhash, hrest⟩
  · rintro ⟨r, hr, hrid, hrhash, hrdev, hrp⟩
    rcases List.mem_cons.1 hrhash with heq | hrhash
    · exact absurd hrp (hskip r hr heq hrid)
    · exact ⟨r, hr, hrid, hrhash, hrdev, hrp⟩

theorem namedDevice_nil {identityId : Bytes} {p : Status → Prop} {db : Db} (d : Bytes) : False ↔ NamedDevice identityId [] p db d :=
  ⟨False.elim, fun ⟨_, _, _, hhash, _⟩ => nomatch hhash⟩

theorem revokeEach_silences (identityId : Bytes) (hashes : List Bytes) (db : Db) :
    Silences identityId (NamedDevice identityId hashes (· ≠ .revoked) db) db (revokeEach identityId hashes db).2 := by
  induction hashes generalizing db with
  | nil => exact (Silences.refl identityId db).congr namedDevice_nil
  | cons hash hashes ih =>
    unfold revokeEach
    split
    · next hnone =>
      refine (ih db).congr (namedDevice_skip fun c hc hhash hid => not_not.2 ?_)
      exact filter_eq_none_skip (fun c hid hp => by simpa [hid] using hp) hnone c hc hhash hid
    · next c hsome =>
      obtain ⟨hmem, hhash, hp⟩ := filter_eq_some_row hsome
      simp only [Bool.and_eq_true, decide_eq_true_eq] at hp
      exact ((revokeDevice_silences identityId hash c.deviceId db).trans (ih _)).congr
        (namedDevice_cons hmem hhash hp.1 (by simpa using hp.2))

theorem revokeAgain_silences (identityId : Bytes) (hashes : List Bytes) (db : Db) :
    Silences identityId (NamedDevice identityId hashes (fun _ => True) db) db (revokeAgain identityId hashes db) := by
  induction hashes generalizing db with
  | nil => exact (Silences.refl identityId db).congr namedDevice_nil
  | cons hash hashes ih =>
    unfold revokeAgain
    split
    · next hnone =>
      refine (ih db).congr (namedDevice_skip fun c hc hhash hid _ => ?_)
      rw [Table.get?_eq_some.2 ⟨hc, hhash⟩, Option.filter_some_pos (by simpa using hid)] at hnone
      cases hnone
    · next c hsome =>
      obtain ⟨hmem, hhash, hp⟩ := filter_eq_some_row hsome
      exact ((revokeDevice_silences identityId hash c.deviceId db).trans (ih _)).congr
        (namedDevice_cons hmem hhash (by simpa using hp) trivial)

structure SameTables (db db' : Db) : Prop where
  owners : db'.owners = db.owners
  capabilities : db'.capabilities = db.capabilities

theorem publishManifest_revokes {identityId signed : Bytes} {seq : UInt64} {revoked : List Bytes} {db db' : Db} {n : Nat}
    (h : publishManifest identityId seq signed revoked db = (.ok n, db')) :
    (∀ m, newestManifest db identityId = some m → m.sequence < seq.toNat ∨ (m.sequence = seq.toNat ∧ m.signed = signed)) ∧
      ∃ db₁, SameTables db db₁ ∧ db₁.credentials = db.credentials ∧ db' = (revokeEach identityId revoked db₁).2 := by
  rw [publishManifest, unitOfWork_eq_ok] at h
  simp only [bind_eq_ok, read_eq_ok, when_eq_ok, insertRow_eq_ok, revokeCredentials, Prod.mk.injEq] at h
  obtain ⟨newest, db₀, ⟨rfl, rfl⟩, _, db₁, hsame, _, db₂, hinsert, -, rfl⟩ := h
  rcases hsame with ⟨-, hfail⟩ | ⟨hsame, rfl⟩
  · exact absurd hfail fail_ne_ok
  refine ⟨fun m hm => ?_, db₂, ?_⟩
  · simp only [hm, Option.any_some, Bool.or_eq_true, Bool.and_eq_true, decide_eq_true_eq, not_or, not_and, not_not, not_lt] at hsame
    rcases lt_or_eq_of_le hsame.1 with hlt | heq
    · exact Or.inl hlt
    · exact Or.inr ⟨heq, hsame.2 heq.symm⟩
  · rcases hinsert with ⟨-, hadd⟩ | ⟨-, rfl⟩
    · obtain ⟨-, t, -, rfl⟩ := addManifest_eq_some hadd
      exact ⟨⟨rfl, rfl⟩, rfl, rfl⟩
    · exact ⟨⟨rfl, rfl⟩, rfl, rfl⟩

theorem recoverIdentity_revokes {e : Enrollment} {revoked : List Bytes} {now : Int} {db db' : Db} {n : Nat}
    (h : recoverIdentity e revoked now db = (.ok n, db')) :
    db' = db ∨ ((recoveryOf e.credentialHash db = none ∧ newestSequence db e.identityId < e.manifestSeq.toNat) ∧
      ∃ db₁ t, SameTables db db₁ ∧ db.credentials.insert e.row = some db₁.credentials ∧
        db' = { revokeAgain e.identityId revoked db₁ with recoveries := t }) := by
  rw [recoverIdentity, unitOfWork_eq_ok, bind_ok (read_run _ _)] at h
  cases hr : recoveryOf e.credentialHash db with
  | some p =>
    obtain ⟨r, c⟩ := p
    simp only [hr] at h
    split at h
    · exact absurd h fail_ne_ok
    · exact Or.inl (Prod.mk.inj h).2.symm
  | none =>
    simp only [hr, bind_eq_ok, read_eq_ok, when_eq_ok, insertCredential, insertRow_eq_ok, modify_eq_ok, pure_run, Prod.mk.injEq] at h
    obtain ⟨previous, db₀, ⟨rfl, rfl⟩, _, db₁, hnewer, -, db₂, hm, -, db₃, hc, -, db₄, rfl, -, db₅, hrec, -, rfl⟩ := h
    rcases hnewer with ⟨-, hfail⟩ | ⟨hnewer, rfl⟩
    · exact absurd hfail fail_ne_ok
    obtain ⟨-, tm, -, rfl⟩ := addManifest_eq_some hm
    obtain ⟨-, tc, htc, rfl⟩ := addCredential_eq_some hc
    obtain ⟨t, -, rfl⟩ := addRecovery_eq_some hrec
    exact Or.inr ⟨⟨rfl, not_le.1 hnewer⟩, { db with manifests := tm, credentials := tc }, t, ⟨rfl, rfl⟩, htc, rfl⟩

structure Opens (identityId deviceId id : Bytes) (db db' : Db) : Prop where
  owners : db.owners.insert ⟨id, identityId, deviceId⟩ = some db'.owners
  capabilities : ∀ k ∈ db'.capabilities, k ∈ db.capabilities ∨ (k.mailboxId = id ∧ k.revoked = false)
  credentials : db'.credentials = db.credentials
  member : isMember db identityId
  memberships : db'.memberships = db.memberships

theorem addMailbox_eq_some {row : OwnerRow} {db db' : Db} (h : addMailbox row db = some db') :
    isMember db row.ownerIdentity ∧ ∃ t q, db.owners.insert row = some t ∧ db' = { db with owners := t, queue := q } := by
  unfold addMailbox at h
  split at h
  · cases h
  · next hmember =>
    obtain ⟨t, ht, h⟩ := Option.bind_eq_some_iff.1 h
    obtain ⟨m, -, rfl⟩ := Option.map_eq_some_iff.1 h
    exact ⟨not_not.1 hmember, t, _, ht, rfl⟩

theorem addCapability_eq_some {row : CapabilityRow} {db db' : Db} (h : addCapability row db = some db') :
    ∃ t, db.capabilities.insert row = some t ∧ db' = { db with capabilities := t } := by
  unfold addCapability at h
  split at h
  · cases h
  · obtain ⟨t, ht, rfl⟩ := Option.map_eq_some_iff.1 h
    exact ⟨t, ht, rfl⟩

theorem opens_of_inserts {identityId deviceId id : Bytes} {read write : CapabilityRow} {db db₁ db₂ db₃ : Db}
    (hbox : addMailbox ⟨id, identityId, deviceId⟩ db = some db₁) (hread : addCapability read db₁ = some db₂)
    (hwrite : addCapability write db₂ = some db₃) (hr : read.mailboxId = id ∧ read.revoked = false)
    (hw : write.mailboxId = id ∧ write.revoked = false) : Opens identityId deviceId id db db₃ := by
  obtain ⟨hmember, t, q, ht, rfl⟩ := addMailbox_eq_some hbox
  obtain ⟨t₁, ht₁, rfl⟩ := addCapability_eq_some hread
  obtain ⟨t₂, ht₂, rfl⟩ := addCapability_eq_some hwrite
  refine ⟨ht, fun k hk => ?_, rfl, hmember, rfl⟩
  rcases (Table.mem_insert ht₂).1 hk with hk | rfl
  · rcases (Table.mem_insert ht₁).1 hk with hk | rfl
    · exact Or.inl hk
    · exact Or.inr hr
  · exact Or.inr hw

theorem createMailbox_opens {identityId deviceId id readCap writeCap : Bytes} {now : Int} {db db' : Db} {mb : Mailbox}
    (h : createMailbox sha256 identityId deviceId id readCap writeCap now db = (.ok mb, db')) : Opens identityId deviceId id db db' := by
  rw [createMailbox, unitOfWork_eq_ok] at h
  simp only [bind_eq_ok, insertRow_eq_ok, pure_run, Prod.mk.injEq] at h
  obtain ⟨-, db₁, hbox, -, db₂, hread, -, db₃, hwrite, -, rfl⟩ := h
  exact opens_of_inserts hbox hread hwrite ⟨rfl, rfl⟩ ⟨rfl, rfl⟩

theorem createMailboxForRequest_opens {identityId deviceId requestKey readCap writeCap id : Bytes} {now : Int} {db db' : Db} {mb : Mailbox}
    (h : createMailboxForRequest sha256 identityId deviceId requestKey readCap writeCap id now db = (.ok mb, db')) :
    db' = db ∨ (db.mailboxRequests.get? requestKey = none ∧ Opens identityId deviceId id db db') := by
  rw [createMailboxForRequest, unitOfWork_eq_ok, bind_ok (read_run _ _)] at h
  cases hr : db.mailboxRequests.get? requestKey with
  | some r =>
    simp only [hr] at h
    split at h
    · exact absurd h fail_ne_ok
    · exact Or.inl (Prod.mk.inj h).2.symm
  | none =>
    simp only [hr, bind_eq_ok, insertRow_eq_ok, pure_run, Prod.mk.injEq] at h
    obtain ⟨-, db₁, hbox, -, db₂, hread, -, db₃, hwrite, -, db₄, hrequest, -, rfl⟩ := h
    obtain ⟨t, -, rfl⟩ := Option.map_eq_some_iff.1 hrequest
    obtain ⟨howners, hcaps, hcred, hmember, hmemberships⟩ := opens_of_inserts hbox hread hwrite ⟨rfl, rfl⟩ ⟨rfl, rfl⟩
    exact Or.inr ⟨rfl, howners, hcaps, hcred, hmember, hmemberships⟩

theorem lapsed_insert {e : Enrollment} {db db' : Db} (hins : db.credentials.insert e.row = some db'.credentials) (identityId deviceId : Bytes) :
    Lapsed identityId deviceId db' ↔ Lapsed identityId deviceId db ∧ ¬ (e.identityId = identityId ∧ e.deviceId = deviceId) := by
  constructor
  · rintro ⟨⟨c, hc, hid, hdev, hstatus⟩, hnone⟩
    refine ⟨⟨?_, fun c hc => hnone c ((Table.mem_insert hins).2 (Or.inl hc))⟩, fun he => ?_⟩
    · rcases (Table.mem_insert hins).1 hc with hc | rfl
      · exact ⟨c, hc, hid, hdev, hstatus⟩
      · cases hstatus
    · exact hnone _ ((Table.mem_insert hins).2 (Or.inr rfl)) he.1 he.2 rfl
  · rintro ⟨⟨⟨c, hc, hid, hdev, hstatus⟩, hnone⟩, hother⟩
    refine ⟨⟨c, (Table.mem_insert hins).2 (Or.inl hc), hid, hdev, hstatus⟩, fun c' hc' hid' hdev' => ?_⟩
    rcases (Table.mem_insert hins).1 hc' with hc' | rfl
    · exact hnone c' hc' hid' hdev'
    · exact absurd ⟨hid', hdev'⟩ hother

/-- A revocation that leaves a named device no active credential takes the last one of just
these devices. -/
theorem lapsed_revokes {identityId : Bytes} {hashes : List Bytes} {p : Status → Prop} {db db' : Db}
    (hr : Revokes identityId hashes db.credentials db'.credentials) (hp : p .active) {i d : Bytes}
    (hwhole : i = identityId → NamedDevice identityId hashes p db d → ∀ c ∈ db.credentials, c.identityId = identityId →
      c.deviceId = d → c.status = .active → c.credentialHash ∈ hashes) :
    Lapsed i d db' ↔ Lapsed i d db ∨ (i = identityId ∧ NamedDevice identityId hashes p db d) := by
  constructor
  · rintro ⟨⟨c', hc', hid', hdev', hstatus'⟩, hnone'⟩
    by_cases hactive : ∃ c ∈ db.credentials, c.identityId = i ∧ c.deviceId = d ∧ c.status = .active
    · obtain ⟨c, hc, hid, hdev, hstatus⟩ := hactive
      right
      rcases hr.kept c hc with hkept | hrevoked
      · exact absurd hstatus (hnone' c hkept hid hdev)
      · rcases hr.from_ _ hrevoked with hold | ⟨-, hown, hhash, -⟩
        · have hsame := congrArg CredentialRow.status (Table.eq_of_key hc hold rfl)
          cases hstatus.symm.trans hsame
        · exact ⟨hid.symm.trans hown, c, hc, hown, hhash, hdev, hstatus ▸ hp⟩
    · left
      have hnone : ∀ c ∈ db.credentials, c.identityId = i → c.deviceId = d → c.status ≠ .active :=
        fun c hc hid hdev hstatus => hactive ⟨c, hc, hid, hdev, hstatus⟩
      refine ⟨?_, hnone⟩
      have hrow : ∀ c ∈ db.credentials, c.identityId = i → c.deviceId = d → c.status = .revoked := by
        intro c hc hid hdev
        cases hstatus : c.status with
        | active => exact absurd hstatus (hnone c hc hid hdev)
        | revoked => rfl
      rcases hr.from_ c' hc' with hold | ⟨-, -, -, c, hc, rfl⟩
      · exact ⟨c', hold, hid', hdev', hstatus'⟩
      · exact ⟨c, hc, hid', hdev', hrow c hc hid' hdev'⟩
  · rintro (⟨⟨c, hc, hid, hdev, hstatus⟩, hnone⟩ | ⟨rfl, hnamed⟩)
    · refine ⟨?_, fun c' hc' hid' hdev' hactive => ?_⟩
      · rcases hr.kept c hc with hkept | hkept
        · exact ⟨c, hkept, hid, hdev, hstatus⟩
        · exact ⟨_, hkept, hid, hdev, rfl⟩
      · rcases hr.from_ c' hc' with hold | ⟨hrevoked, -⟩
        · exact hnone c' hold hid' hdev' hactive
        · cases hactive.symm.trans hrevoked
    · refine ⟨?_, fun c' hc' hid' hdev' hactive => ?_⟩
      · obtain ⟨c, hc, hid, hhash, hdev, -⟩ := hnamed
        rcases hr.kept c hc with hkept | hkept
        · exact ⟨c, hkept, hid, hdev, hr.named c hkept hid hhash⟩
        · exact ⟨_, hkept, hid, hdev, rfl⟩
      · rcases hr.from_ c' hc' with hold | ⟨hrevoked, -⟩
        · cases hactive.symm.trans (hr.named c' hc' hid' (hwhole rfl hnamed c' hold hid' hdev' hactive))
        · cases hactive.symm.trans hrevoked

/-- Every mailbox is of a member's device that had a credential, every capability of a
mailbox, and revoked exactly when the device lost its last credential. -/
structure InAgreement (db : Db) : Prop where
  members : ∀ o ∈ db.owners, isMember db o.ownerIdentity
  enrolled : ∀ o ∈ db.owners, ∃ c ∈ db.credentials, c.identityId = o.ownerIdentity ∧ c.deviceId = o.ownerDevice
  owned : ∀ k ∈ db.capabilities, ∃ o ∈ db.owners, o.mailboxId = k.mailboxId
  silent : ∀ o ∈ db.owners, ∀ k ∈ db.capabilities, k.mailboxId = o.mailboxId →
    (k.revoked = true ↔ Lapsed o.ownerIdentity o.ownerDevice db)

theorem inAgreement_empty : InAgreement .empty where
  members o ho := absurd ho (Table.not_mem_empty o)
  enrolled o ho := absurd ho (Table.not_mem_empty o)
  owned k hk := absurd hk (Table.not_mem_empty k)
  silent o ho := absurd ho (Table.not_mem_empty o)

theorem InAgreement.consequences {db : Db} (h : InAgreement db) (hf : Forgotten db) : ConsequencesAgree db where
  silent := h.silent
  usable o ho k hk hbox hrevoked := by
    by_contra hnone
    obtain ⟨c, hc, hid, hdev⟩ := h.enrolled o ho
    have hinactive : ∀ c ∈ db.credentials, c.identityId = o.ownerIdentity → c.deviceId = o.ownerDevice → c.status ≠ .active :=
      fun c hc hid hdev hstatus => hnone ⟨c, hc, hid, hdev, hstatus⟩
    have hstatus : c.status = .revoked := by
      cases hs : c.status with
      | active => exact absurd hs (hinactive c hc hid hdev)
      | revoked => rfl
    rw [(h.silent o ho k hk hbox).2 ⟨⟨c, hc, hid, hdev, hstatus⟩, hinactive⟩] at hrevoked
    cases hrevoked
  forgotten := hf

theorem InAgreement.silenced {identityId : Bytes} {hit : Bytes → Prop} {db db₁ db' : Db} (h : InAgreement db) (hl : Later db db')
    (hsame : SameTables db db₁) (hs : Silences identityId hit db₁ db')
    (hlapsed : ∀ o ∈ db.owners, Lapsed o.ownerIdentity o.ownerDevice db' ↔
      Lapsed o.ownerIdentity o.ownerDevice db ∨ (o.ownerIdentity = identityId ∧ hit o.ownerDevice)) : InAgreement db' := by
  have howners : db'.owners = db.owners := hs.owners.trans hsame.owners
  refine ⟨fun o ho => ?_, fun o ho => ?_, fun k' hk' => ?_, fun o ho k' hk' hbox => ?_⟩
  · rw [howners] at ho
    exact isMember_later hl (h.members o ho)
  · rw [howners] at ho
    obtain ⟨c, hc, hid, hdev⟩ := h.enrolled o ho
    rcases hl.credentials c hc with hkept | hkept
    · exact ⟨c, hkept, hid, hdev⟩
    · exact ⟨_, hkept, hid, hdev⟩
  · obtain ⟨k, hk, hbox, -⟩ := hs.capabilities k' hk'
    rw [hsame.capabilities] at hk
    rw [howners, hbox]
    exact h.owned k hk
  · rw [howners] at ho
    obtain ⟨k, hk, hsamebox, hrevoked⟩ := hs.capabilities k' hk'
    rw [hsame.capabilities] at hk
    rw [hsame.owners] at hrevoked
    have hown := hsamebox.symm.trans hbox
    rw [hrevoked, h.silent o ho k hk hown, hlapsed o ho]
    refine or_congr_right ⟨?_, fun ⟨hid, hhit⟩ => ⟨o, ho, hown.symm, hid, hhit⟩⟩
    rintro ⟨o', ho', hbox', hid, hhit⟩
    obtain rfl := Table.eq_of_key ho ho' (hown.symm.trans hbox'.symm)
    exact ⟨hid, hhit⟩

theorem InAgreement.unchanged {db db' : Db} (h : InAgreement db) (hl : Later db db') (hsame : SameTables db db')
    (hlapsed : ∀ o ∈ db.owners, Lapsed o.ownerIdentity o.ownerDevice db' ↔ Lapsed o.ownerIdentity o.ownerDevice db) : InAgreement db' :=
  h.silenced hl hsame (Silences.refl [] db') fun o ho => by rw [hlapsed o ho, and_false, or_false]

theorem InAgreement.opened {identityId deviceId id : Bytes} {db db' : Db} (h : InAgreement db) (ho : Opens identityId deviceId id db db')
    (hactive : Active identityId deviceId db) : InAgreement db' := by
  have hlapsed (i d : Bytes) : Lapsed i d db' ↔ Lapsed i d db := by
    constructor
    · exact fun hl => hl.of_credentials ho.credentials
    · exact fun hl => hl.of_credentials ho.credentials.symm
  have hmember (i : Bytes) (hm : isMember db i) : isMember db' i := by
    unfold isMember at hm ⊢
    rw [ho.memberships]
    exact hm
  have hnew := (Table.mem_insert ho.owners (r := ⟨id, identityId, deviceId⟩)).2 (Or.inr rfl)
  refine ⟨fun o hmem => ?_, fun o hmem => ?_, fun k hk => ?_, fun o hmem k hk hbox => ?_⟩
  · rcases (Table.mem_insert ho.owners).1 hmem with hold | rfl
    · exact hmember _ (h.members o hold)
    · exact hmember _ ho.member
  · rw [ho.credentials]
    rcases (Table.mem_insert ho.owners).1 hmem with hold | rfl
    · exact h.enrolled o hold
    · obtain ⟨c, hc, hid, hdev, -⟩ := hactive
      exact ⟨c, hc, hid, hdev⟩
  · rcases ho.capabilities k hk with hold | ⟨hid, -⟩
    · obtain ⟨o, hown, hbox⟩ := h.owned k hold
      exact ⟨o, (Table.mem_insert ho.owners).2 (Or.inl hown), hbox⟩
    · exact ⟨_, hnew, hid.symm⟩
  · rw [hlapsed]
    rcases ho.capabilities k hk with hold | ⟨hid, hrevoked⟩
    · obtain ⟨o', hown, hbox'⟩ := h.owned k hold
      have hsame := Table.eq_of_key ((Table.mem_insert ho.owners).2 (Or.inl hown)) hmem (hbox'.trans hbox)
      exact h.silent o (hsame ▸ hown) k hold hbox
    · obtain rfl := Table.eq_of_key hnew hmem (hid.symm.trans hbox)
      obtain ⟨c, hc, hcid, hdev, hstatus⟩ := hactive
      rw [hrevoked]
      exact ⟨fun hfalse => (nomatch hfalse), fun hl => absurd hstatus (hl.none_active c hc hcid hdev)⟩

/-- All active rows of a device are named. -/
def NamesAll (identityId deviceId : Bytes) (hashes : List Bytes) (rows : List CredentialRow) : Prop :=
  ∀ c ∈ rows, c.identityId = identityId ∧ c.deviceId = deviceId ∧ c.status = .active → c.credentialHash ∈ hashes

/-- No device that owns a mailbox keeps an active credential when a credential of it is named. -/
def RevokesWhole (identityId : Bytes) (hashes : List Bytes) (p : Status → Prop) (rows : List CredentialRow) (db : Db) : Prop :=
  ∀ c ∈ rows, c.identityId = identityId ∧ c.credentialHash ∈ hashes ∧ p c.status ∧ Owns identityId c.deviceId db →
    NamesAll identityId c.deviceId hashes rows

instance (identityId deviceId : Bytes) (hashes : List Bytes) (rows : List CredentialRow) :
    Decidable (NamesAll identityId deviceId hashes rows) :=
  inferInstanceAs (Decidable (∀ c ∈ rows, c.identityId = identityId ∧ c.deviceId = deviceId ∧ c.status = .active → c.credentialHash ∈ hashes))

instance (identityId : Bytes) (hashes : List Bytes) (p : Status → Prop) [DecidablePred p] (rows : List CredentialRow) (db : Db) :
    Decidable (RevokesWhole identityId hashes p rows db) :=
  inferInstanceAs (Decidable (∀ c ∈ rows,
    c.identityId = identityId ∧ c.credentialHash ∈ hashes ∧ p c.status ∧ Owns identityId c.deviceId db →
      NamesAll identityId c.deviceId hashes rows))

def Unregistered (e : Enrollment) (db : Db) : Prop :=
  ∀ c ∈ db.credentials, c.credentialHash ≠ e.credentialHash ∧ c.transportKey ≠ e.transportKey

/-- A call that takes effect does so on whole devices: mailboxes are opened by devices with an
active credential, a device that owns mailboxes is revoked with all its credentials, and gets
no new one after its last was revoked. -/
def InStep (db : Db) : Call → Prop
  | .createMailbox identityId deviceId _ _ _ _ => Active identityId deviceId db
  | .createMailboxForRequest identityId deviceId requestKey _ _ _ _ =>
      db.mailboxRequests.get? requestKey = none → Active identityId deviceId db
  | .putCredential e => Unregistered e db → Lapsed e.identityId e.deviceId db → ¬ Owns e.identityId e.deviceId db
  | .publishManifest identityId seq signed revoked =>
      (∀ m, newestManifest db identityId = some m → m.sequence < seq.toNat ∨ (m.sequence = seq.toNat ∧ m.signed = signed)) →
        RevokesWhole identityId revoked (· ≠ .revoked) db.credentials.rows db
  | .recoverIdentity e revoked _ =>
      recoveryOf e.credentialHash db = none → newestSequence db e.identityId < e.manifestSeq.toNat →
        (Lapsed e.identityId e.deviceId db → Owns e.identityId e.deviceId db → e.credentialHash ∈ revoked) ∧
        RevokesWhole e.identityId revoked (fun _ => True) (e.row :: db.credentials.rows) db
  | _ => True

theorem sameTables_part {c : Call} {db : Db} (ho : Part.owners ∉ writes c) (hc : Part.capabilities ∉ writes c) :
    SameTables db (after sha256 db c) := ⟨part_call c db ho, part_call c db hc⟩

theorem lapsed_same {db db' : Db} (hc : db'.credentials = db.credentials) (i d : Bytes) : Lapsed i d db' ↔ Lapsed i d db :=
  ⟨fun h => h.of_credentials hc, fun h => h.of_credentials hc.symm⟩

theorem inAgreement_publish {identityId signed : Bytes} {seq : UInt64} {revoked : List Bytes} {db db' : Db} {n : Nat}
    (hi : InAgreement db) (hs : InStep db (.publishManifest identityId seq signed revoked))
    (hcall : publishManifest identityId seq signed revoked db = (.ok n, db')) : InAgreement db' := by
  have hpublished := publishManifest_ok hcall
  obtain ⟨horder, db₁, hsame, hcred, rfl⟩ := publishManifest_revokes hcall
  have hsilences := revokeEach_silences identityId revoked db₁
  have hl : Later db (revokeEach identityId revoked db₁).2 := later_effect (.published hpublished)
  have hrevokes := hpublished.credentials
  have hnamed (d : Bytes) : NamedDevice identityId revoked (· ≠ .revoked) db₁ d ↔ NamedDevice identityId revoked (· ≠ .revoked) db d := by
    unfold NamedDevice
    rw [hcred]
  refine hi.silenced hl hsame (hsilences.congr hnamed) fun o ho => lapsed_revokes hrevokes (by decide) ?_
  rintro hid ⟨c, hc, hcid, hhash, hdev, hstatus⟩ c' hc' hid' hdev' hactive
  exact hs horder c hc ⟨hcid, hhash, hstatus, o, ho, hid, hdev.symm⟩ c' hc' ⟨hid', hdev'.trans hdev.symm, hactive⟩

theorem inAgreement_recover {e : Enrollment} {revoked : List Bytes} {now : Int} {db db' : Db} {n : Nat} (hi : InAgreement db)
    (hs : InStep db (.recoverIdentity e revoked now)) (hcall : recoverIdentity e revoked now db = (.ok n, db')) : InAgreement db' := by
  rcases recoverIdentity_revokes hcall with rfl | ⟨⟨hnone, hnewer⟩, db₁, t, hsame, hins, rfl⟩
  · exact hi
  obtain ⟨hlast, hwhole⟩ := hs hnone hnewer
  have hl : Later db { revokeAgain e.identityId revoked db₁ with recoveries := t } := by
    have heffect : Later db (Call.prog (fun b => b) (.recoverIdentity e revoked now) db).2 := later_effect (call_effect _ db)
    have hafter : (Call.prog (fun b => b) (.recoverIdentity e revoked now) db).2 =
        { revokeAgain e.identityId revoked db₁ with recoveries := t } := congrArg Prod.snd hcall
    rwa [hafter] at heffect
  have hsilences := revokeAgain_silences e.identityId revoked db₁
  have hsilences' : Silences e.identityId (NamedDevice e.identityId revoked (fun _ => True) db₁) db₁
      { revokeAgain e.identityId revoked db₁ with recoveries := t } := ⟨hsilences.owners, hsilences.capabilities⟩
  have hrevokes : Revokes e.identityId revoked db₁.credentials
      ({ revokeAgain e.identityId revoked db₁ with recoveries := t } : Db).credentials := (revokeAgain_spec e.identityId revoked db₁).1
  have hrow (c : CredentialRow) : c ∈ db₁.credentials ↔ c ∈ e.row :: db.credentials.rows := by
    rw [Table.mem_insert hins, List.mem_cons, or_comm, Table.mem_def]
  refine hi.silenced hl hsame hsilences' fun o ho => ?_
  rw [lapsed_revokes (p := fun _ => True) hrevokes trivial, lapsed_insert hins]
  · constructor
    · rintro (⟨hlapsed, -⟩ | hnamed)
      · exact Or.inl hlapsed
      · exact Or.inr hnamed
    · rintro (hlapsed | hnamed)
      · by_cases hown : e.identityId = o.ownerIdentity ∧ e.deviceId = o.ownerDevice
        · obtain ⟨hid, hdev⟩ := hown
          refine Or.inr ⟨hid.symm, e.row, (hrow _).2 List.mem_cons_self, rfl, ?_, hdev, trivial⟩
          exact hlast (by rw [hid, hdev]; exact hlapsed) ⟨o, ho, hid.symm, hdev.symm⟩
        · exact Or.inl ⟨hlapsed, hown⟩
      · exact Or.inr hnamed
  · rintro hid ⟨c, hc, hcid, hhash, hdev, -⟩ c' hc' hid' hdev' hactive
    exact hwhole c ((hrow c).1 hc) ⟨hcid, hhash, trivial, o, ho, hid, hdev.symm⟩ c' ((hrow c').1 hc') ⟨hid', hdev'.trans hdev.symm, hactive⟩

theorem inAgreement_after {db : Db} (hi : InAgreement db) {c : Call} (hs : InStep db c) : InAgreement (after sha256 db c) := by
  have hl : Later db (after sha256 db c) := later_effect (call_effect c db)
  have hother (ho : Part.owners ∉ writes c) (hcap : Part.capabilities ∉ writes c) (hcred : Part.credentials ∉ writes c) :
      InAgreement (after sha256 db c) :=
    hi.unchanged hl (sameTables_part ho hcap) fun o _ => lapsed_same (part_call c db hcred) _ _
  cases c with
  | createMailbox identityId deviceId id readCap writeCap now =>
    show InAgreement (createMailbox sha256 identityId deviceId id readCap writeCap now db).2
    rcases hcall : createMailbox sha256 identityId deviceId id readCap writeCap now db with ⟨x | mb, db'⟩
    · obtain rfl : db' = db := unitOfWork_error hcall
      exact hi
    · exact hi.opened (createMailbox_opens hcall) hs
  | createMailboxForRequest identityId deviceId requestKey readCap writeCap id now =>
    show InAgreement (createMailboxForRequest sha256 identityId deviceId requestKey readCap writeCap id now db).2
    rcases hcall : createMailboxForRequest sha256 identityId deviceId requestKey readCap writeCap id now db with ⟨x | mb, db'⟩
    · obtain rfl : db' = db := unitOfWork_error hcall
      exact hi
    · rcases createMailboxForRequest_opens hcall with rfl | ⟨hnew, hopens⟩
      · exact hi
      · exact hi.opened hopens (hs hnew)
  | publishManifest identityId seq signed revoked =>
    show InAgreement (publishManifest identityId seq signed revoked db).2
    rcases hcall : publishManifest identityId seq signed revoked db with ⟨x | n, db'⟩
    · obtain rfl : db' = db := unitOfWork_error hcall
      exact hi
    · exact inAgreement_publish hi hs hcall
  | recoverIdentity e revoked now =>
    show InAgreement (recoverIdentity e revoked now db).2
    rcases hcall : recoverIdentity e revoked now db with ⟨x | n, db'⟩
    · obtain rfl : db' = db := unitOfWork_error hcall
      exact hi
    · exact inAgreement_recover hi hs hcall
  | putCredential e =>
    have htables : SameTables db (after sha256 db (.putCredential e)) := sameTables_part (by simp [writes]) (by simp [writes])
    rcases hcall : putCredential e db with ⟨x | u, db'⟩
    · have hafter : after sha256 db (.putCredential e) = db := (congrArg Prod.snd hcall).trans (unitOfWork_error hcall)
      rw [hafter]
      exact hi
    · have hafter : after sha256 db (.putCredential e) = db' := congrArg Prod.snd hcall
      rw [hafter] at hl htables ⊢
      have hins := (putCredential_ok hcall).credentials
      have hnew : Unregistered e db := by
        rw [putCredential, unitOfWork_eq_ok, insertCredential, insertRow_eq_ok] at hcall
        have hr := addCredential_registers hcall
        exact fun c hc => ⟨fun hhash => (Table.insert_eq_some hins).2 c hc hhash, hr.not_transport c hc⟩
      refine hi.unchanged hl htables fun o ho => ?_
      rw [lapsed_insert hins, and_iff_left_iff_imp]
      rintro hlapsed ⟨hid, hdev⟩
      exact hs hnew (by rw [hid, hdev]; exact hlapsed) ⟨o, ho, hid.symm, hdev.symm⟩
  | redeemInvite tokenHash now e =>
    have htables : SameTables db (after sha256 db (.redeemInvite tokenHash now e)) := sameTables_part (by simp [writes]) (by simp [writes])
    rcases hcall : redeemInvite tokenHash now e db with ⟨x | u, db'⟩
    · have hafter : after sha256 db (.redeemInvite tokenHash now e) = db := (congrArg Prod.snd hcall).trans (unitOfWork_error hcall)
      rw [hafter]
      exact hi
    · have hafter : after sha256 db (.redeemInvite tokenHash now e) = db' := congrArg Prod.snd hcall
      rw [hafter] at hl htables ⊢
      have hredeemed := redeemInvite_ok hcall
      refine hi.unchanged hl htables fun o ho => ?_
      rw [lapsed_insert hredeemed.credentials, and_iff_left_iff_imp]
      -- who is new here owns no mailbox
      rintro - ⟨hid, -⟩
      exact hredeemed.fresh (hid ▸ hi.members o ho)
  | _ => exact hother (by simp [writes]) (by simp [writes]) (by simp [writes])

/-- In every run on whole devices the consequences of revocations agree in every store. -/
theorem consequences_agree (sha256 : Bytes → Bytes) (calls : List Call)
    (h : Trace.Meets (after sha256) (fun db c => InStep db c ∧ WatchesWhileActive db c) .empty calls) (before later : List Call)
    (hcalls : calls = before ++ later) : ConsequencesAgree (storeAfter sha256 before) := by
  subst hcalls
  have hbefore := (Trace.meets_append.1 h).1
  have hagreement : InAgreement (storeAfter sha256 before) :=
    Trace.invariant (I := InAgreement) (fun _ c hc hi => inAgreement_after hi hc.1) hbefore inAgreement_empty
  have hforgotten : Forgotten (storeAfter sha256 before) :=
    Trace.invariant (I := Forgotten) (fun _ c hc hf => forgotten_after hc.2 hf) hbefore fun w hw => absurd hw (Table.not_mem_empty w)
  exact hagreement.consequences hforgotten

section example_run

open Demo

def secondCredential : Enrollment :=
  { enrollmentOf 1 with credentialHash := [1, 12], transportKey := [1, 13], signedCred := [1, 14], signedManifest := [] }

/-- A member opens a mailbox, and its device is revoked. -/
def revokedOwner : List Call :=
  joins 1 ++ ([.createMailbox (memberId 1) (deviceId 1) [9] [8] [7] 5, .publishManifest (memberId 1) 2 [9] [[1, 2]]] : List Call)

theorem revoked_owner_in_step :
    Trace.Meets (after crypto.sha256) (fun db c => InStep db c ∧ WatchesWhileActive db c) .empty revokedOwner ∧
      ConsequencesAgree (storeAfter crypto.sha256 revokedOwner) := by
  have hmeets : Trace.Meets (after crypto.sha256) (fun db c => InStep db c ∧ WatchesWhileActive db c) .empty revokedOwner := by
    refine ⟨⟨trivial, nofun⟩, ⟨trivial, nofun⟩, ⟨?_, nofun⟩, ⟨fun _ => ?_, nofun⟩, trivial⟩
    · show Active (memberId 1) (deviceId 1) (storeAfter crypto.sha256 (joins 1))
      decide +kernel
    · show RevokesWhole (memberId 1) [[1, 2]] (· ≠ .revoked) (storeAfter crypto.sha256 (revokedOwner.take 3)).credentials.rows
        (storeAfter crypto.sha256 (revokedOwner.take 3))
      decide +kernel
  exact ⟨hmeets, consequences_agree crypto.sha256 revokedOwner hmeets revokedOwner [] (List.append_nil _).symm⟩

/-- The device has two credentials, one of which is revoked. -/
def halfRevokedOwner : List Call :=
  joins 1 ++ ([.createMailbox (memberId 1) (deviceId 1) [9] [8] [7] 5, .putCredential secondCredential,
    .publishManifest (memberId 1) 2 [9] [[1, 2]]] : List Call)

/-- Its mailbox is silent, although the other credential is active. -/
theorem half_revoked_owner_is_silent :
    Active (memberId 1) (deviceId 1) (storeAfter crypto.sha256 halfRevokedOwner) ∧
    (∃ k ∈ (storeAfter crypto.sha256 halfRevokedOwner).capabilities, k.mailboxId = [9] ∧ k.revoked = true) ∧
    ¬ ConsequencesAgree (storeAfter crypto.sha256 halfRevokedOwner) := by
  have hactive : Active (memberId 1) (deviceId 1) (storeAfter crypto.sha256 halfRevokedOwner) := by decide +kernel
  have howner : ⟨[9], memberId 1, deviceId 1⟩ ∈ (storeAfter crypto.sha256 halfRevokedOwner).owners := by
    rw [Table.mem_def]
    decide +kernel
  have hsilent : ∃ k ∈ (storeAfter crypto.sha256 halfRevokedOwner).capabilities, k.mailboxId = [9] ∧ k.revoked = true :=
    Table.exists_mem (by decide +kernel)
  refine ⟨hactive, hsilent, fun h => ?_⟩
  obtain ⟨k, hk, hbox, hrevoked⟩ := hsilent
  obtain ⟨c, hc, hid, hdev, hstatus⟩ := hactive
  exact ((h.silent _ howner k hk hbox).1 hrevoked).none_active c hc hid hdev hstatus

end example_run

end Arveil.RelayStore

import Arveil.Proofs.Footprint

/-! What each call of the relay's store does to the memberships, credentials, manifests and
redemptions. Four transactions write them; everything else leaves them alone, but for the
role of an owner and the redemption an accepted invitation records. -/

namespace Arveil.RelayStore

open Prog

def HasRoot (db : Db) (identityId root : Bytes) : Prop :=
  ∃ m ∈ db.memberships, m.identityId = identityId ∧ m.rootPublic = root

theorem isMember_iff {db : Db} {identityId : Bytes} : isMember db identityId ↔ ∃ root, HasRoot db identityId root := by
  unfold isMember
  rw [Option.isSome_iff_exists]
  constructor
  · rintro ⟨m, hm⟩
    obtain ⟨hmem, hid⟩ := Table.get?_eq_some.1 hm
    exact ⟨m.rootPublic, m, hmem, hid, rfl⟩
  · rintro ⟨root, m, hmem, hid, -⟩
    exact ⟨m, Table.get?_eq_some.2 ⟨hmem, hid⟩⟩

theorem HasRoot.unique {db : Db} {identityId root root' : Bytes} (h : HasRoot db identityId root)
    (h' : HasRoot db identityId root') : root = root' := by
  obtain ⟨m, hm, hid, rfl⟩ := h
  obtain ⟨m', hm', hid', rfl⟩ := h'
  rw [Table.eq_of_key hm hm' (hid.trans hid'.symm)]

def Enrollment.row (e : Enrollment) : CredentialRow :=
  ⟨e.credentialHash, e.identityId, e.deviceId, e.transportKey, e.signedCred, .active, e.notAfter⟩

def Enrollment.manifest (e : Enrollment) : ManifestRow := ⟨e.identityId, e.manifestSeq.toNat, e.signedManifest⟩

theorem mem_manifestsOf {db : Db} {identityId : Bytes} {m : ManifestRow} :
    m ∈ manifestsOf db identityId ↔ m ∈ db.manifests ∧ m.identityId = identityId := by
  rw [manifestsOf, List.mem_insertionSort, List.mem_filter, decide_eq_true_eq]
  rfl

theorem newestManifest_eq_none {db : Db} {identityId : Bytes} :
    newestManifest db identityId = none ↔ ∀ m ∈ db.manifests, m.identityId ≠ identityId := by
  rw [newestManifest, List.head?_eq_none_iff, List.eq_nil_iff_forall_not_mem]
  simp only [mem_manifestsOf, not_and, ne_eq]

theorem newestManifest_eq_some {db : Db} {identityId : Bytes} {m : ManifestRow} :
    newestManifest db identityId = some m ↔ (m ∈ db.manifests ∧ m.identityId = identityId) ∧
      ∀ m' ∈ db.manifests, m'.identityId = identityId → m'.sequence ≤ m.sequence := by
  have hsorted : (manifestsOf db identityId).Pairwise fun a b => b.sequence ≤ a.sequence :=
    List.pairwise_insertionSort _ _
  unfold newestManifest
  constructor
  · intro h
    refine ⟨mem_manifestsOf.1 (List.mem_of_mem_head? h), fun m' hm' hid' => ?_⟩
    have hmem := mem_manifestsOf.2 ⟨hm', hid'⟩
    cases hl : manifestsOf db identityId with
    | nil => rw [hl] at hmem; cases hmem
    | cons a l =>
      rw [hl] at h hmem hsorted
      obtain rfl : a = m := Option.some.inj h
      rcases List.mem_cons.1 hmem with rfl | hmem
      · exact le_rfl
      · exact List.rel_of_pairwise_cons hsorted hmem
  · rintro ⟨hm, hnewest⟩
    have hmem := mem_manifestsOf.2 hm
    cases hl : manifestsOf db identityId with
    | nil => rw [hl] at hmem; cases hmem
    | cons a l =>
      rw [hl] at hmem hsorted
      have ha : a ∈ db.manifests ∧ a.identityId = identityId := mem_manifestsOf.1 (hl ▸ List.mem_cons_self)
      have hle : m.sequence ≤ a.sequence := by
        rcases List.mem_cons.1 hmem with rfl | hmem
        · exact le_rfl
        · exact List.rel_of_pairwise_cons hsorted hmem
      have hseq : a.sequence = m.sequence := le_antisymm (hnewest a ha.1 ha.2) hle
      rw [Table.eq_of_key ha.1 hm.1 (Prod.ext (ha.2.trans hm.2.symm) hseq)]
      rfl

theorem addMembership_eq_some {row : MembershipRow} {db db' : Db} (h : addMembership row db = some db') :
    ∃ t, db.memberships.insert row = some t ∧ db' = { db with memberships := t } := by
  obtain ⟨t, ht, rfl⟩ := Option.map_eq_some_iff.1 h
  exact ⟨t, ht, rfl⟩

theorem addCredential_eq_some {e : Enrollment} {db db' : Db} (h : addCredential e db = some db') :
    isMember db e.identityId ∧ ∃ t, db.credentials.insert e.row = some t ∧ db' = { db with credentials := t } := by
  unfold addCredential at h
  split at h
  · cases h
  · split at h
    · cases h
    · split at h
      · cases h
      · split at h
        · cases h
        · next hmember =>
          obtain ⟨t, ht, rfl⟩ := Option.map_eq_some_iff.1 h
          exact ⟨not_not.1 hmember, t, ht, rfl⟩

theorem addManifest_eq_some {row : ManifestRow} {db db' : Db} (h : addManifest row db = some db') :
    isMember db row.identityId ∧ ∃ t, db.manifests.insert row = some t ∧ db' = { db with manifests := t } := by
  unfold addManifest at h
  split at h
  · cases h
  · next hno =>
    obtain ⟨t, ht, rfl⟩ := Option.map_eq_some_iff.1 h
    exact ⟨not_not.1 fun hm => hno (Or.inr hm), t, ht, rfl⟩

theorem addRedemption_eq_some {row : RedemptionRow} {db db' : Db} (h : addRedemption row db = some db') :
    ∃ t, db.redemptions.insert row = some t ∧ db' = { db with redemptions := t } := by
  obtain ⟨t, ht, rfl⟩ := Option.map_eq_some_iff.1 h
  exact ⟨t, ht, rfl⟩

/-- Every row is kept, as it was or revoked; what is revoked is a named row of the
identity, and every named row is. -/
structure Revokes (identityId : Bytes) (hashes : List Bytes) (t t' : Table CredentialRow.credentialHash) : Prop where
  kept : ∀ c ∈ t, c ∈ t' ∨ { c with status := .revoked } ∈ t'
  from_ : ∀ c' ∈ t', c' ∈ t ∨
    (c'.status = .revoked ∧ c'.identityId = identityId ∧ c'.credentialHash ∈ hashes ∧ ∃ c ∈ t, c' = { c with status := .revoked })
  named : ∀ c' ∈ t', c'.identityId = identityId → c'.credentialHash ∈ hashes → c'.status = .revoked

theorem Revokes.refl (identityId : Bytes) (t : Table CredentialRow.credentialHash) : Revokes identityId [] t t where
  kept _ hc := Or.inl hc
  from_ _ hc := Or.inl hc
  named _ _ _ h := nomatch h

theorem Revokes.skip {identityId hash : Bytes} {hashes : List Bytes} {t t' : Table CredentialRow.credentialHash}
    (h : Revokes identityId hashes t t')
    (hskip : ∀ c ∈ t, c.credentialHash = hash → c.identityId = identityId → c.status = .revoked) :
    Revokes identityId (hash :: hashes) t t' where
  kept := h.kept
  from_ c' hc' := (h.from_ c' hc').imp_right fun ⟨hs, hid, hmem, hc⟩ => ⟨hs, hid, List.mem_cons_of_mem _ hmem, hc⟩
  named c' hc' hid hmem := by
    rcases h.from_ c' hc' with hold | ⟨hs, -⟩
    · rcases List.mem_cons.1 hmem with heq | hmem
      · exact hskip c' hold heq hid
      · exact h.named c' hc' hid hmem
    · exact hs

theorem Revokes.cons {identityId hash : Bytes} {hashes : List Bytes} {t t₁ t' : Table CredentialRow.credentialHash}
    {c : CredentialRow} (hc : c ∈ t) (hhash : c.credentialHash = hash) (hid : c.identityId = identityId)
    (ht₁ : ∀ r, r ∈ t₁ ↔ ∃ r₀ ∈ t, (if r₀.credentialHash = hash then { r₀ with status := .revoked } else r₀) = r)
    (h : Revokes identityId hashes t₁ t') : Revokes identityId (hash :: hashes) t t' where
  kept r hr := by
    have hr₁ := (ht₁ _).2 ⟨r, hr, rfl⟩
    split at hr₁
    · exact Or.inr (by simpa using h.kept _ hr₁)
    · exact h.kept r hr₁
  from_ r' hr' := by
    have hof : ∀ r₁ ∈ t₁, r₁ ∈ t ∨ (r₁.status = .revoked ∧ r₁.identityId = identityId ∧ r₁.credentialHash ∈ hash :: hashes ∧
        ∃ r₀ ∈ t, r₁ = { r₀ with status := .revoked }) := by
      intro r₁ hr₁
      obtain ⟨r₀, hr₀, rfl⟩ := (ht₁ r₁).1 hr₁
      split
      · next heq =>
        rw [← Table.eq_of_key hc hr₀ (hhash.trans heq.symm)]
        exact Or.inr ⟨rfl, hid, hhash ▸ List.mem_cons_self, c, hc, rfl⟩
      · exact Or.inl hr₀
    rcases h.from_ r' hr' with hr₁ | ⟨hs, hid', hmem, r₁, hr₁, rfl⟩
    · exact hof r' hr₁
    · refine Or.inr ⟨hs, hid', List.mem_cons_of_mem _ hmem, ?_⟩
      rcases hof r₁ hr₁ with hr₀ | ⟨-, -, -, r₀, hr₀, rfl⟩
      · exact ⟨r₁, hr₀, rfl⟩
      · exact ⟨r₀, hr₀, rfl⟩
  named r' hr' hid' hmem := by
    rcases List.mem_cons.1 hmem with heq | hmem
    · rcases h.from_ r' hr' with hr₁ | ⟨hs, -⟩
      · obtain ⟨r₀, hr₀, rfl⟩ := (ht₁ r').1 hr₁
        by_cases hr : r₀.credentialHash = hash
        · rw [if_pos hr]
        · rw [if_neg hr] at heq
          exact absurd heq hr
      · exact hs
    · exact h.named r' hr' hid' hmem

theorem mem_revokeDevice {identityId hash deviceId : Bytes} {db : Db} (r : CredentialRow) :
    r ∈ (revokeDevice identityId hash deviceId db).credentials ↔
      ∃ r₀ ∈ db.credentials, (if r₀.credentialHash = hash then { r₀ with status := .revoked } else r₀) = r := by
  have hcred : (revokeDevice identityId hash deviceId db).credentials = (setRevoked hash db).credentials := by
    unfold revokeDevice forgetWatchKey
    split <;> rfl
  rw [hcred, setRevoked, Table.mem_update]
  simp only [decide_eq_true_eq]

def unrevoked (db : Db) := (db.memberships, db.manifests, db.redemptions)

theorem revokeDevice_unrevoked (identityId hash deviceId : Bytes) (db : Db) :
    unrevoked (revokeDevice identityId hash deviceId db) = unrevoked db := by
  unfold revokeDevice forgetWatchKey
  split <;> rfl

theorem filter_eq_none_skip {hash identityId : Bytes} {p : CredentialRow → Bool} {db : Db}
    (hp : ∀ c : CredentialRow, c.identityId = identityId → p c = false → c.status = .revoked)
    (h : (db.credentials.get? hash).filter p = none) :
    ∀ c ∈ db.credentials, c.credentialHash = hash → c.identityId = identityId → c.status = .revoked := by
  intro c hc hhash hid
  rw [Table.get?_eq_some.2 ⟨hc, hhash⟩] at h
  by_cases hpc : p c = true
  · rw [Option.filter_some_pos hpc] at h
    cases h
  · exact hp c hid (Bool.not_eq_true _ ▸ hpc)

theorem filter_eq_some_row {hash : Bytes} {p : CredentialRow → Bool} {db : Db} {c : CredentialRow}
    (h : (db.credentials.get? hash).filter p = some c) : c ∈ db.credentials ∧ c.credentialHash = hash ∧ p c = true := by
  obtain ⟨hg, hp⟩ := Option.filter_eq_some_iff.1 h
  obtain ⟨hmem, hkey⟩ := Table.get?_eq_some.1 hg
  exact ⟨hmem, hkey, hp⟩

theorem revokeEach_spec (identityId : Bytes) (hashes : List Bytes) (db : Db) :
    Revokes identityId hashes db.credentials (revokeEach identityId hashes db).2.credentials ∧
      unrevoked (revokeEach identityId hashes db).2 = unrevoked db := by
  induction hashes generalizing db with
  | nil => exact ⟨Revokes.refl _ _, rfl⟩
  | cons hash hashes ih =>
    unfold revokeEach
    split
    · next hnone =>
      refine ⟨(ih db).1.skip (filter_eq_none_skip (fun c hid hp => ?_) hnone), (ih db).2⟩
      simpa [hid] using hp
    · next c hsome =>
      obtain ⟨hmem, hhash, hp⟩ := filter_eq_some_row hsome
      simp only [Bool.and_eq_true, decide_eq_true_eq] at hp
      obtain ⟨hrest, hun⟩ := ih (revokeDevice identityId hash c.deviceId db)
      exact ⟨Revokes.cons hmem hhash hp.1 mem_revokeDevice hrest, hun.trans (revokeDevice_unrevoked _ _ _ _)⟩

theorem revokeAgain_spec (identityId : Bytes) (hashes : List Bytes) (db : Db) :
    Revokes identityId hashes db.credentials (revokeAgain identityId hashes db).credentials ∧
      unrevoked (revokeAgain identityId hashes db) = unrevoked db := by
  induction hashes generalizing db with
  | nil => exact ⟨Revokes.refl _ _, rfl⟩
  | cons hash hashes ih =>
    unfold revokeAgain
    split
    · next hnone =>
      refine ⟨(ih db).1.skip (filter_eq_none_skip (fun c hid hp => ?_) hnone), (ih db).2⟩
      simp [hid] at hp
    · next c hsome =>
      obtain ⟨hmem, hhash, hp⟩ := filter_eq_some_row hsome
      obtain ⟨hrest, hun⟩ := ih (revokeDevice identityId hash c.deviceId db)
      exact ⟨Revokes.cons hmem hhash (by simpa using hp) mem_revokeDevice hrest, hun.trans (revokeDevice_unrevoked _ _ _ _)⟩

/-- The members' tables are as they were, but for roles and redemptions of a credential
that is there. -/
structure Same (db db' : Db) : Prop where
  roots : ∀ identityId root, HasRoot db' identityId root ↔ HasRoot db identityId root
  credentials : db'.credentials = db.credentials
  manifests : db'.manifests = db.manifests
  redemptions : ∀ r ∈ db'.redemptions, r ∈ db.redemptions ∨
    ∃ c ∈ db.credentials, c.credentialHash = r.credentialHash ∧ c.identityId = r.identityId

/-- A new member with its first credential and manifest. -/
structure Redeemed (tokenHash : Bytes) (e : Enrollment) (db db' : Db) : Prop where
  fresh : ¬ isMember db e.identityId
  roots : ∀ identityId root, HasRoot db' identityId root ↔
    HasRoot db identityId root ∨ (identityId = e.identityId ∧ root = e.rootPublic)
  credentials : db.credentials.insert e.row = some db'.credentials
  manifests : db.manifests.insert e.manifest = some db'.manifests
  redemptions : db.redemptions.insert ⟨tokenHash, e.identityId, e.credentialHash⟩ = some db'.redemptions

structure Registered (e : Enrollment) (db db' : Db) : Prop where
  member : isMember db e.identityId
  roots : ∀ identityId root, HasRoot db' identityId root ↔ HasRoot db identityId root
  credentials : db.credentials.insert e.row = some db'.credentials
  manifests : db'.manifests = db.manifests
  redemptions : db'.redemptions = db.redemptions

/-- The newest manifest of an identity, with its revocations. -/
structure Published (identityId : Bytes) (seq : UInt64) (signed : Bytes) (revoked : List Bytes) (db db' : Db) : Prop where
  roots : ∀ identityId root, HasRoot db' identityId root ↔ HasRoot db identityId root
  credentials : Revokes identityId revoked db.credentials db'.credentials
  manifests : db'.manifests = db.manifests ∨ db.manifests.insert ⟨identityId, seq.toNat, signed⟩ = some db'.manifests
  newest : newestManifest db' identityId = some ⟨identityId, seq.toNat, signed⟩
  redemptions : db'.redemptions = db.redemptions

/-- A new device of a member, with the manifest that names it and its revocations. -/
structure Recovered (e : Enrollment) (revoked : List Bytes) (db db' : Db) : Prop where
  member : isMember db e.identityId
  roots : ∀ identityId root, HasRoot db' identityId root ↔ HasRoot db identityId root
  credentials : ∃ t, db.credentials.insert e.row = some t ∧ Revokes e.identityId revoked t db'.credentials
  manifests : db.manifests.insert e.manifest = some db'.manifests
  newest : newestManifest db' e.identityId = some e.manifest
  redemptions : db'.redemptions = db.redemptions

def members (db : Db) := (db.memberships, db.credentials, db.manifests, db.redemptions)

theorem Same.of_members {db db' : Db} (h : members db' = members db) : Same db db' := by
  obtain ⟨h₁, h₂⟩ := Prod.mk.inj h
  obtain ⟨h₂, h₃⟩ := Prod.mk.inj h₂
  obtain ⟨h₃, h₄⟩ := Prod.mk.inj h₃
  exact ⟨fun _ _ => by rw [HasRoot, h₁, HasRoot], h₂, h₃, fun r hr => Or.inl (h₄ ▸ hr)⟩

theorem newestManifest_insert {db db' : Db} {row : ManifestRow} (hins : db.manifests.insert row = some db'.manifests)
    (hnewer : ∀ m ∈ db.manifests, m.identityId = row.identityId → m.sequence ≤ row.sequence) :
    newestManifest db' row.identityId = some row := by
  refine newestManifest_eq_some.2 ⟨⟨(Table.mem_insert hins).2 (Or.inr rfl), rfl⟩, fun m hm hid => ?_⟩
  rcases (Table.mem_insert hins).1 hm with hm | rfl
  · exact hnewer m hm hid
  · exact le_rfl

theorem redeemInvite_ok {tokenHash : Bytes} {now : Int} {e : Enrollment} {db db' : Db} {u : Unit}
    (h : redeemInvite tokenHash now e db = (.ok u, db')) : Redeemed tokenHash e db db' := by
  rw [redeemInvite, unitOfWork_eq_ok, bind_eq_ok] at h
  obtain ⟨o, db₀, hread, h⟩ := h
  obtain ⟨rfl, rfl⟩ := read_eq_ok.1 hread
  cases hr : db.redemptions.get? (tokenHash, e.identityId) with
  | some r => simp [hr] at h
  | none =>
    simp only [hr, bind_eq_ok, require_eq_ok, modify_eq_ok, insertCredential, insertRow_eq_ok] at h
    obtain ⟨invite, db₁, ⟨-, rfl⟩, -, db₂, rfl, -, db₃, hm, -, db₄, hc, -, db₅, hf, -, db₆, hd, rfl⟩ := h
    obtain ⟨tm, htm, rfl⟩ := addMembership_eq_some hm
    obtain ⟨-, tc, htc, rfl⟩ := addCredential_eq_some hc
    obtain ⟨-, tf, htf, rfl⟩ := addManifest_eq_some hf
    obtain ⟨td, htd, rfl⟩ := addRedemption_eq_some hd
    refine ⟨?_, ?_, htc, htf, htd⟩
    · rw [isMember_iff]
      rintro ⟨root, m, hm, hid, -⟩
      exact (Table.insert_eq_some htm).2 m hm hid
    · intro identityId root
      constructor
      · rintro ⟨m, hm, rfl, rfl⟩
        rcases (Table.mem_insert htm).1 hm with hm | rfl
        · exact Or.inl ⟨m, hm, rfl, rfl⟩
        · exact Or.inr ⟨rfl, rfl⟩
      · rintro (⟨m, hm, rfl, rfl⟩ | ⟨rfl, rfl⟩)
        · exact ⟨m, (Table.mem_insert htm).2 (Or.inl hm), rfl, rfl⟩
        · exact ⟨_, (Table.mem_insert htm).2 (Or.inr rfl), rfl, rfl⟩

theorem redeemInvite_repeated {tokenHash : Bytes} {now : Int} {e : Enrollment} {db db' : Db}
    (h : redeemInvite tokenHash now e db = (.error .alreadyRedeemed, db')) :
    ⟨tokenHash, e.identityId, e.credentialHash⟩ ∈ db.redemptions := by
  obtain ⟨db₁, h⟩ := unitOfWork_eq_error h
  rw [bind_ok (read_run _ _)] at h
  cases hr : db.redemptions.get? (tokenHash, e.identityId) with
  | some r =>
    obtain ⟨hmem, hkey⟩ := Table.get?_eq_some.1 hr
    simp only [hr, fail_run, Prod.mk.injEq, Except.error.injEq] at h
    by_cases heq : r.credentialHash = e.credentialHash
    · obtain ⟨htoken, hid⟩ := Prod.mk.inj hkey
      rw [← htoken, ← hid, ← heq]
      exact hmem
    · simp [heq] at h
  | none =>
    simp only [hr] at h
    -- no other failure of the transaction says that it was made before
    have hother : FailsOnly (· ≠ StoreError.alreadyRedeemed) (do
        let invite ← require .inviteInvalid (usableInvite tokenHash now)
        Prog.modify (setUsesLeft tokenHash (· - 1))
        insertRow .alreadyMember addMembership ⟨e.identityId, e.rootPublic, invite.role, .active⟩
        insertCredential e
        insertRow .sqlite addManifest ⟨e.identityId, e.manifestSeq.toNat, e.signedManifest⟩
        insertRow .sqlite addRedemption ⟨tokenHash, e.identityId, e.credentialHash⟩
        Prog.modify (markUsed tokenHash e.identityId now)) :=
      failsOnly_bind (failsOnly_require (by decide) _) fun _ => failsOnly_bind (failsOnly_modify _) fun _ =>
        failsOnly_bind (failsOnly_insertRow (by decide) _ _) fun _ => failsOnly_bind (failsOnly_insertRow (by decide) _ _) fun _ =>
        failsOnly_bind (failsOnly_insertRow (by decide) _ _) fun _ => failsOnly_bind (failsOnly_insertRow (by decide) _ _) fun _ =>
        failsOnly_modify _
    exact absurd rfl (hother _ _ _ h)

theorem putCredential_ok {e : Enrollment} {db db' : Db} {u : Unit} (h : putCredential e db = (.ok u, db')) :
    Registered e db db' := by
  rw [putCredential, unitOfWork_eq_ok, insertCredential, insertRow_eq_ok] at h
  obtain ⟨hmember, t, ht, rfl⟩ := addCredential_eq_some h
  exact ⟨hmember, fun _ _ => Iff.rfl, ht, rfl, rfl⟩

theorem publishManifest_ok {identityId signed : Bytes} {seq : UInt64} {revoked : List Bytes} {db db' : Db} {n : Nat}
    (h : publishManifest identityId seq signed revoked db = (.ok n, db')) :
    Published identityId seq signed revoked db db' := by
  rw [publishManifest, unitOfWork_eq_ok] at h
  simp only [bind_eq_ok, read_eq_ok, when_eq_ok, insertRow_eq_ok, revokeCredentials, Prod.mk.injEq] at h
  obtain ⟨newest, db₀, ⟨rfl, rfl⟩, _, db₁, hsame, _, db₂, hinsert, -, rfl⟩ := h
  rcases hsame with ⟨-, hfail⟩ | ⟨hsame, rfl⟩
  · exact absurd hfail fail_ne_ok
  obtain ⟨hrevokes, hun⟩ := revokeEach_spec identityId revoked db₂
  obtain ⟨hmemberships, hun⟩ := Prod.mk.inj hun
  obtain ⟨hmanifests, hredemptions⟩ := Prod.mk.inj hun
  have hnewest : ∀ i, newestManifest (revokeEach identityId revoked db₂).2 i = newestManifest db₂ i := by
    intro i
    rw [newestManifest, manifestsOf, hmanifests, newestManifest, manifestsOf]
  rcases hinsert with ⟨hlater, hadd⟩ | ⟨hlater, rfl⟩
  · obtain ⟨-, t, ht, rfl⟩ := addManifest_eq_some hadd
    refine ⟨fun i root => by rw [HasRoot, hmemberships, HasRoot], hrevokes, Or.inr (hmanifests ▸ ht), ?_, hredemptions⟩
    rw [hnewest]
    have hins : db.manifests.insert ⟨identityId, seq.toNat, signed⟩ = some ({ db with manifests := t } : Db).manifests := ht
    refine newestManifest_insert hins fun m hm hid => ?_
    cases hn : newestManifest db identityId with
    | none => exact absurd hid (newestManifest_eq_none.1 hn m hm)
    | some m' =>
      rw [hn, Option.all_some, decide_eq_true_eq] at hlater
      exact le_trans ((newestManifest_eq_some.1 hn).2 m hm hid) hlater.le
  · refine ⟨fun i root => by rw [HasRoot, hmemberships, HasRoot], hrevokes, Or.inl hmanifests, ?_, hredemptions⟩
    rw [hnewest]
    cases hn : newestManifest db identityId with
    | none => simp [hn] at hlater
    | some m =>
      -- neither older nor newer than the stored one, and the same bytes
      simp only [hn, Option.any_some, Option.all_some, Bool.or_eq_true, Bool.and_eq_true, decide_eq_true_eq, not_or, not_and,
        not_not] at hsame hlater
      have hseq : seq.toNat = m.sequence := by omega
      obtain ⟨⟨-, rfl⟩, -⟩ := newestManifest_eq_some.1 hn
      rw [hseq, ← hsame.2 hseq]

theorem recoverIdentity_ok {e : Enrollment} {revoked : List Bytes} {now : Int} {db db' : Db} {n : Nat}
    (h : recoverIdentity e revoked now db = (.ok n, db')) :
    (db' = db ∧ ∃ c ∈ db.credentials, c.credentialHash = e.credentialHash ∧ c.identityId = e.identityId ∧
      c.signed = e.signedCred ∧ c.status = .active) ∨ Recovered e revoked db db' := by
  rw [recoverIdentity, unitOfWork_eq_ok, bind_ok (read_run _ _)] at h
  cases hr : recoveryOf e.credentialHash db with
  | some p =>
    obtain ⟨r, c⟩ := p
    simp only [hr] at h
    split at h
    · exact absurd h fail_ne_ok
    · next hcond =>
      simp only [not_or, not_not, ne_eq] at hcond
      obtain ⟨-, rfl⟩ : _ ∧ db = db' := by simpa using h
      obtain ⟨r', -, hr⟩ := Option.bind_eq_some_iff.1 hr
      obtain ⟨c', hc, hr⟩ := Option.bind_eq_some_iff.1 hr
      obtain ⟨rfl, rfl⟩ := Prod.mk.inj (Option.some.inj hr)
      obtain ⟨hmem, hkey⟩ := Table.get?_eq_some.1 hc
      exact Or.inl ⟨rfl, c', hmem, hkey, hcond.2.1, hcond.2.2.1, hcond.2.2.2.1⟩
  | none =>
    right
    simp only [hr, bind_eq_ok, read_eq_ok, when_eq_ok, insertCredential, insertRow_eq_ok, modify_eq_ok, pure_run,
      Prod.mk.injEq] at h
    obtain ⟨previous, db₀, ⟨hprevious, rfl⟩, _, db₁, hnewer, -, db₂, hm, -, db₃, hc, -, db₄, rfl, -, db₅, hrec, -, hdb⟩ := h
    rcases hnewer with ⟨-, hfail⟩ | ⟨hnewer, rfl⟩
    · exact absurd hfail fail_ne_ok
    obtain ⟨hmember, tm, htm, rfl⟩ := addManifest_eq_some hm
    obtain ⟨-, tc, htc, rfl⟩ := addCredential_eq_some hc
    obtain ⟨hrevokes, hun⟩ := revokeAgain_spec e.identityId revoked
      { db with manifests := tm, credentials := tc }
    obtain ⟨hmemberships, hun⟩ := Prod.mk.inj hun
    obtain ⟨hmanifests, hredemptions⟩ := Prod.mk.inj hun
    obtain ⟨tr, rfl⟩ : ∃ t, db' = { revokeAgain e.identityId revoked { db with manifests := tm, credentials := tc } with
        recoveries := t } := by
      rw [← hdb]
      unfold addRecovery at hrec
      split at hrec
      · cases hrec
      · obtain ⟨t, -, rfl⟩ := Option.map_eq_some_iff.1 hrec
        exact ⟨t, rfl⟩
    have hins := htm.trans (congrArg some hmanifests.symm)
    refine ⟨hmember, fun i root => by rw [HasRoot, hmemberships, HasRoot], ⟨tc, htc, hrevokes⟩, hins, ?_, hredemptions⟩
    refine newestManifest_insert hins fun m hm hid => ?_
    cases hn : newestManifest db e.identityId with
    | none => exact absurd hid (newestManifest_eq_none.1 hn m hm)
    | some m' =>
      have hle := (newestManifest_eq_some.1 hn).2 m hm hid
      rw [hn] at hprevious
      simp only [Option.map_some, Option.getD_some] at hprevious
      show m.sequence ≤ e.manifestSeq.toNat
      omega

variable {sha256 : Bytes → Bytes}

theorem same_makeOwner (identity : Bytes) (db : Db) : Same db (makeOwner identity db).2 := by
  refine unitOfWork_snd (P := Same db) (Same.of_members rfl) ?_
  refine bind_fixed (P := Same db) (fixes_require _ _) (Same.of_members rfl) fun _ _ => ?_
  refine ⟨fun identityId root => ?_, rfl, rfl, fun r hr => Or.inl hr⟩
  simp only [HasRoot, modify_run, Table.mem_update]
  constructor
  · rintro ⟨m', ⟨m, hm, rfl⟩, hid, hroot⟩
    refine ⟨m, hm, ?_⟩
    split at hid <;> split at hroot <;> exact ⟨hid, hroot⟩
  · rintro ⟨m, hm, rfl, rfl⟩
    refine ⟨_, ⟨m, hm, rfl⟩, ?_⟩
    split <;> exact ⟨rfl, rfl⟩

theorem same_acceptInvitation (credential hash : Bytes) (now : Int) (db : Db) :
    Same db (acceptInvitation credential hash now db).2 := by
  refine unitOfWork_snd (P := Same db) (Same.of_members rfl) ?_
  refine bind_fixed (P := Same db) (fixes_activeRole _ _) (Same.of_members rfl) fun a ha => ?_
  obtain ⟨actor, role⟩ := a
  obtain ⟨c, hc, hactor⟩ := Option.bind_eq_some_iff.1 (require_eq_ok.1 ha).1
  obtain ⟨m, hm, hactor⟩ := Option.bind_eq_some_iff.1 hactor
  obtain ⟨hcred, -⟩ := Option.filter_eq_some_iff.1 hc
  obtain ⟨hmember, -⟩ := Option.filter_eq_some_iff.1 hm
  obtain ⟨hcmem, hchash⟩ := Table.get?_eq_some.1 hcred
  obtain ⟨-, hmid⟩ := Table.get?_eq_some.1 hmember
  obtain ⟨rfl, rfl⟩ := Prod.mk.inj (Option.some.inj hactor)
  have hfixed : ∀ {α : Type} {p : Txn α}, Fixes members p → Same db (p db).2 := fun hp => Same.of_members (hp db)
  refine bind_fixed (P := Same db) (fixes_require _ _) (Same.of_members rfl) fun row _ => ?_
  refine bind_fixed (P := Same db) (fixes_when _ (fixes_fail _)) (Same.of_members rfl) fun _ _ => ?_
  by_cases hused : (scanInvitation row now).state = .used
  · rw [if_pos hused]
    refine hfixed (fixes_bind (fixes_read _) fun mine => ?_)
    split
    · exact fixes_pure _
    · exact fixes_fail _
  rw [if_neg hused]
  by_cases hpending : (scanInvitation row now).state ≠ .pending
  · rw [if_pos hpending]
    exact hfixed (fixes_fail _)
  rw [if_neg hpending, bind_ok (modify_run _ _), bind_ok (modify_run _ _)]
  refine bind_snd (P := Same db) (fun e db' he => ?_) fun _ db' hdb' => ?_
  · rw [insertRow_eq_error he]
    exact Same.of_members rfl
  · obtain ⟨t, ht, rfl⟩ := addRedemption_eq_some (insertRow_eq_ok.1 hdb')
    refine ⟨fun _ _ => Iff.rfl, rfl, rfl, fun r hr => ?_⟩
    rcases (Table.mem_insert ht).1 hr with hr | rfl
    · exact Or.inl hr
    · exact Or.inr ⟨c, hcmem, hchash, hmid.symm⟩

open RelayServer in
/-- What a call can do to the members' tables. -/
inductive Effect : Call → Db → Db → Prop
  | same {c : Call} {db db' : Db} (h : Same db db') : Effect c db db'
  | redeemed {tokenHash : Bytes} {now : Int} {e : Enrollment} {db db' : Db} (h : Redeemed tokenHash e db db') :
      Effect (.redeemInvite tokenHash now e) db db'
  | registered {e : Enrollment} {db db' : Db} (h : Registered e db db') : Effect (.putCredential e) db db'
  | published {identityId : Bytes} {seq : UInt64} {signed : Bytes} {revoked : List Bytes} {db db' : Db}
      (h : Published identityId seq signed revoked db db') : Effect (.publishManifest identityId seq signed revoked) db db'
  | recovered {e : Enrollment} {revoked : List Bytes} {now : Int} {db db' : Db} (h : Recovered e revoked db db') :
      Effect (.recoverIdentity e revoked now) db db'

theorem Effect.of_fixes {α : Type} {c : RelayServer.Call} {p : Txn α} (h : Fixes members p) (db : Db) : Effect c db (p db).2 :=
  .same (Same.of_members (h db))

theorem Effect.of_unit {α : Type} {c : RelayServer.Call} {p : Txn α} {db : Db}
    (h : ∀ a db', unitOfWork p db = (.ok a, db') → Effect c db db') : Effect c db (unitOfWork p db).2 := by
  rcases hp : unitOfWork p db with ⟨r, db'⟩
  cases r with
  | ok a => exact h a db' hp
  | error e =>
    rw [unitOfWork_error hp]
    exact .same (Same.of_members rfl)

/-- The calls that write the members' tables. -/
def writesMembers : RelayServer.Call → Bool
  | .redeemInvite _ _ _ | .putCredential _ | .publishManifest _ _ _ _ | .recoverIdentity _ _ _ | .acceptInvitation _ _ _
  | .makeOwner _ => true
  | _ => false

theorem fixes_members {c : RelayServer.Call} (hc : writesMembers c = false) : Fixes members (c.prog sha256) := by
  have h : Part.memberships ∉ writes c ∧ Part.credentials ∉ writes c ∧ Part.manifests ∉ writes c ∧ Part.redemptions ∉ writes c := by
    cases c <;> first | (simp [writes]; done) | cases hc
  obtain ⟨hm, hcred, hman, hred⟩ := h
  intro db
  exact Prod.ext (part_call c db hm) (Prod.ext (part_call c db hcred) (Prod.ext (part_call c db hman) (part_call c db hred)))

theorem call_effect (c : RelayServer.Call) (db : Db) : Effect c db (c.prog sha256 db).2 := by
  cases c with
  | redeemInvite tokenHash now e => exact .of_unit fun _ _ h => .redeemed (redeemInvite_ok h)
  | putCredential e => exact .of_unit fun _ _ h => .registered (putCredential_ok h)
  | publishManifest identityId seq signed revoked => exact .of_unit fun _ _ h => .published (publishManifest_ok h)
  | recoverIdentity e revoked now =>
    refine .of_unit fun _ _ h => ?_
    rcases recoverIdentity_ok h with ⟨rfl, -⟩ | hrec
    · exact .same (Same.of_members rfl)
    · exact .recovered hrec
  | acceptInvitation credential hash now => exact .same (same_acceptInvitation credential hash now db)
  | makeOwner identity => exact .same (same_makeOwner identity db)
  | _ => exact .of_fixes (fixes_members rfl) db

end Arveil.RelayStore

import Arveil.Lib.Trace
import Arveil.Proofs.Members
import Arveil.Sanity.Realm

/-! A relay row that is active and revoked at once. The newest manifest is read before a
credential is stored, and a manifest revokes only the rows that are there; one that comes
between the two is missed. -/

namespace Arveil.RelayServer

open RelayStore Prog

variable {cx : Crypto} {items : CborItems}

def Disjoint (body : DeviceManifest) : Prop := ∀ h ∈ body.activeCredentialHashes, h ∉ body.revokedCredentialHashes

/-- The newest manifest of an identity lists a credential as revoked. -/
def RevokedInNewest (cx : Crypto) (items : CborItems) (db : Db) (identityId hash : Bytes) : Prop :=
  ∃ m root body, newestManifest db identityId = some m ∧ HasRoot db identityId root ∧ Signed cx items root m.signed body ∧
    hash ∈ body.revokedCredentialHashes

/-- No active row is revoked in the newest manifest of its identity. -/
def NoneRevoked (cx : Crypto) (items : CborItems) (db : Db) : Prop :=
  ∀ c ∈ db.credentials, c.status = .active → ¬ RevokedInNewest cx items db c.identityId c.credentialHash

/-- When a checked credential is stored, the newest manifest does not revoke it. -/
def InsertsUnrevoked (cx : Crypto) (items : CborItems) : Call → Db → Prop
  | .putCredential e, db => ¬ RevokedInNewest cx items db e.identityId e.credentialHash
  | _, _ => True

theorem newestManifest_congr {db db' : Db} {identityId : Bytes}
    (h : ∀ m : RelayStore.ManifestRow, m.identityId = identityId → (m ∈ db'.manifests ↔ m ∈ db.manifests)) :
    newestManifest db' identityId = newestManifest db identityId := by
  refine Option.ext fun m => ?_
  simp only [newestManifest_eq_some]
  constructor
  · rintro ⟨⟨hm, hid⟩, hnewest⟩
    exact ⟨⟨(h m hid).1 hm, hid⟩, fun m' hm' hid' => hnewest m' ((h m' hid').2 hm') hid'⟩
  · rintro ⟨⟨hm, hid⟩, hnewest⟩
    exact ⟨⟨(h m hid).2 hm, hid⟩, fun m' hm' hid' => hnewest m' ((h m' hid').1 hm') hid'⟩

theorem newestManifest_other {db db' : Db} {row : RelayStore.ManifestRow} (h : db.manifests.insert row = some db'.manifests)
    {identityId : Bytes} (hne : identityId ≠ row.identityId) : newestManifest db' identityId = newestManifest db identityId := by
  refine newestManifest_congr fun m hid => ?_
  rw [Table.mem_insert h]
  constructor
  · rintro (hm | rfl)
    · exact hm
    · exact absurd hid.symm hne
  · exact Or.inl

theorem Signed.unique {root signed : Bytes} {body body' : DeviceManifest} (h : Signed cx items root signed body)
    (h' : Signed cx items root signed body') : body = body' := Except.ok.inj (h.symm.trans h')

theorem revokedInNewest_congr {db db' : Db} {identityId hash : Bytes}
    (hnewest : newestManifest db' identityId = newestManifest db identityId)
    (hroots : ∀ root, HasRoot db' identityId root → HasRoot db identityId root)
    (h : RevokedInNewest cx items db' identityId hash) : RevokedInNewest cx items db identityId hash := by
  obtain ⟨m, root, body, hm, hroot, hrest⟩ := h
  exact ⟨m, root, body, hnewest ▸ hm, hroots root hroot, hrest⟩

theorem revokedInNewest_of_newest {db : Db} {identityId hash root : Bytes} {m : RelayStore.ManifestRow} {body : DeviceManifest}
    (hm : newestManifest db identityId = some m) (hroot : HasRoot db identityId root) (hsigned : Signed cx items root m.signed body)
    (h : RevokedInNewest cx items db identityId hash) : hash ∈ body.revokedCredentialHashes := by
  obtain ⟨m', root', body', hm', hroot', hsigned', hmem⟩ := h
  obtain rfl := Option.some.inj (hm.symm.trans hm')
  obtain rfl := hroot.unique hroot'
  obtain rfl := hsigned.unique hsigned'
  exact hmem

theorem noneRevoked_effect {c : Call} {db db' : Db} (hcons : Consistent cx items db) (hallowed : Allowed cx items Disjoint c db)
    (hcond : InsertsUnrevoked cx items c db) (heffect : Effect c db db') (h : NoneRevoked cx items db) :
    NoneRevoked cx items db' := by
  have hl := later_effect heffect
  intro c' hc' hactive hrevoked
  cases heffect with
  | same hs =>
    refine h c' (hs.credentials ▸ hc') hactive (revokedInNewest_congr ?_ (fun root => (hs.roots _ root).1) hrevoked)
    exact newestManifest_congr fun m _ => by rw [hs.manifests]
  | @redeemed tokenHash now e _ _ hs =>
    obtain ⟨-, -, body, hsigned, hlisted, hdisjoint, -⟩ := hallowed
    rcases (Table.mem_insert hs.credentials).1 hc' with hold | rfl
    · -- the identity is new, so an old row is of another one
      have hne : c'.identityId ≠ e.identityId := fun heq => hs.fresh (heq ▸ (hcons.credentials c' hold).1)
      refine h c' hold hactive (revokedInNewest_congr (newestManifest_other hs.manifests hne) (fun root hroot => ?_) hrevoked)
      rcases (hs.roots _ _).1 hroot with hroot | ⟨heq, -⟩
      · exact hroot
      · exact absurd heq hne
    · have hnewest : newestManifest db' e.identityId = some e.manifest := by
        refine newestManifest_insert hs.manifests fun m hm hid => ?_
        obtain ⟨root, -, hroot, -⟩ := hcons.manifests m hm
        rw [hid] at hroot
        exact absurd (isMember_iff.2 ⟨root, hroot⟩) hs.fresh
      have hroot : HasRoot db' e.identityId e.rootPublic := (hs.roots _ _).2 (Or.inr ⟨rfl, rfl⟩)
      exact hdisjoint _ hlisted (revokedInNewest_of_newest hnewest hroot hsigned hrevoked)
  | @registered e _ _ hs =>
    have hback := revokedInNewest_congr (newestManifest_congr fun m _ => by rw [hs.manifests])
      (fun root => (hs.roots _ root).1) hrevoked
    rcases (Table.mem_insert hs.credentials).1 hc' with hold | rfl
    · exact h c' hold hactive hback
    · exact hcond hback
  | @published identityId seq signed revoked _ _ hs =>
    obtain ⟨root, body, hroot, hsigned, rfl, -⟩ := hallowed
    by_cases hid : c'.identityId = identityId
    · rw [hid] at hrevoked
      have hmem := revokedInNewest_of_newest hs.newest (hl.roots _ _ hroot) hsigned hrevoked
      rw [hs.credentials.named c' hc' hid hmem] at hactive
      cases hactive
    · rcases hs.credentials.from_ c' hc' with hold | ⟨hstatus, -⟩
      · refine h c' hold hactive (revokedInNewest_congr ?_ (fun root => (hs.roots _ root).1) hrevoked)
        rcases hs.manifests with hsame | hins
        · exact newestManifest_congr fun m _ => by rw [hsame]
        · exact newestManifest_other hins hid
      · rw [hstatus] at hactive
        cases hactive
  | @recovered e revoked now _ _ hs =>
    obtain ⟨-, root, body, hroot, hsigned, rfl, -⟩ := hallowed
    obtain ⟨t, ht, hrev⟩ := hs.credentials
    by_cases hid : c'.identityId = e.identityId
    · rw [hid] at hrevoked
      have hmem := revokedInNewest_of_newest hs.newest (hl.roots _ _ hroot) hsigned hrevoked
      rw [hrev.named c' hc' hid hmem] at hactive
      cases hactive
    · rcases hrev.from_ c' hc' with hold | ⟨hstatus, -⟩
      · rcases (Table.mem_insert ht).1 hold with hold | rfl
        · exact h c' hold hactive (revokedInNewest_congr (newestManifest_other hs.manifests hid)
            (fun root => (hs.roots _ root).1) hrevoked)
        · exact absurd rfl hid
      · rw [hstatus] at hactive
        cases hactive

theorem noneRevoked_step {w : World cx} {e : Event} (hnext : NextCall (InsertsUnrevoked cx items) w e)
    (hw : Running items Disjoint (fun _ _ => True) (fun _ _ _ => True) (fun _ _ => True) w) (h : NoneRevoked cx items w.db) :
    NoneRevoked cx items (step cx items w e).db := by
  rcases step_effect (fun c _ => by cases c <;> trivial) hnext hw with hsame | ⟨c, hallowed, hcond, heffect⟩
  · rw [hsame]
    exact h
  · exact noneRevoked_effect hw.db hallowed hcond heffect h

/-- As long as no credential is stored that the newest manifest has come to revoke, no
active row is one the newest manifest of its identity revokes, whatever the order of the
sessions' calls. -/
theorem no_active_row_is_revoked (cx : Crypto) (items : CborItems) (evs : List Event) (hhonest : ∀ e ∈ evs, e.Honest cx items Disjoint)
    (hinserts : Trace.Meets (step cx items) (NextCall (InsertsUnrevoked cx items)) (start cx) evs) :
    NoneRevoked cx items (Trace.run (step cx items) (start cx) evs).db := by
  have hrun := Trace.invariant (I := fun w => Running items Disjoint (fun _ _ => True) (fun _ _ _ => True) (fun _ _ => True) w ∧
      NoneRevoked cx items w.db) (fun w e he hw =>
        ⟨running_step (admission_any _) handshake_any he.1 (nextCall_any w e) hw.1, noneRevoked_step he.2 hw.1 hw.2⟩)
    (hinserts.and_mem hhonest) ⟨running_start, fun c hc => absurd hc (Table.not_mem_empty c)⟩
  exact hrun.2

theorem revokedInNewest_iff {db : Db} {identityId hash : Bytes} :
    RevokedInNewest cx items db identityId hash ↔
      ∃ body ∈ (newestManifest db identityId).bind (verifiedBody cx items db), hash ∈ body.revokedCredentialHashes := by
  simp only [RevokedInNewest, Option.mem_def, Option.bind_eq_some_iff, verifiedBody_eq_some]
  constructor
  · rintro ⟨m, root, body, hm, hroot, hbody, hmem⟩
    obtain ⟨⟨-, rfl⟩, -⟩ := newestManifest_eq_some.1 hm
    exact ⟨body, ⟨m, hm, root, hroot, hbody⟩, hmem⟩
  · rintro ⟨body, ⟨m, hm, root, hroot, hbody⟩, hmem⟩
    obtain ⟨⟨-, rfl⟩, -⟩ := newestManifest_eq_some.1 hm
    exact ⟨m, root, body, hm, hroot, hbody, hmem⟩

instance (db : Db) (identityId hash : Bytes) : Decidable (RevokedInNewest cx items db identityId hash) :=
  decidable_of_iff _ revokedInNewest_iff.symm

instance (db : Db) : Decidable (NoneRevoked cx items db) :=
  decidable_of_iff (∀ c ∈ db.credentials.rows, c.status = .active → ¬ RevokedInNewest cx items db c.identityId c.credentialHash) Iff.rfl

theorem insertsUnrevoked_iff {c : Call} {db : Db} :
    InsertsUnrevoked cx items c db ↔ ∀ e ∈ c.stored, ¬ RevokedInNewest cx items db e.identityId e.credentialHash := by
  cases c <;> simp [InsertsUnrevoked, Call.stored]

instance (c : Call) (db : Db) : Decidable (InsertsUnrevoked cx items c db) := decidable_of_iff _ insertsUnrevoked_iff.symm

instance (body : DeviceManifest) : Decidable (Disjoint body) :=
  inferInstanceAs (Decidable (∀ h ∈ body.activeCredentialHashes, h ∉ body.revokedCredentialHashes))

open Demo

theorem honest_of_reads {evs : List Event}
    (h : ∀ e ∈ evs, ∀ m ∈ e.manifests, ∀ body ∈ readManifest cborItems m, Disjoint body) :
    ∀ e ∈ evs, e.Honest cborCrypto cborItems Disjoint := fun e he => honest_of_read (h e he)

def secondSession : List Event := enrolls ++ ([.connect (deviceKey 10) 5, .advance 1] : List Event)

/-- The second device is linked, and revoked over the other session between the check of
its credential and the insert. -/
def missed : List Event := secondSession ++
  ([.frame 0 (.manifestPut manifestTwo) 5, .advance 0, .advance 0, .frame 0 (.credentialPut (deviceCredential 20)) 5, .advance 0,
    .advance 0, .frame 1 (.manifestPut manifestThree) 5, .advance 1, .advance 1, .advance 0] : List Event)

theorem missed_revocation :
    ¬ ∀ evs : List Event, (∀ e ∈ evs, e.Honest cborCrypto cborItems Disjoint) → NoneRevoked cborCrypto cborItems (realmRun evs).db := by
  intro h
  have hrun : (∀ e ∈ missed, ∀ m ∈ e.manifests, ∀ body ∈ readManifest cborItems m, Disjoint body) ∧
      ¬ NoneRevoked cborCrypto cborItems (realmRun missed).db := by decide +kernel
  obtain ⟨hhonest, hrevoked⟩ := hrun
  exact hrevoked (h missed (honest_of_reads hhonest))

/-- The same with the insert before the revocation. -/
def revokedInTime : List Event := secondSession ++
  ([.frame 0 (.manifestPut manifestTwo) 5, .advance 0, .advance 0, .frame 0 (.credentialPut (deviceCredential 20)) 5, .advance 0,
    .advance 0, .advance 0, .frame 1 (.manifestPut manifestThree) 5, .advance 1, .advance 1] : List Event)

theorem revoked_in_time : (realmRun revokedInTime).db.credentials.rows.map (·.status) = [.active, .revoked] ∧
    NoneRevoked cborCrypto cborItems (realmRun revokedInTime).db := by
  have hrun : (∀ e ∈ revokedInTime, ∀ m ∈ e.manifests, ∀ body ∈ readManifest cborItems m, Disjoint body) ∧
      Trace.Meets (step cborCrypto cborItems) (NextCall (InsertsUnrevoked cborCrypto cborItems)) (start cborCrypto) revokedInTime ∧
      (realmRun revokedInTime).db.credentials.rows.map (·.status) = [.active, .revoked] := by decide +kernel
  obtain ⟨hhonest, hinserts, hstatus⟩ := hrun
  exact ⟨hstatus, no_active_row_is_revoked cborCrypto cborItems revokedInTime (honest_of_reads hhonest) hinserts⟩

end Arveil.RelayServer

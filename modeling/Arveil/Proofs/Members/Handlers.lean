import Arveil.Proofs.RelayStore

/-! `Later` is what the store never takes back and `Allowed` what a handler has checked before it
calls. The frames that leave the members' tables alone call nothing else. -/

namespace Arveil.RelayServer

open RelayStore

variable {cx : Crypto} {items : CborItems} {Fair : DeviceManifest → Prop}

structure Later (db db' : Db) : Prop where
  roots : ∀ identityId root, HasRoot db identityId root → HasRoot db' identityId root
  credentials : ∀ c ∈ db.credentials, c ∈ db'.credentials ∨ { c with status := .revoked } ∈ db'.credentials
  manifests : ∀ m ∈ db.manifests, m ∈ db'.manifests

theorem Later.refl (db : Db) : Later db db := ⟨fun _ _ h => h, fun _ h => Or.inl h, fun _ h => h⟩

theorem Later.trans (a b c : Db) (h : Later a b) (h' : Later b c) : Later a c where
  roots i r hr := h'.roots i r (h.roots i r hr)
  credentials r hr := by
    rcases h.credentials r hr with hr | hr
    · exact h'.credentials r hr
    · rcases h'.credentials _ hr with hr | hr
      · exact Or.inr hr
      · exact Or.inr (by simpa using hr)
  manifests m hm := h'.manifests m (h.manifests m hm)

theorem kept_insert {t t' : Table CredentialRow.credentialHash} {row : CredentialRow} (h : t.insert row = some t') :
    ∀ c ∈ t, c ∈ t' ∨ { c with status := .revoked } ∈ t' := fun _ hc => Or.inl ((Table.mem_insert h).2 (Or.inl hc))

theorem later_effect {c : Call} {db db' : Db} (h : Effect c db db') : Later db db' := by
  cases h with
  | same h => exact ⟨fun i r => (h.roots i r).2, fun c hc => Or.inl (h.credentials ▸ hc), fun m hm => h.manifests ▸ hm⟩
  | redeemed h =>
    exact ⟨fun i r hr => (h.roots i r).2 (Or.inl hr), kept_insert h.credentials,
      fun m hm => (Table.mem_insert h.manifests).2 (Or.inl hm)⟩
  | registered h => exact ⟨fun i r => (h.roots i r).2, kept_insert h.credentials, fun m hm => h.manifests ▸ hm⟩
  | published h =>
    refine ⟨fun i r => (h.roots i r).2, h.credentials.kept, fun m hm => ?_⟩
    rcases h.manifests with hsame | hins
    · exact hsame ▸ hm
    · exact (Table.mem_insert hins).2 (Or.inl hm)
  | recovered h =>
    obtain ⟨t, ht, hrev⟩ := h.credentials
    exact ⟨fun i r => (h.roots i r).2, fun c hc => hrev.kept c ((Table.mem_insert ht).2 (Or.inl hc)),
      fun m hm => (Table.mem_insert h.manifests).2 (Or.inl hm)⟩

theorem later_call (c : Call) (db : Db) : Later db (c.prog cx.sha256 db).2 := later_effect (call_effect c db)

/-- What is registered is what a credential that verified says. -/
def Certified (cx : Crypto) (items : CborItems) (signed hash identityId deviceId transportKey : Bytes) : Prop :=
  ∃ v now, RelayIdentity.verifyCredential cx items signed now = .ok v ∧ v.hash = hash ∧ v.identityId = identityId ∧
    v.credential.deviceId = deviceId ∧ v.credential.transportNoisePublicKey = transportKey

def CertifiedEnrollment (cx : Crypto) (items : CborItems) (e : Enrollment) : Prop :=
  Certified cx items e.signedCred e.credentialHash e.identityId e.deviceId e.transportKey

/-- A manifest that verified under a root, with what it revokes. -/
def Signed (cx : Crypto) (items : CborItems) (root signed : Bytes) (body : DeviceManifest) : Prop :=
  RelayIdentity.verifyManifest cx items signed root = .ok body

def Allowed (cx : Crypto) (items : CborItems) (Fair : DeviceManifest → Prop) : Call → Db → Prop
  | .redeemInvite _ _ e, _ => CertifiedEnrollment cx items e ∧ e.identityId = Identity.identityId cx e.rootPublic ∧
      ∃ body, Signed cx items e.rootPublic e.signedManifest body ∧ e.credentialHash ∈ body.activeCredentialHashes ∧ Fair body ∧
        body.manifestSequence = e.manifestSeq
  | .putCredential e, _ => CertifiedEnrollment cx items e
  | .publishManifest identityId seq signed revoked, db => ∃ root body, HasRoot db identityId root ∧
      Signed cx items root signed body ∧ body.revokedCredentialHashes = revoked ∧ body.manifestSequence = seq
  | .recoverIdentity e revoked _, db => CertifiedEnrollment cx items e ∧ ∃ root body, HasRoot db e.identityId root ∧
      Signed cx items root e.signedManifest body ∧ body.revokedCredentialHashes = revoked ∧
      e.credentialHash ∈ body.activeCredentialHashes ∧ Fair body ∧ body.manifestSequence = e.manifestSeq
  | _, _ => True

structure Consistent (cx : Crypto) (items : CborItems) (db : Db) : Prop where
  roots : ∀ identityId root, HasRoot db identityId root → identityId = Identity.identityId cx root
  credentials : ∀ c ∈ db.credentials, isMember db c.identityId ∧
    Certified cx items c.signed c.credentialHash c.identityId c.deviceId c.transportKey
  manifests : ∀ m ∈ db.manifests, ∃ root body, HasRoot db m.identityId root ∧ Signed cx items root m.signed body
  redemptions : ∀ r ∈ db.redemptions, ∃ c ∈ db.credentials, c.credentialHash = r.credentialHash ∧ c.identityId = r.identityId

theorem consistent_empty : Consistent cx items .empty where
  roots _ _ h := by
    obtain ⟨m, hm, -⟩ := h
    exact absurd hm (Table.not_mem_empty m)
  credentials c hc := absurd hc (Table.not_mem_empty c)
  manifests m hm := absurd hm (Table.not_mem_empty m)
  redemptions r hr := absurd hr (Table.not_mem_empty r)

theorem isMember_later {db db' : Db} (h : Later db db') {identityId : Bytes} (hm : isMember db identityId) :
    isMember db' identityId := by
  obtain ⟨root, hr⟩ := isMember_iff.1 hm
  exact isMember_iff.2 ⟨root, h.roots _ _ hr⟩

theorem credentials_later {db db' : Db} (hl : Later db db') (h : Consistent cx items db)
    (hnew : ∀ c ∈ db'.credentials, (∃ c₀ ∈ db.credentials, c = c₀ ∨ c = { c₀ with status := .revoked }) ∨
      (isMember db' c.identityId ∧ Certified cx items c.signed c.credentialHash c.identityId c.deviceId c.transportKey)) :
    ∀ c ∈ db'.credentials, isMember db' c.identityId ∧
      Certified cx items c.signed c.credentialHash c.identityId c.deviceId c.transportKey := by
  intro c hc
  rcases hnew c hc with ⟨c₀, hc₀, rfl | rfl⟩ | hnew
  · exact ⟨isMember_later hl (h.credentials c hc₀).1, (h.credentials c hc₀).2⟩
  · exact ⟨isMember_later hl (h.credentials c₀ hc₀).1, (h.credentials c₀ hc₀).2⟩
  · exact hnew

theorem manifests_later {db db' : Db} (hl : Later db db') (h : Consistent cx items db)
    (hnew : ∀ m ∈ db'.manifests, m ∈ db.manifests ∨ ∃ root body, HasRoot db' m.identityId root ∧ Signed cx items root m.signed body) :
    ∀ m ∈ db'.manifests, ∃ root body, HasRoot db' m.identityId root ∧ Signed cx items root m.signed body := by
  intro m hm
  rcases hnew m hm with hm | hnew
  · obtain ⟨root, body, hroot, hsigned⟩ := h.manifests m hm
    exact ⟨root, body, hl.roots _ _ hroot, hsigned⟩
  · exact hnew

theorem redemptions_later {db db' : Db} (hl : Later db db') (h : Consistent cx items db)
    (hnew : ∀ r ∈ db'.redemptions, r ∈ db.redemptions ∨
      ∃ c ∈ db'.credentials, c.credentialHash = r.credentialHash ∧ c.identityId = r.identityId) :
    ∀ r ∈ db'.redemptions, ∃ c ∈ db'.credentials, c.credentialHash = r.credentialHash ∧ c.identityId = r.identityId := by
  intro r hr
  rcases hnew r hr with hr | hnew
  · obtain ⟨c, hc, hhash, hid⟩ := h.redemptions r hr
    rcases hl.credentials c hc with hc | hc
    · exact ⟨c, hc, hhash, hid⟩
    · exact ⟨_, hc, hhash, hid⟩
  · exact hnew

theorem consistent_effect {c : Call} {db db' : Db} (hallowed : Allowed cx items Fair c db) (heffect : Effect c db db')
    (h : Consistent cx items db) : Consistent cx items db' := by
  have hl := later_effect heffect
  cases heffect with
  | same hs =>
    refine ⟨fun i r hr => h.roots i r ((hs.roots i r).1 hr), ?_, ?_, ?_⟩
    · exact credentials_later hl h fun c hc => Or.inl ⟨c, hs.credentials ▸ hc, Or.inl rfl⟩
    · exact manifests_later hl h fun m hm => Or.inl (hs.manifests ▸ hm)
    · refine redemptions_later hl h fun r hr => (hs.redemptions r hr).imp_right fun ⟨c, hc, hrow⟩ => ⟨c, ?_, hrow⟩
      exact hs.credentials ▸ hc
  | @redeemed tokenHash now e _ _ hs =>
    obtain ⟨hcert, hid, body, hsigned, -⟩ := hallowed
    have hroot : HasRoot db' e.identityId e.rootPublic := (hs.roots _ _).2 (Or.inr ⟨rfl, rfl⟩)
    refine ⟨fun i r hr => ?_, ?_, ?_, ?_⟩
    · rcases (hs.roots i r).1 hr with hr | ⟨rfl, rfl⟩
      · exact h.roots i r hr
      · exact hid
    · refine credentials_later hl h fun c hc => ?_
      rcases (Table.mem_insert hs.credentials).1 hc with hc | rfl
      · exact Or.inl ⟨c, hc, Or.inl rfl⟩
      · exact Or.inr ⟨isMember_iff.2 ⟨_, hroot⟩, hcert⟩
    · refine manifests_later hl h fun m hm => ?_
      rcases (Table.mem_insert hs.manifests).1 hm with hm | rfl
      · exact Or.inl hm
      · exact Or.inr ⟨e.rootPublic, body, hroot, hsigned⟩
    · refine redemptions_later hl h fun r hr => ?_
      rcases (Table.mem_insert hs.redemptions).1 hr with hr | rfl
      · exact Or.inl hr
      · exact Or.inr ⟨e.row, (Table.mem_insert hs.credentials).2 (Or.inr rfl), rfl, rfl⟩
  | registered hs =>
    refine ⟨fun i r hr => h.roots i r ((hs.roots i r).1 hr), ?_, ?_, ?_⟩
    · refine credentials_later hl h fun c hc => ?_
      rcases (Table.mem_insert hs.credentials).1 hc with hc | rfl
      · exact Or.inl ⟨c, hc, Or.inl rfl⟩
      · exact Or.inr ⟨isMember_later hl hs.member, hallowed⟩
    · exact manifests_later hl h fun m hm => Or.inl (hs.manifests ▸ hm)
    · exact redemptions_later hl h fun r hr => Or.inl (hs.redemptions ▸ hr)
  | published hs =>
    obtain ⟨root, body, hroot, hsigned, -⟩ := hallowed
    refine ⟨fun i r hr => h.roots i r ((hs.roots i r).1 hr), ?_, ?_, ?_⟩
    · refine credentials_later hl h fun c hc => Or.inl ?_
      rcases hs.credentials.from_ c hc with hc | ⟨-, -, -, c₀, hc₀, rfl⟩
      · exact ⟨c, hc, Or.inl rfl⟩
      · exact ⟨c₀, hc₀, Or.inr rfl⟩
    · refine manifests_later hl h fun m hm => ?_
      rcases hs.manifests with hsame | hins
      · exact Or.inl (hsame ▸ hm)
      · rcases (Table.mem_insert hins).1 hm with hm | rfl
        · exact Or.inl hm
        · exact Or.inr ⟨root, body, hl.roots _ _ hroot, hsigned⟩
    · exact redemptions_later hl h fun r hr => Or.inl (hs.redemptions ▸ hr)
  | recovered hs =>
    obtain ⟨hcert, root, body, hroot, hsigned, -⟩ := hallowed
    obtain ⟨t, ht, hrev⟩ := hs.credentials
    refine ⟨fun i r hr => h.roots i r ((hs.roots i r).1 hr), ?_, ?_, ?_⟩
    · have hfrom : ∀ c ∈ t, c ∈ db.credentials ∨ c = _ := fun c hc => (Table.mem_insert ht).1 hc
      refine credentials_later hl h fun c hc => ?_
      rcases hrev.from_ c hc with hc | ⟨-, -, -, c₀, hc₀, rfl⟩
      · rcases hfrom c hc with hc | rfl
        · exact Or.inl ⟨c, hc, Or.inl rfl⟩
        · exact Or.inr ⟨isMember_later hl hs.member, hcert⟩
      · rcases hfrom c₀ hc₀ with hc₀ | rfl
        · exact Or.inl ⟨c₀, hc₀, Or.inr rfl⟩
        · exact Or.inr ⟨isMember_later hl hs.member, hcert⟩
    · refine manifests_later hl h fun m hm => ?_
      rcases (Table.mem_insert hs.manifests).1 hm with hm | rfl
      · exact Or.inl hm
      · exact Or.inr ⟨root, body, hl.roots _ _ hroot, hsigned⟩
    · exact redemptions_later hl h fun r hr => Or.inl (hs.redemptions ▸ hr)

/-- What a handler may find when it calls. -/
def Reached (cx : Crypto) (items : CborItems) (db db' : Db) : Prop := Later db db' ∧ Consistent cx items db'

theorem Reached.trans (a b c : Db) (h : Reached cx items a b) (h' : Reached cx items b c) : Reached cx items a c :=
  ⟨Later.trans _ _ _ h.1 h'.1, h'.2⟩

/-- A handler whose calls need nothing and that admits nobody. -/
def Plain (cx : Crypto) (items : CborItems) (Fair : DeviceManifest → Prop) : Handles cx Outcome → Prop
  | .done o => o.device = none
  | .call c k => (∀ db, Allowed cx items Fair c db) ∧ ∀ r, Plain cx items Fair (k r)

abbrev SoundHandler (cx : Crypto) (items : CborItems) (Fair : DeviceManifest → Prop) (Cond : Call → Db → Prop) {α : Type} (Q : α → Db → Prop)
    (h : Handles cx α) (db : Db) : Prop :=
  Handler.Sound (Reached cx items) (Allowed cx items Fair) Cond Q h db

variable {Cond : Call → Db → Prop} {Q : Outcome → Db → Prop}

theorem sound_of_plain (hnone : ∀ o db, o.device = none → Q o db) {h : Handles cx Outcome} (hp : Plain cx items Fair h) (db : Db) :
    SoundHandler cx items Fair Cond Q h db := by
  induction h generalizing db with
  | done o => exact hnone o db hp
  | call c k ih => exact fun db' _ => ⟨hp.1 db', fun _ => ih _ (hp.2 _) _⟩

theorem plain_refuse (code : Nat) (message : String) : Plain cx items Fair (refuse cx code message) := rfl

theorem plain_answer (a : Answer) : Plain cx items Fair (answer cx a) := rfl

theorem plain_ask {c : Call} {k : Except StoreError c.Result → Handles cx Outcome} (hc : ∀ db, Allowed cx items Fair c db)
    (hk : ∀ r, Plain cx items Fair (k r)) : Plain cx items Fair (ask cx c >>= k) := ⟨hc, hk⟩

theorem plain_whenMember {s : Session} {k : Device → Handles cx Outcome} (hk : ∀ d, Plain cx items Fair (k d)) :
    Plain cx items Fair (whenMember cx s k) := by
  unfold whenMember
  cases s.device with
  | none => exact plain_refuse _ _
  | some d => exact hk d

theorem plain_call {c : Call} {k : Except StoreError c.Result → Handles cx Outcome}
    (herror : ∀ e, Plain cx items Fair (k (.error e))) (hok : ∀ r, Plain cx items Fair (k (.ok r)))
    (hc : ∀ db, Allowed cx items Fair c db := by exact fun _ => trivial) : Plain cx items Fair (ask cx c >>= k) := by
  refine plain_ask hc fun r => ?_
  cases r with
  | error e => exact herror e
  | ok r => exact hok r

theorem plain_invitationCall {c : Call} (k : c.Result → Answer)
    (hc : ∀ db, Allowed cx items Fair c db := by exact fun _ => trivial) : Plain cx items Fair (invitationCall cx c k) := by
  refine plain_call (fun e => ?_) (fun _ => plain_answer _) hc
  cases e <;> exact plain_refuse _ _

theorem plain_blobError (e : StoreError) : Plain cx items Fair (blobError cx e) := by
  cases e <;> exact plain_refuse _ _

theorem plain_blobCall {c : Call} {k : c.Result → Handles cx Outcome} (hk : ∀ r, Plain cx items Fair (k r))
    (hc : ∀ db, Allowed cx items Fair c db := by exact fun _ => trivial) : Plain cx items Fair (blobCall cx c k) :=
  plain_call plain_blobError hk hc

def Frame.plain : Frame → Bool
  | .inviteRedeem .. | .credentialPut .. | .manifestPut .. | .recoverIdentity .. => false
  | _ => true

theorem plain_dispatchSession {s : Session} {f : Frame} {now : Int} (hf : f.plain = true) :
    Plain cx items Fair (dispatchSession cx items s f now) := by
  cases f with
  | inviteRedeem => cases hf
  | credentialPut => cases hf
  | manifestPut => cases hf
  | recoverIdentity => cases hf
  | ping => exact plain_answer _
  | endpointListGet => exact plain_answer _
  | manifestGet id => exact plain_whenMember fun _ => plain_call (fun _ => plain_refuse _ _) fun _ => plain_answer _
  | credentialGet id hash =>
    exact plain_whenMember fun _ => plain_call (fun _ => plain_refuse _ _) fun _ => plain_answer _
  | notifyHintSet url valid =>
    refine plain_whenMember fun _ => ?_
    split
    · exact plain_refuse _ _
    · exact plain_call (fun _ => plain_refuse _ _) fun _ => plain_answer _
  | watchKeySet key =>
    refine plain_whenMember fun _ => plain_call (fun e => ?_) fun _ => plain_answer _
    cases e <;> exact plain_refuse _ _
  | blobUploadBegin size id readCap =>
    refine plain_whenMember fun _ => ?_
    split
    · exact plain_blobError _
    · refine plain_blobCall fun used => ?_
      split
      · exact plain_blobError _
      · exact plain_blobCall fun _ => plain_blobCall fun _ => plain_answer _
  | blobChunk id offset data =>
    refine plain_whenMember fun _ => ?_
    split
    · exact plain_blobError _
    · refine plain_blobCall fun b => ?_
      split_ifs
      · exact plain_blobError _
      · exact plain_blobError _
      · exact plain_blobError _
      · exact plain_blobCall fun _ => plain_blobCall fun _ => plain_answer _
  | blobCommit id hash expiry =>
    refine plain_whenMember fun _ => plain_blobCall fun b => ?_
    split_ifs
    · exact plain_blobError _
    · exact plain_blobError _
    · refine plain_blobCall fun content => ?_
      split
      · exact plain_blobError _
      · exact plain_blobCall fun _ => plain_blobCall fun _ => plain_answer _
  | blobFetch id cap offset length =>
    refine plain_whenMember fun _ => plain_blobCall fun b => ?_
    split_ifs
    · exact plain_blobError _
    · exact plain_answer _
    · exact plain_blobCall fun _ => plain_answer _
    · exact plain_blobCall fun _ => plain_answer _
  | blobResume id =>
    refine plain_whenMember fun _ => plain_blobCall fun b => ?_
    split
    · exact plain_blobError _
    · exact plain_answer _
  | keyPackagesPublish packages =>
    refine plain_whenMember fun _ => plain_call (fun e => ?_) fun _ => plain_answer _
    cases e <;> exact plain_refuse _ _
  | keyPackagesStatus =>
    exact plain_whenMember fun _ => plain_call (fun _ => plain_refuse _ _) fun _ => plain_answer _
  | keyPackagesClaim id device =>
    refine plain_whenMember fun _ => plain_call (fun e => ?_) fun _ => plain_answer _
    cases e <;> exact plain_refuse _ _
  | mailboxCreate requestKey readCap writeCap id drawnRead drawnWrite =>
    refine plain_whenMember fun _ => ?_
    split_ifs
    · exact plain_call (fun _ => plain_refuse _ _) fun _ => plain_answer _
    · exact plain_refuse _ _
    · exact plain_refuse _ _
    · exact plain_refuse _ _
    · refine plain_call (fun e => ?_) fun _ => plain_answer _
      cases e <;> exact plain_refuse _ _
  | envelopePut mailbox cap delivery enc text expiry =>
    refine plain_whenMember fun _ => plain_call (fun _ => plain_refuse _ _) fun _ =>
      plain_call (fun e => ?_) fun _ => plain_answer _
    cases e <;> exact plain_refuse _ _
  | envelopeFetch mailbox cap cursor limit =>
    exact plain_whenMember fun _ => plain_call (fun _ => plain_refuse _ _) fun _ =>
      plain_call (fun _ => plain_refuse _ _) fun _ => plain_answer _
  | envelopeAck mailbox cap ids =>
    exact plain_whenMember fun _ => plain_call (fun _ => plain_refuse _ _) fun _ =>
      plain_call (fun _ => plain_refuse _ _) fun _ => plain_answer _
  | invitePolicyGet => exact plain_whenMember fun _ => plain_invitationCall _
  | inviteCreate key hash ttl => exact plain_whenMember fun _ => plain_invitationCall _
  | inviteList cursor limit => exact plain_whenMember fun _ => plain_invitationCall _
  | inviteGet id =>
    refine plain_whenMember fun _ => ?_
    dsimp only [invitation]
    split
    · exact plain_refuse _ _
    · exact plain_invitationCall _
  | inviteRevoke id =>
    refine plain_whenMember fun _ => ?_
    dsimp only [invitation]
    split
    · exact plain_refuse _ _
    · exact plain_invitationCall _
  | inviteAccept token =>
    refine plain_whenMember fun _ => ?_
    dsimp only [invitation]
    split
    · exact plain_refuse _ _
    · exact plain_invitationCall _
  | keyPackagesClaimOnce key id device => exact plain_whenMember fun _ => plain_invitationCall _

end Arveil.RelayServer

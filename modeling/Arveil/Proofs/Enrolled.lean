import Arveil.Proofs.Encodings
import Arveil.Proofs.Identity
import Arveil.Proofs.Linking

/-! What the relay keeps of an enrolled administrator, and when it takes what the
administrator sends. A membership is never ended and a transport key never changes hands; a
manifest is taken that is no older than the newest, and a credential that the newest
manifest lists. -/

namespace Arveil.RelayStore

open Prog

/-- An active member under a root, one of whose devices has the transport key. -/
structure Enrolled (identityId root key : Bytes) (db : Db) : Prop where
  member : ∃ m ∈ db.memberships, m.identityId = identityId ∧ m.rootPublic = root ∧ m.status = .active
  known : ∃ c ∈ db.credentials, c.transportKey = key
  own : ∀ c ∈ db.credentials, c.transportKey = key → c.identityId = identityId

section stays

variable {identityId root key : Bytes} {α : Type}

abbrev Stays (identityId root key : Bytes) (db db' : Db) : Prop :=
  Enrolled identityId root key db → Enrolled identityId root key db'

theorem stays_refl (db : Db) : Stays identityId root key db db := id

theorem stays_trans (a b c : Db) (h : Stays identityId root key a b) (h' : Stays identityId root key b c) :
    Stays identityId root key a c := h' ∘ h

def enrolledRows (db : Db) := (db.memberships, db.credentials)

theorem stays_of_fixes {p : Txn α} (h : Fixes enrolledRows p) : Keeps (Stays identityId root key) p := by
  intro db he
  obtain ⟨hm, hc⟩ := Prod.mk.inj (h db)
  exact ⟨hm ▸ he.member, hc ▸ he.known, hc ▸ he.own⟩

theorem stays_insertRow {ρ : Type} {e : StoreError} {f : ρ → Db → Option Db} {row : ρ}
    (h : ∀ db db', f row db = some db' → Stays identityId root key db db') :
    Keeps (Stays identityId root key) (insertRow e f row) := by
  refine keeps_tryModify stays_refl fun db db' hf => ?_
  cases hr : f row db with
  | none => simp [hr] at hf
  | some db₁ =>
    obtain rfl : db₁ = db' := by simpa [hr] using hf
    exact h db db₁ hr

theorem addCredential_free {e : Enrollment} {db db' : Db} (h : addCredential e db = some db') :
    ∀ c ∈ db.credentials, c.transportKey ≠ e.transportKey := by
  intro c hc heq
  unfold addCredential at h
  rw [if_pos (c := db.credentials.rows.any (fun c => c.transportKey = e.transportKey) = true)
    (List.any_eq_true.2 ⟨c, hc, by simpa using heq⟩)] at h
  split at h
  · cases h
  · split at h <;> cases h

theorem stays_addCredential {e : Enrollment} {db db' : Db} (h : addCredential e db = some db') :
    Stays identityId root key db db' := by
  intro he
  have hfree := addCredential_free h
  obtain ⟨-, t, ht, rfl⟩ := addCredential_eq_some h
  obtain ⟨c, hc, hkey⟩ := he.known
  refine ⟨he.member, ⟨c, (Table.mem_insert ht).2 (Or.inl hc), hkey⟩, fun c' hc' hkey' => ?_⟩
  rcases (Table.mem_insert ht).1 hc' with hold | rfl
  · exact he.own c' hold hkey'
  · exact absurd (hkey.trans hkey'.symm) (hfree c hc)

theorem stays_addMembership {row : MembershipRow} {db db' : Db} (h : addMembership row db = some db') :
    Stays identityId root key db db' := by
  intro he
  obtain ⟨t, ht, rfl⟩ := addMembership_eq_some h
  obtain ⟨m, hm, hrest⟩ := he.member
  exact ⟨⟨m, (Table.mem_insert ht).2 (Or.inl hm), hrest⟩, he.known, he.own⟩

theorem stays_addManifest {row : ManifestRow} {db db' : Db} (h : addManifest row db = some db') :
    Stays identityId root key db db' := by
  obtain ⟨-, t, -, rfl⟩ := addManifest_eq_some h
  exact fun he => ⟨he.member, he.known, he.own⟩

theorem stays_revokes {i : Bytes} {hashes : List Bytes} {db db' : Db} (hm : db'.memberships = db.memberships)
    (h : Revokes i hashes db.credentials db'.credentials) : Stays identityId root key db db' := by
  intro he
  obtain ⟨c, hc, hkey⟩ := he.known
  refine ⟨hm ▸ he.member, ?_, fun c' hc' hkey' => ?_⟩
  · rcases h.kept c hc with hc' | hc'
    · exact ⟨c, hc', hkey⟩
    · exact ⟨_, hc', hkey⟩
  · rcases h.from_ c' hc' with hold | ⟨-, -, -, c₀, hc₀, rfl⟩
    · exact he.own c' hold hkey'
    · exact he.own c₀ hc₀ hkey'

theorem stays_redeemInvite (tokenHash : Bytes) (now : Int) (e : Enrollment) :
    Keeps (Stays identityId root key) (redeemInvite tokenHash now e) := by
  refine keeps_unitOfWork stays_refl (keeps_bind stays_trans (keeps_read stays_refl _) fun o => ?_)
  cases o with
  | some r => exact keeps_fail stays_refl _
  | none =>
    refine keeps_bind stays_trans (stays_of_fixes (fixes_require _ _)) fun invite => ?_
    refine keeps_bind stays_trans (stays_of_fixes (fixes_modify fun _ => rfl)) fun _ => ?_
    refine keeps_bind stays_trans (stays_insertRow fun _ _ => stays_addMembership) fun _ => ?_
    refine keeps_bind stays_trans (stays_insertRow fun _ _ => stays_addCredential) fun _ => ?_
    refine keeps_bind stays_trans (stays_insertRow fun _ _ => stays_addManifest) fun _ => ?_
    refine keeps_bind stays_trans (stays_of_fixes (fixes_insertRow fun db db' h => ?_)) fun _ =>
      stays_of_fixes (fixes_modify fun _ => rfl)
    obtain ⟨t, -, rfl⟩ := addRedemption_eq_some h
    rfl

theorem stays_publishManifest (i : Bytes) (seq : UInt64) (signed : Bytes) (revoked : List Bytes) :
    Keeps (Stays identityId root key) (publishManifest i seq signed revoked) := by
  refine keeps_unitOfWork stays_refl (keeps_bind stays_trans (keeps_read stays_refl _) fun newest => ?_)
  refine keeps_bind stays_trans (keeps_when stays_refl _ (keeps_fail stays_refl _)) fun _ => ?_
  refine keeps_bind stays_trans (keeps_when stays_refl _ (stays_insertRow fun _ _ => stays_addManifest)) fun _ db => ?_
  obtain ⟨hrevokes, hun⟩ := revokeEach_spec i revoked db
  exact stays_revokes (Prod.mk.inj hun).1 hrevokes

theorem stays_recoverIdentity (e : Enrollment) (revoked : List Bytes) (now : Int) :
    Keeps (Stays identityId root key) (recoverIdentity e revoked now) := by
  refine keeps_unitOfWork stays_refl (keeps_bind stays_trans (keeps_read stays_refl _) fun o => ?_)
  rcases o with _ | ⟨r, c⟩
  · refine keeps_bind stays_trans (keeps_read stays_refl _) fun previous => ?_
    refine keeps_bind stays_trans (keeps_when stays_refl _ (keeps_fail stays_refl _)) fun _ => ?_
    refine keeps_bind stays_trans (stays_insertRow fun _ _ => stays_addManifest) fun _ => ?_
    refine keeps_bind stays_trans (stays_insertRow fun _ _ => stays_addCredential) fun _ => ?_
    refine keeps_bind stays_trans (keeps_modify fun db => ?_) fun _ => ?_
    · obtain ⟨hrevokes, hun⟩ := revokeAgain_spec e.identityId revoked db
      exact stays_revokes (Prod.mk.inj hun).1 hrevokes
    refine keeps_bind stays_trans (stays_of_fixes (fixes_insertRow fun db db' h => ?_)) fun _ => keeps_pure stays_refl _
    unfold addRecovery at h
    split at h
    · cases h
    · obtain ⟨t, -, rfl⟩ := Option.map_eq_some_iff.1 h
      rfl
  · dsimp only
    split
    · exact keeps_fail stays_refl _
    · exact keeps_pure stays_refl _

theorem stays_acceptInvitation (credential hash : Bytes) (now : Int) :
    Keeps (Stays identityId root key) (acceptInvitation credential hash now) := by
  refine stays_of_fixes (fixes_unitOfWork (fixes_bind (fixes_activeRole _ _) fun a => ?_))
  refine fixes_bind (fixes_require _ _) fun row => fixes_bind (fixes_when _ (fixes_fail _)) fun _ => ?_
  dsimp only
  split
  · refine fixes_bind (fixes_read _) fun mine => ?_
    split
    · exact fixes_pure _
    · exact fixes_fail _
  · split
    · exact fixes_fail _
    · refine fixes_bind (fixes_modify fun _ => rfl) fun _ => fixes_bind (fixes_modify fun _ => rfl) fun _ => ?_
      refine fixes_bind (fixes_insertRow fun db db' h => ?_) fun _ => fixes_pure _
      obtain ⟨t, -, rfl⟩ := addRedemption_eq_some h
      rfl

theorem stays_makeOwner (identity : Bytes) : Keeps (Stays identityId root key) (makeOwner identity) := by
  refine keeps_unitOfWork stays_refl (keeps_bind stays_trans (stays_of_fixes (fixes_require _ _)) fun _ => ?_)
  refine keeps_modify fun db he => ⟨?_, he.known, he.own⟩
  obtain ⟨m, hm, hid, hroot, hactive⟩ := he.member
  simp only [Table.mem_update]
  refine ⟨_, ⟨m, hm, rfl⟩, ?_⟩
  split <;> exact ⟨hid, hroot, hactive⟩

theorem enrolled_call {sha256 : Bytes → Bytes} (c : RelayServer.Call) {db : Db} (h : Enrolled identityId root key db) :
    Enrolled identityId root key (c.prog sha256 db).2 := by
  revert h
  cases c with
  | redeemInvite tokenHash now e => exact stays_redeemInvite tokenHash now e db
  | putCredential e => exact keeps_unitOfWork stays_refl (stays_insertRow fun _ _ => stays_addCredential) db
  | publishManifest i seq signed revoked => exact stays_publishManifest i seq signed revoked db
  | recoverIdentity e revoked now => exact stays_recoverIdentity e revoked now db
  | acceptInvitation credential hash now => exact stays_acceptInvitation credential hash now db
  | makeOwner identity => exact stays_makeOwner identity db
  | _ => exact stays_of_fixes ((fixes_members rfl).map fun v => (v.1, v.2.1)) db

end stays

/-- A manifest no older than the newest, and the same bytes if it is as old, is taken. -/
theorem publishManifest_taken {identityId signed : Bytes} {seq : UInt64} (revoked : List Bytes) {db : Db}
    (hmember : isMember db identityId) (hfits : seq.toNat < 2 ^ 63)
    (hnewest : ∀ m, newestManifest db identityId = some m → m.sequence ≤ seq.toNat ∧ (m.sequence = seq.toNat → m.signed = signed)) :
    ∃ n db', publishManifest identityId seq signed revoked db = (.ok n, db') := by
  have hadd : ∀ (hfree : ∀ m ∈ db.manifests, m.identityId = identityId → m.sequence ≠ seq.toNat),
      ∃ db', addManifest ⟨identityId, seq.toNat, signed⟩ db = some db' := by
    intro hfree
    have hins : ∃ t, db.manifests.insert ⟨identityId, seq.toNat, signed⟩ = some t := by
      rw [← Option.ne_none_iff_exists', ne_eq, Table.insert_eq_none]
      rintro ⟨m, hm, hkey⟩
      obtain ⟨hid, hseq⟩ := Prod.mk.inj hkey
      exact hfree m hm hid hseq
    obtain ⟨t, ht⟩ := hins
    refine ⟨{ db with manifests := t }, ?_⟩
    unfold addManifest
    rw [if_neg (by rintro (h | h); exacts [absurd hfits (by simpa using h), h hmember]), ht]
    rfl
  simp only [publishManifest, unitOfWork_eq_ok, bind_eq_ok, read_eq_ok, when_eq_ok, insertRow_eq_ok, revokeCredentials,
    Prod.mk.injEq]
  cases hn : newestManifest db identityId with
  | none =>
    obtain ⟨db₁, hdb₁⟩ := hadd fun m hm hid => absurd hid (newestManifest_eq_none.1 hn m hm)
    exact ⟨_, _, none, db, ⟨rfl, rfl⟩, (), db, Or.inr ⟨by simp, rfl⟩, (), db₁, Or.inl ⟨rfl, hdb₁⟩, rfl, rfl⟩
  | some m =>
    obtain ⟨hle, hsame⟩ := hnewest m hn
    have hkeep : ¬ ((some m).any (fun m => decide (seq.toNat < m.sequence) ||
        (decide (seq.toNat = m.sequence) && decide (m.signed ≠ signed))) = true) := by
      simp only [Option.any_some, Bool.or_eq_true, Bool.and_eq_true, decide_eq_true_eq, not_or, not_and, not_not]
      exact ⟨by omega, fun h => hsame h.symm⟩
    rcases Nat.lt_or_eq_of_le hle with hlt | heq
    · obtain ⟨db₁, hdb₁⟩ := hadd fun m' hm' hid' => by
        have := (newestManifest_eq_some.1 hn).2 m' hm' hid'
        omega
      exact ⟨_, _, some m, db, ⟨rfl, rfl⟩, (), db, Or.inr ⟨hkeep, rfl⟩, (), db₁, Or.inl ⟨by simpa using hlt, hdb₁⟩, rfl, rfl⟩
    · exact ⟨_, _, some m, db, ⟨rfl, rfl⟩, (), db, Or.inr ⟨hkeep, rfl⟩, (), db, Or.inr ⟨by simp [heq], rfl⟩, rfl, rfl⟩

/-- The keys of a credential are nobody else's. -/
def KeysFree (e : Enrollment) (db : Db) : Prop :=
  (∀ c ∈ db.credentials.rows, (c.deviceId = e.deviceId → c.identityId = e.identityId) ∧ c.transportKey ≠ e.transportKey ∧
    c.credentialHash ≠ e.credentialHash) ∧ ∀ w ∈ db.watchKeys.rows, w.watchKey ≠ e.transportKey

instance (e : Enrollment) (db : Db) : Decidable (KeysFree e db) := inferInstanceAs (Decidable (_ ∧ _))

theorem putCredential_taken {e : Enrollment} {db : Db} (hmember : isMember db e.identityId) (hfree : KeysFree e db) :
    ∃ db', putCredential e db = (.ok (), db') := by
  have hins : ∃ t, db.credentials.insert e.row = some t := by
    rw [← Option.ne_none_iff_exists', ne_eq, Table.insert_eq_none]
    rintro ⟨c, hc, hkey⟩
    exact (hfree.1 c hc).2.2 hkey
  obtain ⟨t, ht⟩ := hins
  refine ⟨{ db with credentials := t }, ?_⟩
  rw [putCredential, unitOfWork_eq_ok, insertCredential, insertRow_eq_ok]
  unfold addCredential
  have h₁ : ¬ (db.credentials.rows.any (fun c => c.deviceId = e.deviceId && c.identityId ≠ e.identityId) = true) := by
    simp only [List.any_eq_true, Bool.and_eq_true, decide_eq_true_eq, not_exists, not_and, not_not]
    exact fun c hc => (hfree.1 c hc).1
  have h₂ : ¬ (db.watchKeys.rows.any (fun w => w.watchKey = e.transportKey) = true) := by
    simp only [List.any_eq_true, decide_eq_true_eq, not_exists, not_and]
    exact hfree.2
  have h₃ : ¬ (db.credentials.rows.any (fun c => c.transportKey = e.transportKey) = true) := by
    simp only [List.any_eq_true, decide_eq_true_eq, not_exists, not_and]
    exact fun c hc => (hfree.1 c hc).2.1
  rw [if_neg h₁, if_neg h₂, if_neg h₃, if_neg (not_not.2 hmember)]
  exact congrArg (Option.map _) ht

end Arveil.RelayStore

namespace Arveil

/-- What the code relies on between the two sides: the relay reads what the core encodes,
and the public key of a seed is a key. -/
structure CborItems.Reads (items : CborItems) (cx : Crypto) : Prop where
  signed : ∀ so, unmarshal items.signed SignedFields.first (cx.encodeSigned so) = some so
  credential : ∀ c, unmarshal items.credential CredentialFields.first (cx.encodeCredential c) = some c
  manifest : ∀ m, unmarshal items.manifest ManifestFields.first (cx.encodeManifest m) = some m
  key : ∀ seed, (cx.publicKey seed).length = 32 ∧ cx.validKey (cx.publicKey seed) = true

namespace RelayIdentity

variable {cx : Crypto} {items : CborItems} (hcx : cx.Lawful) (hitems : items.Reads cx)

include hcx hitems

theorem openSigned_sign (context : String) (body seed : Bytes) :
    openSigned cx items (Identity.sign cx context body seed) context (cx.publicKey seed) = .ok body := by
  obtain ⟨hlength, hvalid⟩ := hitems.key seed
  have hverify : ed25519Verify cx (cx.publicKey seed) (Identity.signingInput context body)
      (cx.sign seed (Identity.signingInput context body)) = true := by
    simp [ed25519Verify, hvalid, hcx.sign_length, hcx.verify_sign]
  simp [openSigned, Identity.sign, hitems.signed, hlength, hverify]

theorem verifyManifest_sign {body : DeviceManifest} {seed : Bytes} (hversion : body.version = manifestVersion)
    (hid : body.identityId = Identity.identityId cx (cx.publicKey seed)) :
    verifyManifest cx items (Identity.sign cx manifestContext (cx.encodeManifest body) seed) (cx.publicKey seed) = .ok body := by
  simp [verifyManifest, openSigned_sign hcx hitems, hitems.manifest, hversion, hid]

theorem verifyCredential_issue {seed : Bytes} {device : DevicePublicKeys} {validity : Validity} {uses : UInt8} {now : UInt64}
    (hfrom : validity.notBefore ≤ now) (hto : now ≤ validity.notAfter) :
    ∃ v, verifyCredential cx items (Identity.issueCredential cx seed device validity uses) now = .ok v ∧
      v.root = cx.publicKey seed ∧ v.identityId = Identity.identityId cx (cx.publicKey seed) ∧
      v.hash = Identity.credentialHash cx (Identity.issueCredential cx seed device validity uses) ∧
      v.credential.deviceId = device.deviceId ∧ v.credential.transportNoisePublicKey = device.transportNoisePublicKey := by
  refine ⟨⟨⟨credentialVersion, cx.publicKey seed, device.deviceId, device.mlsSignaturePublicKey,
    device.transportNoisePublicKey, device.envelopeHpkePublicKey, validity, uses⟩, _, _, _⟩, ?_, rfl, rfl, rfl, rfl, rfl⟩
  have hopen := openSigned_sign hcx hitems credentialContext (cx.encodeCredential ⟨credentialVersion, cx.publicKey seed,
    device.deviceId, device.mlsSignaturePublicKey, device.transportNoisePublicKey, device.envelopeHpkePublicKey, validity,
    uses⟩) seed
  have hnow : ¬ (now < validity.notBefore ∨ now > validity.notAfter) := by
    rintro (h | h)
    · exact absurd (UInt64.lt_of_lt_of_le h hfrom) (UInt64.lt_irrefl _)
    · exact absurd (UInt64.lt_of_lt_of_le h hto) (UInt64.lt_irrefl _)
  unfold verifyCredential
  have hread : unmarshal items.signed SignedFields.first (Identity.issueCredential cx seed device validity uses) = some
      ⟨credentialContext, _, _⟩ := hitems.signed _
  simp only [hread, hitems.credential, ne_eq, not_true_eq_false, if_false]
  rw [Identity.issueCredential, hopen]
  exact if_neg hnow

end RelayIdentity

end Arveil

namespace Arveil.RelayServer

open RelayStore Prog

variable {cx : Crypto} {items : CborItems} {identityId root key : Bytes}

theorem rootPublic_enrolled {db : Db} (h : Enrolled identityId root key db) : RelayStore.rootPublic identityId db = (.ok root, db) := by
  obtain ⟨m, hm, hid, hroot, hactive⟩ := h.member
  refine require_eq_ok.2 ⟨?_, rfl⟩
  rw [Table.get?_eq_some.2 ⟨hm, hid⟩]
  simp [Option.filter, hactive, hroot]

theorem isMember_enrolled {db : Db} (h : Enrolled identityId root key db) : isMember db identityId := by
  obtain ⟨m, hm, hid, hroot, -⟩ := h.member
  exact isMember_iff.2 ⟨root, m, hm, hid, hroot⟩

def Session.OfMember (identityId : Bytes) (s : Session) : Prop :=
  s.watcher = none ∧ ∃ d, s.device = some d ∧ d.identityId = identityId

/-- The one manifest a request publishes for the identity, if any. -/
def Sends (identityId : Bytes) (m : Option (UInt64 × Bytes)) : Call → Prop
  | .publishManifest i seq signed _ => i = identityId ∧ m = some (seq, signed)
  | .recoverIdentity e _ _ => e.identityId ≠ identityId
  | _ => True

/-- A request that is served in states that are `Ready` sends at most `m`, and ends in `Q`
if its calls meet `Cond`. -/
abbrev Served {α : Type} (identityId : Bytes) (Ready : Db → Prop) (m : Option (UInt64 × Bytes)) (Cond : Call → Db → Prop)
    (Q : α → Db → Prop) (h : Handles cx α) (db : Db) : Prop :=
  Handler.Sound (fun _ db' => Ready db') (fun c _ => Sends identityId m c) Cond Q h db

section requests

variable {α : Type} {Ready : Db → Prop} {m : Option (UInt64 × Bytes)} {Cond : Call → Db → Prop}

theorem served_ask {Q : α → Db → Prop} {c : Call} {k : Except StoreError c.Result → Handles cx α} {db : Db}
    (hsends : Sends identityId m c)
    (h : ∀ db₁ r db₂, Ready db₁ → Cond c db₁ → c.prog cx.sha256 db₁ = (r, db₂) → Served identityId Ready m Cond Q (k r) db₂) :
    Served identityId Ready m Cond Q (ask cx c >>= k) db :=
  Handler.sound_ask_bind fun db₁ hr => ⟨hsends, fun hcond => h db₁ _ _ hr hcond rfl⟩

theorem dispatch_member {s : Session} (hs : s.OfMember identityId) (f : Frame) (now : Int) :
    dispatch cx items s f now = dispatchSession cx items s f now := by
  rw [dispatch, hs.1]
  rfl

theorem served_authorize (now : Int) (db : Db) :
    Served identityId (Enrolled identityId root key) none (fun _ _ => True)
      (fun o _ => ∀ s, o = some s → s.OfMember identityId) (authorize cx key now) db := by
  refine served_ask trivial fun db₁ r db₂ he _ hcall => ?_
  have hcall : deviceByTransportKey key db₁ = (r, db₂) := hcall
  obtain ⟨c, hc, hkey⟩ := he.known
  cases hfind : db₁.credentials.rows.find? fun c => decide (c.transportKey = key) with
  | none =>
    have := List.find?_eq_none.1 hfind c hc
    simp [hkey] at this
  | some c' =>
    have hrun : deviceByTransportKey key db₁ = (.ok (some c'.device), db₁) := by
      rw [deviceByTransportKey, read_eq_ok]
      exact ⟨by rw [hfind]; rfl, rfl⟩
    obtain ⟨rfl, rfl⟩ := Prod.mk.inj (hrun.symm.trans hcall)
    have hown := he.own c' (List.mem_of_find?_eq_some hfind) (by simpa using List.find?_some hfind)
    dsimp only
    split
    · exact fun s hs => by cases hs
    · intro s hs
      obtain rfl := Option.some.inj hs
      exact ⟨rfl, c'.device, rfl, hown⟩

theorem served_manifestPut {Q : Outcome → Db → Prop} {s : Session} {manifest : Bytes} {body : DeviceManifest} {now : Int} {db : Db}
    (hs : s.OfMember identityId) (henrolled : ∀ db, Ready db → Enrolled identityId root key db)
    (hbody : RelayIdentity.verifyManifest cx items manifest root = .ok body)
    (hend : ∀ db r db', Ready db →
      publishManifest identityId body.manifestSequence manifest body.revokedCredentialHashes db = (r, db') →
      (∀ n, r = .ok n → Q ⟨.ack, none⟩ db') ∧ ∀ e, r = .error e → ∀ code message, Q ⟨.error code message, none⟩ db') :
    Served identityId Ready (some (body.manifestSequence, manifest)) (fun _ _ => True) Q
      (dispatch cx items s (.manifestPut manifest) now) db := by
  rw [dispatch_member hs]
  obtain ⟨-, d, hd, rfl⟩ := hs
  show Served _ _ _ _ _ (manifestPut cx items s manifest) db
  unfold manifestPut whenMember
  rw [hd]
  refine served_ask trivial fun db₁ r db₂ hready _ hcall => ?_
  obtain ⟨rfl, rfl⟩ := Prod.mk.inj ((rootPublic_enrolled (henrolled _ hready)).symm.trans hcall)
  dsimp only
  rw [hbody]
  refine served_ask ⟨rfl, rfl⟩ fun db₃ r db₄ hready _ hcall => ?_
  obtain ⟨hok, herror⟩ := hend db₃ r db₄ hready hcall
  cases r with
  | ok n => exact hok n rfl
  | error e => cases e <;> exact herror _ rfl _ _

structure Current (identityId root key : Bytes) (seq : UInt64) (manifest : Bytes) (db : Db) : Prop where
  enrolled : Enrolled identityId root key db
  newest : ∀ m, newestManifest db identityId = some m →
    m.sequence ≤ seq.toNat ∧ (m.sequence = seq.toNat → m.signed = manifest)

theorem served_current {s : Session} {manifest : Bytes} {body : DeviceManifest} {now : Int} {db : Db}
    (hs : s.OfMember identityId) (hbody : RelayIdentity.verifyManifest cx items manifest root = .ok body)
    (hfits : body.manifestSequence.toNat < 2 ^ 63) :
    Served identityId (Current identityId root key body.manifestSequence manifest) (some (body.manifestSequence, manifest))
      (fun _ _ => True)
      (fun o db => o.answer = .ack ∧ ∃ m ∈ db.manifests, m.identityId = identityId ∧ m.sequence = body.manifestSequence.toNat)
      (dispatch cx items s (.manifestPut manifest) now) db := by
  refine served_manifestPut hs (fun _ h => h.enrolled) hbody fun db r db' hready hcall => ?_
  obtain ⟨n, db₁, hrun⟩ : ∃ n db', publishManifest identityId body.manifestSequence manifest body.revokedCredentialHashes db = (.ok n, db') :=
    publishManifest_taken _ (isMember_enrolled hready.enrolled) hfits hready.newest
  obtain ⟨rfl, rfl⟩ := Prod.mk.inj (hrun.symm.trans hcall)
  refine ⟨fun _ _ => ⟨rfl, ?_⟩, fun e he => by cases he⟩
  obtain ⟨⟨hm, hid⟩, -⟩ := newestManifest_eq_some.1 (publishManifest_ok hrun).newest
  exact ⟨_, hm, hid, rfl⟩

/-- The newest manifest lists a credential. -/
structure Listed (cx : Crypto) (items : CborItems) (identityId root key hash : Bytes) (db : Db) : Prop where
  enrolled : Enrolled identityId root key db
  newest : ∃ m body, newestManifest db identityId = some m ∧ RelayIdentity.verifyManifest cx items m.signed root = .ok body ∧
    hash ∈ body.activeCredentialHashes

def stores : Call → Option Enrollment
  | .putCredential e => some e
  | _ => none

def StoresFree (c : Call) (db : Db) : Prop := ∀ e ∈ stores c, KeysFree e db

instance (c : Call) (db : Db) : Decidable (StoresFree c db) := inferInstanceAs (Decidable (∀ e ∈ stores c, _))

theorem served_credentialPut {s : Session} {credential : Bytes} {now : Int} {v : RelayIdentity.VerifiedCredential} {db : Db}
    (hs : s.OfMember identityId) (hv : RelayIdentity.verifyCredential cx items credential (UInt64.ofInt now) = .ok v)
    (hroot : v.root = root) (hid : v.identityId = identityId) :
    Served identityId (Listed cx items identityId root key v.hash) none StoresFree
      (fun o db => o.answer = .ack ∧ ∃ c ∈ db.credentials, c.credentialHash = v.hash ∧ c.signed = credential)
      (dispatch cx items s (.credentialPut credential) now) db := by
  rw [dispatch_member hs]
  obtain ⟨-, d, hd, rfl⟩ := hs
  show Served _ _ _ _ _ (credentialPut cx items s credential now) db
  unfold credentialPut whenMember
  rw [hd]
  dsimp only
  rw [hv]
  refine served_ask trivial fun db₁ r db₂ hready _ hcall => ?_
  obtain ⟨rfl, rfl⟩ := Prod.mk.inj ((rootPublic_enrolled hready.enrolled).symm.trans hcall)
  dsimp only
  rw [if_neg (not_not.2 hroot.symm)]
  refine served_ask trivial fun db₃ r db₄ hready _ hcall => ?_
  obtain ⟨row, body, hrow, hbody, hlisted⟩ := hready.newest
  have hread : RelayStore.latestManifest d.identityId db₃ = (.ok (some row), db₃) := read_eq_ok.2 ⟨hrow, rfl⟩
  obtain ⟨rfl, rfl⟩ := Prod.mk.inj (hread.symm.trans hcall)
  dsimp only
  rw [hbody]
  dsimp only
  rw [if_neg (not_not.2 hlisted)]
  refine served_ask trivial fun db₅ r db₆ hready hfree hcall => ?_
  have hmember : isMember db₅ (enrollment v credential [] 0).identityId := by
    show isMember db₅ v.identityId
    rw [hid]
    exact isMember_enrolled hready.enrolled
  obtain ⟨db', hrun⟩ := putCredential_taken hmember (hfree _ rfl)
  obtain ⟨rfl, rfl⟩ := Prod.mk.inj (hrun.symm.trans hcall)
  exact ⟨rfl, _, (Table.mem_insert (putCredential_ok hrun).credentials).2 (Or.inr rfl), rfl, rfl⟩

end requests

end Arveil.RelayServer

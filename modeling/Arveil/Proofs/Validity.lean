import Arveil.Proofs.Chain
import Arveil.Proofs.Redemption
import Arveil.Proofs.RequestKeys
import Arveil.Proofs.WatchKeys

/-! Until when a credential is valid. The verifier and the handshake admit the last second that
the credential names, the watch keys and the repeated recovery do not, and what is stored is a
signed number. -/

namespace Arveil.RelayServer

open RelayStore Prog

variable {cx : Crypto} {items : CborItems}

theorem toInt_toInt64 (x : UInt64) : x.toInt64.toInt = if x.toNat < 2 ^ 63 then (x.toNat : Int) else x.toNat - 2 ^ 64 := by
  show x.toBitVec.toInt = _
  rw [BitVec.toInt_eq_toNat_cond]
  show (if 2 * x.toNat < 2 ^ 64 then _ else _) = _
  split_ifs <;> first | rfl | omega

theorem toNat_ofInt_time {n : Int} (h0 : 0 ≤ n) (hn : n < 2 ^ 63) : ((UInt64.ofInt n).toNat : Int) = n := by
  rw [toNat_ofInt]
  omega

theorem verifyCredential_at {signed : Bytes} {now : UInt64} {v : RelayIdentity.VerifiedCredential}
    (h : RelayIdentity.verifyCredential cx items signed now = .ok v) (now' : UInt64) :
    v.credential.validity.notBefore ≤ now ∧ now ≤ v.credential.validity.notAfter ∧
      RelayIdentity.verifyCredential cx items signed now' =
        if now' < v.credential.validity.notBefore ∨ now' > v.credential.validity.notAfter then .error .notValidNow else .ok v := by
  unfold RelayIdentity.verifyCredential at h ⊢
  split at h
  · cases h
  · next so hso =>
    split at h
    · cases h
    · next c hc =>
      split at h
      · cases h
      · next hversion =>
        rw [if_neg hversion]
        split at h
        · cases h
        · next body hopen =>
          split at h
          · cases h
          · next hwindow =>
            obtain rfl := Except.ok.inj h
            rw [not_or, UInt64.not_lt, UInt64.not_lt] at hwindow
            exact ⟨hwindow.1, hwindow.2, rfl⟩

def Accepted (cx : Crypto) (items : CborItems) (signed : Bytes) (n : Int) : Prop :=
  ∃ v, RelayIdentity.verifyCredential cx items signed (UInt64.ofInt n) = .ok v

theorem accepted_iff {signed : Bytes} {t n : Int} {v : RelayIdentity.VerifiedCredential}
    (hv : RelayIdentity.verifyCredential cx items signed (UInt64.ofInt t) = .ok v) (h0 : 0 ≤ t) (htn : t ≤ n) (hn : n < 2 ^ 63) :
    Accepted cx items signed n ↔ n ≤ v.credential.validity.notAfter.toNat := by
  obtain ⟨hfrom, -, hat⟩ := verifyCredential_at hv (UInt64.ofInt n)
  have ht := toNat_ofInt_time h0 (by omega)
  have hnat := toNat_ofInt_time (by omega) hn
  rw [UInt64.le_iff_toNat_le] at hfrom
  unfold Accepted
  rw [hat]
  constructor
  · rintro ⟨v', hv'⟩
    split_ifs at hv' with hwindow
    rw [not_or, UInt64.not_lt, UInt64.not_lt, UInt64.le_iff_toNat_le, UInt64.le_iff_toNat_le] at hwindow
    omega
  · intro hle
    refine ⟨v, if_neg ?_⟩
    rw [not_or, UInt64.not_lt, UInt64.not_lt, UInt64.le_iff_toNat_le, UInt64.le_iff_toNat_le]
    omega

/-- Memberships are active, and a credential is a member's. -/
structure Standing (db : Db) : Prop where
  active : ∀ m ∈ db.memberships, m.status = .active
  members : ∀ c ∈ db.credentials, isMember db c.identityId

theorem revoked_member {identityId : Bytes} {hashes : List Bytes} {t t' : Table CredentialRow.credentialHash} {db : Db}
    (h : Revokes identityId hashes t t') (ht : ∀ c ∈ t, isMember db c.identityId) : ∀ c ∈ t', isMember db c.identityId := by
  intro c hc
  rcases h.from_ c hc with hc | ⟨-, -, -, c₀, hc₀, rfl⟩
  · exact ht c hc
  · exact ht c₀ hc₀

theorem standing_after {sha256 : Bytes → Bytes} {db : Db} (h : Standing db) (c : Call) : Standing (after sha256 db c) := by
  have heffect : Effect c db (after sha256 db c) := call_effect c db
  have hlater := later_effect heffect
  constructor
  · have hpart : Part.memberships ∉ writes c → (after sha256 db c).memberships = db.memberships := fun hw => part_call c db hw
    cases c with
    | redeemInvite tokenHash now e =>
      show ∀ m ∈ (redeemInvite tokenHash now e db).2.memberships, m.status = .active
      rcases hrun : redeemInvite tokenHash now e db with ⟨err | u, db'⟩
      · rw [unitOfWork_error hrun]
        exact h.active
      · have hwhole : redeemInviteInjected (hook none) tokenHash now e db = (.ok u, db') := hrun
        obtain ⟨v, -, -, -, -, hmemberships⟩ := (injected_ok hwhole).use
        intro m hm
        rcases (Table.mem_insert hmemberships).1 hm with hm | rfl
        · exact h.active m hm
        · rfl
    | makeOwner identity =>
      show ∀ m ∈ (makeOwner identity db).2.memberships, m.status = .active
      refine unitOfWork_snd (P := fun db' : Db => ∀ m ∈ db'.memberships, m.status = .active) h.active ?_
      refine bind_fixed (P := fun db' : Db => ∀ m ∈ db'.memberships, m.status = .active) (fixes_require _ _) h.active fun _ _ m hm => ?_
      simp only [modify_run, Table.mem_update] at hm
      obtain ⟨m', hm', rfl⟩ := hm
      split
      · exact h.active m' hm'
      · exact h.active m' hm'
    | _ =>
      rw [hpart (by simp [writes])]
      exact h.active
  · generalize after sha256 db c = db' at heffect hlater
    intro r hr
    cases heffect with
    | same hs => exact isMember_later hlater (h.members r (hs.credentials ▸ hr))
    | redeemed hs =>
      rcases (Table.mem_insert hs.credentials).1 hr with hr | rfl
      · exact isMember_later hlater (h.members r hr)
      · exact isMember_iff.2 ⟨_, (hs.roots _ _).2 (Or.inr ⟨rfl, rfl⟩)⟩
    | registered hs =>
      rcases (Table.mem_insert hs.credentials).1 hr with hr | rfl
      · exact isMember_later hlater (h.members r hr)
      · exact isMember_later hlater hs.member
    | published hs => exact revoked_member hs.credentials (fun r hr => isMember_later hlater (h.members r hr)) r hr
    | recovered hs =>
      obtain ⟨t, ht, hrevokes⟩ := hs.credentials
      refine revoked_member hrevokes (fun r hr => ?_) r hr
      rcases (Table.mem_insert ht).1 hr with hr | rfl
      · exact isMember_later hlater (h.members r hr)
      · exact isMember_later hlater hs.member

theorem standing_run {sha256 : Bytes → Bytes} (calls : List Call) : Standing (storeAfter sha256 calls) := by
  refine Trace.invariant (I := Standing) (fun _ c _ h => standing_after h c) (Trace.meets_true Db.empty calls) ⟨?_, ?_⟩
  · exact fun m hm => absurd hm (Table.not_mem_empty m)
  · exact fun c hc => absurd hc (Table.not_mem_empty c)

def alone (c : CredentialRow) (db : Db) : Db :=
  { db with credentials := db.credentials.delete fun r => decide (r.credentialHash ≠ c.credentialHash) }

/-- Each place answers for the credential as its verifier does at the time. -/
structure Agree (cx : Crypto) (items : CborItems) (db : Db) (c : CredentialRow) (n : Int) : Prop where
  authorize : (∃ s, (RelayServer.authorize cx c.transportKey n).finish db = (some s, db)) ↔ Accepted cx items c.signed n
  activeRole : (∃ actor, (RelayStore.activeRole c.credentialHash n db).1 = .ok actor) ↔ Accepted cx items c.signed n
  activeDevice : (∃ d, RelayStore.activeDevice c.identityId c.deviceId n (alone c db) = some d) ↔ Accepted cx items c.signed n
  recoverIdentity : ∀ e previous revoked, e.credentialHash = c.credentialHash →
    Recorded e.identityId e.credentialHash e.signedCred e.signedManifest previous db →
      ((RelayStore.recoverIdentity e revoked n db).1 = .ok previous ↔ Accepted cx items c.signed n)

variable {db : Db} {c : CredentialRow} {n : Int}

theorem authorize_admits (h : Exclusive db) (hc : c ∈ db.credentials) (hactive : c.status = .active) :
    (∃ s, (RelayServer.authorize cx c.transportKey n).finish db = (some s, db)) ↔ n ≤ c.notAfter := by
  have hfind : db.credentials.rows.find? (fun r => r.transportKey = c.transportKey) = some c := by
    cases hfound : db.credentials.rows.find? fun r => r.transportKey = c.transportKey with
    | none => exact absurd (decide_eq_true rfl) (List.find?_eq_none.1 hfound c hc)
    | some r =>
      have hkey : r.transportKey = c.transportKey := by simpa using List.find?_some hfound
      rw [h.transportOne r (List.mem_of_find?_eq_some hfound) c hc hkey]
  rw [authorize_transport hfind]
  constructor
  · rintro ⟨s, hs⟩
    by_contra hlate
    rw [if_pos (Or.inr (by omega))] at hs
    exact absurd (congrArg Prod.fst hs) nofun
  · intro hle
    refine ⟨⟨c.transportKey, some c.device, none⟩, ?_⟩
    rw [if_neg]
    rintro (hs | hlt)
    · exact hs hactive
    · omega

theorem activeRole_admits (h : Standing db) (hc : c ∈ db.credentials) (hactive : c.status = .active) :
    (∃ actor, (RelayStore.activeRole c.credentialHash n db).1 = .ok actor) ↔ n ≤ c.notAfter := by
  obtain ⟨root, m, hm, hid, -⟩ := isMember_iff.1 (h.members c hc)
  have hcred : db.credentials.get? c.credentialHash = some c := Table.get?_eq_some.2 ⟨hc, rfl⟩
  have hmember : db.memberships.get? c.identityId = some m := Table.get?_eq_some.2 ⟨hm, hid⟩
  constructor
  · rintro ⟨⟨actor, role⟩, hrole⟩
    obtain ⟨-, c', hc', hhash, -, -, hle⟩ := activeRole_eq_ok (Prod.ext hrole rfl)
    rw [Table.eq_of_key hc' hc hhash] at hle
    exact hle
  · intro hle
    refine ⟨(m.identityId, m.role), ?_⟩
    have hfound : RelayStore.activeRole c.credentialHash n db = (.ok (m.identityId, m.role), db) := by
      refine require_eq_ok.2 ⟨?_, rfl⟩
      rw [hcred, Option.filter_some, if_pos (by simp [hactive, hle])]
      show ((db.memberships.get? c.identityId).filter fun m => decide (m.status = .active)).bind _ = _
      rw [hmember, Option.filter_some, if_pos (decide_eq_true (h.active m hm))]
      rfl
    exact congrArg Prod.fst hfound

theorem activeDevice_some {identityId deviceId : Bytes} :
    (∃ d, RelayStore.activeDevice identityId deviceId n db = some d) ↔
      ∃ r ∈ db.credentials, r.identityId = identityId ∧ r.deviceId = deviceId ∧ r.status = .active ∧ n < r.notAfter := by
  have hhead : ∀ l : List CredentialRow, (∃ d, l.head?.map CredentialRow.device = some d) ↔ ∃ r, r ∈ l := by
    intro l
    cases l with
    | nil => exact ⟨fun ⟨_, hd⟩ => absurd hd nofun, fun ⟨_, hr⟩ => absurd hr List.not_mem_nil⟩
    | cons r l => exact ⟨fun _ => ⟨r, List.mem_cons_self⟩, fun _ => ⟨r.device, rfl⟩⟩
  rw [RelayStore.activeDevice, hhead]
  refine exists_congr fun r => ?_
  rw [List.mem_insertionSort, List.mem_filter, Bool.and_eq_true, Bool.and_eq_true, Bool.and_eq_true, decide_eq_true_eq,
    decide_eq_true_eq, decide_eq_true_eq, decide_eq_true_eq, and_assoc, and_assoc]
  rfl

theorem activeDevice_admits (hc : c ∈ db.credentials) (hactive : c.status = .active) :
    (∃ d, RelayStore.activeDevice c.identityId c.deviceId n (alone c db) = some d) ↔ n < c.notAfter := by
  have hmem : ∀ r, r ∈ (alone c db).credentials ↔ r = c := by
    intro r
    rw [alone, Table.mem_delete, decide_eq_false_iff_not, not_not]
    constructor
    · rintro ⟨hr, hhash⟩
      exact Table.eq_of_key hr hc hhash
    · rintro rfl
      exact ⟨hc, rfl⟩
  rw [activeDevice_some]
  constructor
  · rintro ⟨r, hr, -, -, -, hlt⟩
    rw [(hmem r).1 hr] at hlt
    exact hlt
  · intro hlt
    exact ⟨c, (hmem c).2 rfl, rfl, rfl, hactive, hlt⟩

theorem recoverIdentity_admits (hc : c ∈ db.credentials) (hactive : c.status = .active) {e : Enrollment} {previous : Nat}
    (revoked : List Bytes) (hhash : e.credentialHash = c.credentialHash)
    (h : Recorded e.identityId e.credentialHash e.signedCred e.signedManifest previous db) :
    (RelayStore.recoverIdentity e revoked n db).1 = .ok previous ↔ n < c.notAfter := by
  obtain ⟨c', hc', hhash', hrun⟩ : ∃ c' ∈ db.credentials, c'.credentialHash = e.credentialHash ∧
      RelayStore.recoverIdentity e revoked n db =
        if c'.status = .active ∧ n < c'.notAfter then (.ok previous, db) else (.error .requestConflict, db) := recover_recorded h
  obtain rfl := Table.eq_of_key hc' hc (hhash'.trans hhash)
  rw [hrun]
  constructor
  · intro hok
    by_contra hlate
    rw [if_neg (fun hboth => hlate hboth.2)] at hok
    exact absurd hok nofun
  · intro hlt
    rw [if_pos ⟨hactive, hlt⟩]

/-- The places agree on a stored credential exactly when it does not end at that second, and its end
is a signed number. -/
theorem validity_agrees_iff (cx : Crypto) (items : CborItems) (calls : List Call) {signed manifest : Bytes} {seq : UInt64}
    {t n : Int} {v : RelayIdentity.VerifiedCredential}
    (hv : RelayIdentity.verifyCredential cx items signed (UInt64.ofInt t) = .ok v) (h0 : 0 ≤ t) (htn : t ≤ n) (hn : n < 2 ^ 63)
    (hrow : (enrollment v signed manifest seq).row ∈ (storeAfter cx.sha256 calls).credentials) :
    Agree cx items (storeAfter cx.sha256 calls) (enrollment v signed manifest seq).row n ↔
      v.credential.validity.notAfter.toNat < 2 ^ 63 ∧ n ≠ v.credential.validity.notAfter.toNat := by
  have haccepted := accepted_iff hv h0 htn hn
  have hstored : (enrollment v signed manifest seq).row.notAfter = _ := toInt_toInt64 v.credential.validity.notAfter
  have hnat := v.credential.validity.notAfter.toNat_lt
  have hexclusive : Exclusive (storeAfter cx.sha256 calls) := exclusive_run calls
  constructor
  · intro h
    have hauthorize := (authorize_admits hexclusive hrow rfl).symm.trans (h.authorize.trans haccepted)
    have hdevice := (activeDevice_admits hrow rfl).symm.trans (h.activeDevice.trans haccepted)
    rw [hstored] at hauthorize hdevice
    split_ifs at hauthorize hdevice with hfits
    · exact ⟨hfits, by omega⟩
    · omega
  · rintro ⟨hfits, hne⟩
    rw [if_pos hfits] at hstored
    have hlast : n < (enrollment v signed manifest seq).row.notAfter ↔ n ≤ v.credential.validity.notAfter.toNat := by omega
    have hle : n ≤ (enrollment v signed manifest seq).row.notAfter ↔ n ≤ v.credential.validity.notAfter.toNat := by omega
    refine ⟨?_, ?_, ?_, fun e previous revoked hhash hrecorded => ?_⟩
    · exact (authorize_admits hexclusive hrow rfl).trans (hle.trans haccepted.symm)
    · exact (activeRole_admits (standing_run calls) hrow rfl).trans (hle.trans haccepted.symm)
    · exact (activeDevice_admits hrow rfl).trans (hlast.trans haccepted.symm)
    · exact (recoverIdentity_admits hrow rfl revoked hhash hrecorded).trans (hlast.trans haccepted.symm)

section example_run

open Demo

/-- The first device's credential as it verifies; it names second 1000 as its last. -/
def firstVerified : RelayIdentity.VerifiedCredential where
  credential := ⟨credentialVersion, publicKey [2], [10], [10, 1], [10, 2], [10, 3], ⟨0, 1000⟩, 7⟩
  root := publicKey [2]
  identityId := realmIdentity
  hash := deviceHash 10

def firstRow : CredentialRow := (enrollment firstVerified (deviceCredential 10) manifestOne 1).row

def firstEnrolls : List Call :=
  [.createInvite (fingerprint inviteToken) "member" 1000 1,
    .redeemInvite (fingerprint inviteToken) 5 (enrollment firstVerified (deviceCredential 10) manifestOne 1)]

theorem first_enrolled :
    RelayIdentity.verifyCredential cborCrypto cborItems (deviceCredential 10) (UInt64.ofInt 5) = .ok firstVerified ∧
      firstRow ∈ (storeAfter cborCrypto.sha256 firstEnrolls).credentials := by
  decide +kernel

/-- In its last second a device is admitted as a member and refused as a watcher. -/
theorem last_second_disagrees : ¬Agree cborCrypto cborItems (storeAfter cborCrypto.sha256 firstEnrolls) firstRow 1000 := by
  obtain ⟨hverified, hrow⟩ := first_enrolled
  intro h
  have haccepted : Accepted cborCrypto cborItems firstRow.signed 1000 :=
    (accepted_iff hverified (by decide) (by decide) (by decide)).2 (by decide)
  have hlast := (activeDevice_admits hrow rfl).1 (h.activeDevice.2 haccepted)
  exact absurd hlast (by decide)

theorem before_agrees : Agree cborCrypto cborItems (storeAfter cborCrypto.sha256 firstEnrolls) firstRow 999 :=
  (validity_agrees_iff cborCrypto cborItems firstEnrolls first_enrolled.1 (by decide) (by decide) (by decide) first_enrolled.2).2
    (by decide)

end example_run

end Arveil.RelayServer

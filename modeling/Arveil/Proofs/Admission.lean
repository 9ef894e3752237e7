import Arveil.Lib.Trace
import Arveil.Proofs.Members
import Arveil.Sanity.Realm

/-! Which session becomes a member session. The handshake and the recovery look at the
credential's row; a redemption made before is answered from its receipt, and the row may
have been revoked since. -/

namespace Arveil.RelayServer

open RelayStore Prog

variable {cx : Crypto} {items : CborItems}

/-- The store holds the device of a session, active and under the session's key. -/
def Backed (s : Session) (db : Db) : Prop :=
  ∀ d, s.device = some d → ∃ c ∈ db.credentials, c.credentialHash = d.credentialHash ∧ c.identityId = d.identityId ∧
    c.deviceId = d.deviceId ∧ c.status = .active ∧ c.transportKey = s.remoteStatic

/-- Where a redemption is repeated, the credential is still active; a recovery's manifest
does not revoke the credential it brings. -/
def AdmitsActive : Call → Db → Prop
  | .redeemInvite tokenHash _ e, db => ⟨tokenHash, e.identityId, e.credentialHash⟩ ∈ db.redemptions →
      ∀ c ∈ db.credentials, c.credentialHash = e.credentialHash → c.status = .active
  | .recoverIdentity e revoked _, _ => e.credentialHash ∉ revoked
  | _, _ => True

/-- The hash of a credential that is redeemed names no other one. -/
def HashNames : Call → Db → Prop
  | .redeemInvite _ _ e, db => ∀ c ∈ db.credentials, c.credentialHash = e.credentialHash → c.signed = e.signedCred
  | _, _ => True

theorem verifyCredential_unique {signed : Bytes} {now now' : UInt64} {v v' : RelayIdentity.VerifiedCredential}
    (h : RelayIdentity.verifyCredential cx items signed now = .ok v)
    (h' : RelayIdentity.verifyCredential cx items signed now' = .ok v') : v = v' := by
  unfold RelayIdentity.verifyCredential at h h'
  split at h
  · cases h
  · next so hso =>
    rw [hso] at h'
    dsimp only at h'
    split at h
    · cases h
    · next c hc =>
      rw [hc] at h'
      dsimp only at h'
      split at h
      · cases h
      · next hversion =>
        rw [if_neg hversion] at h'
        split at h
        · cases h
        · next body hbody =>
          rw [hbody] at h'
          dsimp only at h'
          split at h
          · cases h
          · split at h'
            · cases h'
            · exact (Except.ok.inj h).symm.trans (Except.ok.inj h')

theorem backed_of_row {s : Session} {credential manifest : Bytes} {now : Int} {v : RelayIdentity.VerifiedCredential}
    {m : DeviceManifest} {db : Db} {c : CredentialRow} {a : Answer} (hdb : Consistent cx items db)
    (hp : Presented cx items s credential manifest now v m) (hc : c ∈ db.credentials) (hsigned : c.signed = credential)
    (hactive : c.status = .active) : Backed (s.enter ⟨a, some (admitted v)⟩) db := by
  intro d hd
  obtain rfl : admitted v = d := Option.some.inj hd
  obtain ⟨-, v', now', hv', hhash, hid, hdevice, hkey⟩ := hdb.credentials c hc
  rw [hsigned] at hv'
  obtain rfl := verifyCredential_unique hp.credential hv'
  have hbinds := hp.binds
  simp only [bindsSession, Bool.and_eq_true, decide_eq_true_eq] at hbinds
  exact ⟨c, hc, hhash.symm, hid.symm, hdevice.symm, hactive, hkey.symm.trans hbinds.2⟩

theorem backed_of_insert {s : Session} {credential manifest : Bytes} {now : Int} {v : RelayIdentity.VerifiedCredential}
    {m : DeviceManifest} {db : Db} {a : Answer} (hp : Presented cx items s credential manifest now v m)
    (hrow : (enrollment v credential manifest m.manifestSequence).row ∈ db.credentials) :
    Backed (s.enter ⟨a, some (admitted v)⟩) db := by
  intro d hd
  obtain rfl : admitted v = d := Option.some.inj hd
  have hbinds := hp.binds
  simp only [bindsSession, Bool.and_eq_true, decide_eq_true_eq] at hbinds
  exact ⟨_, hrow, rfl, rfl, rfl, rfl, hbinds.2⟩

theorem recovered_row {e : Enrollment} {revoked : List Bytes} {db db' : Db} (h : Recovered e revoked db db')
    (hfree : e.credentialHash ∉ revoked) : e.row ∈ db'.credentials := by
  obtain ⟨t, ht, hrev⟩ := h.credentials
  have hmem : e.row ∈ t := (Table.mem_insert ht).2 (Or.inr rfl)
  rcases hrev.kept _ hmem with hkept | hrevoked
  · exact hkept
  · rcases hrev.from_ _ hrevoked with hin | ⟨-, -, hlisted, -⟩
    · have hsame := Table.eq_of_key hmem hin rfl
      cases congrArg CredentialRow.status hsame
    · exact absurd hlisted hfree

/-- What a session that is admitted finds. -/
theorem admission_backed : Admission cx items (fun c db => HashNames c db ∧ AdmitsActive c db)
    fun s o db => o.device.isSome = true → Backed (s.enter o) db where
  nobody s o db hnone hsome := by
    rw [hnone] at hsome
    cases hsome
  redeem s token credential manifest now v m db r db' hdb hp hcond hcall hr a _ := by
    rcases hr with rfl | rfl
    · exact backed_of_insert hp ((Table.mem_insert (redeemInvite_ok hcall).credentials).2 (Or.inr rfl))
    · obtain rfl : db' = db := unitOfWork_error hcall
      have hreceipt := redeemInvite_repeated hcall
      obtain ⟨c, hc, hhash, -⟩ := hdb.redemptions _ hreceipt
      exact backed_of_row hdb hp hc (hcond.1 c hc hhash) (hcond.2 hreceipt c hc hhash)
  recover s credential manifest now v m db n db' hdb hp hcond hcall a _ := by
    rcases recoverIdentity_ok hcall with ⟨rfl, c, hc, -, -, hsigned, hactive⟩ | hrecovered
    · exact backed_of_row hdb hp hc hsigned hactive
    · exact backed_of_insert hp (recovered_row hrecovered hcond.2)

theorem handshake_backed : Handshake fun o db => ∀ s, o = some s → Backed s db where
  nobody o db hnone s hs d hd := by
    rw [hnone s hs] at hd
    cases hd
  known c db hc hactive s hs d hd := by
    obtain rfl := Option.some.inj hs
    obtain rfl := Option.some.inj hd
    exact ⟨c, hc, rfl, rfl, rfl, hactive, rfl⟩

theorem becomesMember_sound {Fair : DeviceManifest → Prop} {Cond : Call → Db → Prop} {Q : Session → Outcome → Db → Prop}
    {Qh : Option Session → Db → Prop} (ha : Admission cx items Cond Q) {w : World cx} {e : Event} {s : Session}
    (hhonest : e.Honest cx items Fair) (hcond : NextCall Cond w e) (hw : Running items Fair Cond Q Qh w)
    (h : becomesMember cx items w e = some s) :
    (∃ s₀ o, s = s₀.enter o ∧ o.device.isSome = true ∧ Q s₀ o (step cx items w e).db) ∨ Qh (some s) (step cx items w e).db := by
  have hrefl : Reached cx items w.db w.db := ⟨Later.refl _, hw.db⟩
  cases e with
  | connect key now => cases h
  | close i => cases h
  | chore c => cases h
  | frame i f now =>
    dsimp only [becomesMember] at h
    split at h
    · next s₀ hi =>
      have hsound := sound_dispatch ha hhonest now w.db (s := s₀)
      split at h
      · next o ho =>
        rw [ho] at hsound
        split at h
        · next hsome =>
          obtain rfl := Option.some.inj h
          refine Or.inl ⟨s₀, o, rfl, hsome, ?_⟩
          have hdb : (step cx items w (.frame i f now)).db = w.db := by simp only [step, hi]
          rw [hdb]
          exact hsound
        · cases h
      · cases h
    · cases h
  | advance i =>
    dsimp only [becomesMember] at h
    split at h
    · next c k hi =>
      have hsound : SoundHandler cx items Fair Cond Qh (.call c k) w.db := hw.connections _ (List.mem_of_getElem? hi)
      have hnext := (hsound w.db hrefl).2 (hcond _ c hi rfl)
      have hdb : (step cx items w (.advance i)).db = (c.prog cx.sha256 w.db).2 := by simp only [step, hi]
      split at h
      · next s₁ hk =>
        split at h
        · obtain rfl := Option.some.inj h
          right
          rw [hdb]
          have hend : SoundHandler cx items Fair Cond Qh (k (c.prog cx.sha256 w.db).1) (c.prog cx.sha256 w.db).2 := hnext
          rw [hk] at hend
          exact hend
        · cases h
      · cases h
    · next s₀ f found c k hi =>
      have hsound : SoundHandler cx items Fair Cond (Q s₀) (.call c k) w.db := hw.connections _ (List.mem_of_getElem? hi)
      have hnext := (hsound w.db hrefl).2 (hcond _ c hi rfl)
      have hdb : (step cx items w (.advance i)).db = (c.prog cx.sha256 w.db).2 := by simp only [step, hi]
      split at h
      · next o ho =>
        split at h
        · next hsome =>
          obtain rfl := Option.some.inj h
          refine Or.inl ⟨s₀, o, rfl, hsome, ?_⟩
          rw [hdb]
          have hend : SoundHandler cx items Fair Cond (Q s₀) (k (c.prog cx.sha256 w.db).1) (c.prog cx.sha256 w.db).2 := hnext
          rw [ho] at hend
          exact hend
        · cases h
      · cases h
    · cases h

/-- In every run whose redemptions repeat only what is still active and whose recoveries do
not revoke what they bring, a session that becomes a member has an active row under its key. -/
theorem member_sessions_are_backed (cx : Crypto) (items : CborItems) (evs : List Event) (e : Event) (s : Session)
    (hnames : Trace.Meets (step cx items) (NextCall HashNames) (start cx) (evs ++ [e]))
    (hadmits : Trace.Meets (step cx items) (NextCall AdmitsActive) (start cx) (evs ++ [e]))
    (hs : becomesMember cx items (Trace.run (step cx items) (start cx) evs) e = some s) :
    Backed s (step cx items (Trace.run (step cx items) (start cx) evs) e).db := by
  have hboth := (hnames.and hadmits).imp fun w e h => h.1.and h.2
  obtain ⟨hbefore, hlast, -⟩ := Trace.meets_append.1 hboth
  have hw := Trace.invariant (fun w e he hw => running_step admission_backed handshake_backed (honest_any e) he hw) hbefore
    running_start
  rcases becomesMember_sound admission_backed (honest_any e) hlast hw hs with ⟨s₀, o, rfl, hsome, hq⟩ | hq
  · exact hq hsome
  · exact hq s rfl

theorem hashNames_iff {c : Call} {db : Db} : HashNames c db ↔
    ∀ p ∈ c.redeems, ∀ r ∈ db.credentials.rows, r.credentialHash = p.2.credentialHash → r.signed = p.2.signedCred := by
  cases c <;> simp [HashNames, Call.redeems] <;> rfl

theorem admitsActive_iff {c : Call} {db : Db} : AdmitsActive c db ↔
    (∀ p ∈ c.redeems, ⟨p.1, p.2.identityId, p.2.credentialHash⟩ ∈ db.redemptions.rows →
      ∀ r ∈ db.credentials.rows, r.credentialHash = p.2.credentialHash → r.status = .active) ∧
    ∀ p ∈ c.recovers, p.1.credentialHash ∉ p.2 := by
  cases c <;> simp [AdmitsActive, Call.redeems, Call.recovers] <;> rfl

instance (c : Call) (db : Db) : Decidable (HashNames c db) := decidable_of_iff _ hashNames_iff.symm

instance (c : Call) (db : Db) : Decidable (AdmitsActive c db) := decidable_of_iff _ admitsActive_iff.symm

open Demo

/-- Two provisional sessions under one key: the second enrolls the device and publishes
the manifest that revokes it, and then the first repeats the redemption. -/
def outlived : List Event :=
  [.chore (.createInvite (fingerprint inviteToken) "member" 1000 1), .connect (deviceKey 10) 5, .advance 0, .advance 0,
    .connect (deviceKey 10) 5, .advance 1, .advance 1, .frame 1 redemption 5, .advance 1,
    .frame 1 (.manifestPut manifestGone) 5, .advance 1, .advance 1, .frame 0 redemption 5]

theorem revoked_device_readmitted :
    ¬ ∀ (evs : List Event) (e : Event) (s : Session),
      Trace.Meets (step cborCrypto cborItems) (NextCall HashNames) (start cborCrypto) (evs ++ [e]) →
      becomesMember cborCrypto cborItems (realmRun evs) e = some s → Backed s (step cborCrypto cborItems (realmRun evs) e).db := by
  intro h
  -- the three facts about the run are evaluated together
  have hrun : Trace.Meets (step cborCrypto cborItems) (NextCall HashNames) (start cborCrypto) (outlived ++ [Event.advance 0]) ∧
      becomesMember cborCrypto cborItems (realmRun outlived) (.advance 0) =
        some ⟨deviceKey 10, some ⟨deviceHash 10, realmIdentity, [10], .active, 1000⟩, none⟩ ∧
      ∀ c ∈ (step cborCrypto cborItems (realmRun outlived) (.advance 0)).db.credentials.rows, c.status = .revoked := by
    decide +kernel
  obtain ⟨hnames, hmember, hrevoked⟩ := hrun
  obtain ⟨c, hc, -, -, -, hactive, -⟩ := h outlived (.advance 0) _ hnames hmember _ rfl
  rw [hrevoked c hc] at hactive
  cases hactive

theorem enrolled_session_is_backed : Backed ⟨deviceKey 10, some ⟨deviceHash 10, realmIdentity, [10], .active, 1000⟩, none⟩
    (step cborCrypto cborItems (realmRun enrolls.dropLast) (.advance 0)).db := by
  have hrun : Trace.Meets (step cborCrypto cborItems) (NextCall HashNames) (start cborCrypto) (enrolls.dropLast ++ [Event.advance 0]) ∧
      Trace.Meets (step cborCrypto cborItems) (NextCall AdmitsActive) (start cborCrypto) (enrolls.dropLast ++ [Event.advance 0]) ∧
      becomesMember cborCrypto cborItems (realmRun enrolls.dropLast) (.advance 0) =
        some ⟨deviceKey 10, some ⟨deviceHash 10, realmIdentity, [10], .active, 1000⟩, none⟩ := by decide +kernel
  obtain ⟨hnames, hadmits, hmember⟩ := hrun
  exact member_sessions_are_backed cborCrypto cborItems enrolls.dropLast (.advance 0) _ hnames hadmits hmember

end Arveil.RelayServer

import Arveil.Lib.Trace
import Arveil.Proofs.Members
import Arveil.Sanity.Realm

/-! The sessions a revoked device still has open. Most frames trust the device the
handshake found; the invitation frames read the credential again. -/

namespace Arveil.RelayServer

open RelayStore Prog

variable {cx : Crypto} {items : CborItems}

/-- Some manifest stored for an identity lists a credential as revoked. -/
def RevokedEver (cx : Crypto) (items : CborItems) (db : Db) (identityId hash : Bytes) : Prop :=
  ∃ m ∈ db.manifests, m.identityId = identityId ∧ ∃ root body, HasRoot db identityId root ∧ Signed cx items root m.signed body ∧
    hash ∈ body.revokedCredentialHashes

/-- No active credential is one that a stored manifest revokes. -/
def ActiveUnrevoked (cx : Crypto) (items : CborItems) (db : Db) : Prop :=
  ∀ c ∈ db.credentials, c.status = .active → ¬ RevokedEver cx items db c.identityId c.credentialHash

/-- No credential is registered that a stored manifest revokes, or its own first one. -/
def RegistersUnrevoked (cx : Crypto) (items : CborItems) : Call → Db → Prop
  | .redeemInvite _ _ e, _ => ∀ body, Signed cx items e.rootPublic e.signedManifest body → e.credentialHash ∉ body.revokedCredentialHashes
  | .putCredential e, db | .recoverIdentity e _ _, db => ¬ RevokedEver cx items db e.identityId e.credentialHash
  | _, _ => True

theorem revokedEver_before {db db' : Db} {identityId hash : Bytes} {m : RelayStore.ManifestRow}
    (hroots : ∀ root, HasRoot db' identityId root → HasRoot db identityId root) (hm : m ∈ db.manifests)
    (hid : m.identityId = identityId) {root : Bytes} {body : DeviceManifest} (hroot : HasRoot db' identityId root)
    (hsigned : Signed cx items root m.signed body) (hmem : hash ∈ body.revokedCredentialHashes) :
    RevokedEver cx items db identityId hash := ⟨m, hm, hid, root, body, hroots root hroot, hsigned, hmem⟩

theorem activeUnrevoked_effect {Fair : DeviceManifest → Prop} {c : Call} {db db' : Db} (hcons : Consistent cx items db)
    (hallowed : Allowed cx items Fair c db) (hcond : RegistersUnrevoked cx items c db) (heffect : Effect c db db')
    (h : ActiveUnrevoked cx items db) : ActiveUnrevoked cx items db' := by
  have hl := later_effect heffect
  rintro c' hc' hactive ⟨m, hm, hid, root, body, hroot, hsigned, hmem⟩
  cases heffect with
  | same hs =>
    exact h c' (hs.credentials ▸ hc') hactive
      (revokedEver_before (fun r => (hs.roots _ r).1) (hs.manifests ▸ hm) hid hroot hsigned hmem)
  | @redeemed tokenHash now e _ _ hs =>
    have hother : ∀ id, id ≠ e.identityId → ∀ r, HasRoot db' id r → HasRoot db id r := by
      intro id hne r hr
      rcases (hs.roots _ _).1 hr with hr | ⟨heq, -⟩
      · exact hr
      · exact absurd heq hne
    rcases (Table.mem_insert hs.credentials).1 hc' with hold | rfl
    · have hne : c'.identityId ≠ e.identityId := fun heq => hs.fresh (heq ▸ (hcons.credentials c' hold).1)
      rcases (Table.mem_insert hs.manifests).1 hm with hm | rfl
      · exact h c' hold hactive (revokedEver_before (hother _ hne) hm hid hroot hsigned hmem)
      · exact absurd hid.symm hne
    · rcases (Table.mem_insert hs.manifests).1 hm with hm | rfl
      · -- the identity is new, so no manifest of it was there
        obtain ⟨r, -, hr, -⟩ := hcons.manifests m hm
        rw [hid] at hr
        exact hs.fresh (isMember_iff.2 ⟨r, hr⟩)
      · obtain rfl := hroot.unique ((hs.roots _ _).2 (Or.inr ⟨rfl, rfl⟩))
        exact hcond body hsigned hmem
  | registered hs =>
    have hback := revokedEver_before (fun r => (hs.roots _ r).1) (hs.manifests ▸ hm) hid hroot hsigned hmem
    rcases (Table.mem_insert hs.credentials).1 hc' with hold | rfl
    · exact h c' hold hactive hback
    · exact hcond hback
  | @published identityId seq signed revoked _ _ hs =>
    obtain ⟨root', body', hroot', hsigned', rfl, -⟩ := hallowed
    rcases hs.credentials.from_ c' hc' with hold | ⟨hstatus, -⟩
    · have hold : m ∈ db.manifests ∨ m = ⟨identityId, seq.toNat, signed⟩ := by
        rcases hs.manifests with hsame | hins
        · exact Or.inl (hsame ▸ hm)
        · exact (Table.mem_insert hins).1 hm
      rcases hold with hm | rfl
      · exact h c' ‹_› hactive (revokedEver_before (fun r => (hs.roots _ r).1) hm hid hroot hsigned hmem)
      · obtain rfl : identityId = c'.identityId := hid
        obtain rfl := hroot.unique (hl.roots _ _ hroot')
        obtain rfl : body = body' := Except.ok.inj (hsigned.symm.trans hsigned')
        rw [hs.credentials.named c' hc' rfl hmem] at hactive
        cases hactive
    · rw [hstatus] at hactive
      cases hactive
  | @recovered e revoked now _ _ hs =>
    obtain ⟨-, root', body', hroot', hsigned', rfl, -⟩ := hallowed
    obtain ⟨t, ht, hrev⟩ := hs.credentials
    rcases hrev.from_ c' hc' with hold | ⟨hstatus, -⟩
    · rcases (Table.mem_insert hs.manifests).1 hm with hm | rfl
      · have hback := revokedEver_before (fun r => (hs.roots _ r).1) hm hid hroot hsigned hmem
        rcases (Table.mem_insert ht).1 hold with hold | rfl
        · exact h c' hold hactive hback
        · exact hcond hback
      · have hid : e.identityId = c'.identityId := hid
        rw [← hid] at hroot
        obtain rfl := hroot.unique (hl.roots _ _ hroot')
        obtain rfl : body = body' := Except.ok.inj (hsigned.symm.trans hsigned')
        rw [hrev.named c' hc' hid.symm hmem] at hactive
        cases hactive
    · rw [hstatus] at hactive
      cases hactive

/-- The frames that only a member session is answered. -/
def Frame.requiresMember : Frame → Bool
  | .ping | .endpointListGet | .inviteRedeem .. | .recoverIdentity .. => false
  | _ => true

/-- The frames whose handler reads the credential again. -/
def Frame.rereads : Frame → Bool
  | .invitePolicyGet | .inviteCreate .. | .inviteList .. | .inviteGet .. | .inviteRevoke .. | .inviteAccept ..
  | .keyPackagesClaimOnce .. => true
  | _ => false

def RowRevoked (db : Db) (hash : Bytes) : Prop := ∃ c ∈ db.credentials, c.credentialHash = hash ∧ c.status = .revoked

theorem RowRevoked.later {db db' : Db} {hash : Bytes} (h : RowRevoked db hash) (hl : Later db db') : RowRevoked db' hash := by
  obtain ⟨c, hc, hhash, hstatus⟩ := h
  rcases hl.credentials c hc with hc | hc
  · exact ⟨c, hc, hhash, hstatus⟩
  · exact ⟨_, hc, hhash, rfl⟩

def Refused {α : Type} (p : Txn α) (db : Db) : Prop := ∃ e db', p db = (.error e, db')

theorem refused_fail {α : Type} (e : StoreError) (db : Db) : Refused (Prog.fail e : Txn α) db := ⟨e, db, rfl⟩

theorem Refused.bind {α β : Type} {p : Txn α} {db : Db} (h : Refused p db) (f : α → Txn β) : Refused (p >>= f) db := by
  obtain ⟨e, db', h⟩ := h
  exact ⟨e, db', bind_error h⟩

theorem Refused.unitOfWork {α : Type} {p : Txn α} {db : Db} (h : Refused p db) : Refused (Prog.unitOfWork p) db := by
  obtain ⟨e, db', h⟩ := h
  exact ⟨e, db, by simp only [Prog.unitOfWork, h]⟩

theorem refused_activeRole {db : Db} {hash : Bytes} (h : RowRevoked db hash) (now : Int) : Refused (activeRole hash now) db := by
  obtain ⟨c, hc, hhash, hstatus⟩ := h
  refine ⟨.invitePermission, db, ?_⟩
  have hnone : (db.credentials.get? hash).filter (fun c => c.status = .active && decide (now ≤ c.notAfter)) = none := by
    rw [Table.get?_eq_some.2 ⟨hc, hhash⟩]
    simp [hstatus]
  simp only [activeRole, require, read_run, bind_run, hnone]
  rfl

/-- A handler that ends in an error, whatever the others do. -/
abbrev Refuses (h : Handles cx Outcome) (db : Db) : Prop :=
  Handler.Sound Later (fun _ _ => True) (fun _ _ => True) (fun o _ => o.answer.success = false) h db

theorem refuses_refuse (code : Nat) (message : String) (db : Db) : Refuses (refuse cx code message) db := rfl

theorem refuses_invitationError (e : StoreError) (db : Db) : Refuses (invitationError cx e) db := by
  cases e <;> exact refuses_refuse _ _ db

theorem refuses_invitationCall {c : Call} {k : c.Result → Answer} {db : Db}
    (h : ∀ db', Later db db' → Refused (c.prog cx.sha256) db') : Refuses (invitationCall cx c k) db := by
  refine Handler.sound_ask_bind fun db' hl => ⟨trivial, fun _ => ?_⟩
  obtain ⟨e, db'', hrun⟩ := h db' hl
  have hprog : (service cx.sha256).prog c db' = (.error e, db'') := hrun
  rw [hprog]
  exact refuses_invitationError e db''

/-- A revoked device gets nothing from a frame that reads its credential again. -/
theorem refuses_invitation {d : Device} {db : Db} (h : RowRevoked db d.credentialHash) {f : Frame} (hf : f.rereads = true)
    (now : Int) : Refuses (invitation cx d now f) db := by
  have hrole : ∀ db', Later db db' → Refused (activeRole d.credentialHash now) db' :=
    fun db' hl => refused_activeRole (h.later hl) now
  cases f with
  | invitePolicyGet => exact refuses_invitationCall fun db' hl => (hrole db' hl).bind _
  | inviteCreate key hash ttl =>
    refine refuses_invitationCall fun db' hl => ?_
    dsimp only [Call.prog, issueInvitation]
    split
    · exact refused_fail _ _
    · exact ((hrole db' hl).bind _).unitOfWork
  | inviteList cursor limit =>
    refine refuses_invitationCall fun db' hl => ?_
    dsimp only [Call.prog, listInvitations]
    split
    · exact refused_fail _ _
    · exact (hrole db' hl).bind _
  | inviteGet id =>
    dsimp only [invitation]
    split
    · exact refuses_invitationError _ _
    · exact refuses_invitationCall fun db' hl => (hrole db' hl).bind _
  | inviteRevoke id =>
    dsimp only [invitation]
    split
    · exact refuses_invitationError _ _
    · exact refuses_invitationCall fun db' hl => ((hrole db' hl).bind _).unitOfWork
  | inviteAccept token =>
    dsimp only [invitation]
    split
    · exact refuses_invitationError _ _
    · exact refuses_invitationCall fun db' hl => ((hrole db' hl).bind _).unitOfWork
  | keyPackagesClaimOnce key id device =>
    refine refuses_invitationCall fun db' hl => ?_
    dsimp only [Call.prog, claimKeyPackageOnce]
    split
    · exact refused_fail _ _
    · exact ((hrole db' hl).bind _).unitOfWork
  | _ => cases hf

theorem refuses_dispatch {s : Session} {d : Device} {db : Db} (hd : s.device = some d) (h : RowRevoked db d.credentialHash)
    {f : Frame} (hf : f.rereads = true) (now : Int) : Refuses (dispatch cx items s f now) db := by
  have hsession : dispatchSession cx items s f now = invitation cx d now f := by
    cases f <;> first | (cases hf; done) | simp only [dispatchSession, whenMember, hd]
  unfold dispatch
  split
  · cases f <;> first | (cases hf; done) | exact refuses_refuse _ _ db
  · rw [hsession]
    exact refuses_invitation h hf now

def Known (s : Session) (db : Db) : Prop :=
  ∀ d, s.device = some d → ∃ c ∈ db.credentials, c.credentialHash = d.credentialHash ∧ c.identityId = d.identityId

theorem Known.later {s : Session} {db db' : Db} (h : Known s db) (hl : Later db db') : Known s db' := by
  intro d hd
  obtain ⟨c, hc, hrow⟩ := h d hd
  rcases hl.credentials c hc with hc | hc
  · exact ⟨c, hc, hrow⟩
  · exact ⟨_, hc, hrow⟩

theorem known_admitted {s : Session} {v : RelayIdentity.VerifiedCredential} {a : Answer} {db : Db} {c : CredentialRow}
    (hc : c ∈ db.credentials) (hhash : c.credentialHash = v.hash) (hid : c.identityId = v.identityId) :
    Known (s.enter ⟨a, some (admitted v)⟩) db := by
  intro d hd
  obtain rfl : admitted v = d := Option.some.inj hd
  exact ⟨c, hc, hhash, hid⟩

theorem admission_known : Admission cx items (fun _ _ => True) fun s o db => o.device.isSome = true → Known (s.enter o) db where
  nobody s o db hnone hsome := by
    rw [hnone] at hsome
    cases hsome
  redeem s token credential manifest now v m db r db' hdb hp _ hcall hr a _ := by
    rcases hr with rfl | rfl
    · exact known_admitted ((Table.mem_insert (redeemInvite_ok hcall).credentials).2 (Or.inr rfl)) rfl rfl
    · obtain rfl : db' = db := unitOfWork_error hcall
      obtain ⟨c, hc, hhash, hid⟩ := hdb.redemptions _ (redeemInvite_repeated hcall)
      exact known_admitted hc hhash hid
  recover s credential manifest now v m db n db' hdb hp _ hcall a _ := by
    rcases recoverIdentity_ok hcall with ⟨rfl, c, hc, hhash, hid, -⟩ | hrecovered
    · exact known_admitted hc hhash hid
    · obtain ⟨t, ht, hrev⟩ := hrecovered.credentials
      rcases hrev.kept _ ((Table.mem_insert ht).2 (Or.inr rfl)) with hc | hc
      · exact known_admitted hc rfl rfl
      · exact known_admitted hc rfl rfl

theorem handshake_known : Handshake fun o db => ∀ s, o = some s → Known s db where
  nobody o db hnone s hs d hd := by
    rw [hnone s hs] at hd
    cases hd
  known c db hc _ s hs d hd := by
    obtain rfl := Option.some.inj hs
    obtain rfl := Option.some.inj hd
    exact ⟨c, hc, rfl, rfl⟩

/-- A frame that came when its device was revoked is on its way to an error. -/
def Connection.Watched (items : CborItems) (db : Db) : Connection cx → Prop
  | .idle s => Known s db
  | .busy s f found c k => Known s db ∧ ∀ d, s.device = some d → RevokedEver cx items found d.identityId d.credentialHash →
      f.requiresMember = true → Refuses (.call c k) db
  | _ => True

structure Guarded (items : CborItems) (w : World cx) : Prop where
  running : Running items (fun _ => True) (fun _ _ => True) (fun s o db => o.device.isSome = true → Known (s.enter o) db)
    (fun o db => ∀ s, o = some s → Known s db) w
  active : ActiveUnrevoked cx items w.db
  connections : ∀ conn ∈ w.connections, conn.Watched items w.db

/-- A session whose device is revoked sends no frame that trusts the handshake. -/
def OnLiveSessions (w : World cx) : Event → Prop
  | .frame i f _ => ∀ s d, w.connections[i]? = some (.idle s) → s.device = some d → RowRevoked w.db d.credentialHash →
      f.requiresMember = true → f.rereads = true
  | _ => True

theorem watched_later {conn : Connection cx} {db db' : Db} (hl : Later db db') (h : conn.Watched items db) :
    conn.Watched items db' := by
  cases conn with
  | idle s => exact Known.later h hl
  | busy s f found c k =>
    refine ⟨Known.later h.1 hl, fun d hd hrev hreq => ?_⟩
    exact (h.2 d hd hrev hreq).later Later.trans hl
  | handshake c k => trivial
  | closed => trivial

theorem known_enter {s : Session} {o : Outcome} {db : Db} (hs : Known s db)
    (ho : o.device.isSome = true → Known (s.enter o) db) : Known (s.enter o) db := by
  cases hdev : o.device with
  | some d => exact ho (by rw [hdev]; rfl)
  | none =>
    intro d hd
    refine hs d ?_
    simpa [Session.enter, hdev] using hd

theorem watched_frameGoes {s : Session} {f : Frame} {found db : Db} {h : Handles cx Outcome} (hs : Known s db)
    (hq : SoundHandler cx items (fun _ => True) (fun _ _ => True)
      (fun o db => o.device.isSome = true → Known (s.enter o) db) h db)
    (hr : ∀ d, s.device = some d → RevokedEver cx items found d.identityId d.credentialHash → f.requiresMember = true → Refuses h db) :
    (frameGoes cx s f found h).Watched items db := by
  cases h with
  | done o => exact known_enter hs hq
  | call c k => exact ⟨hs, hr⟩

theorem watched_handshakeGoes {h : Handles cx (Option Session)} {db : Db}
    (hq : SoundHandler cx items (fun _ => True) (fun _ _ => True) (fun o db => ∀ s, o = some s → Known s db) h db) :
    (handshakeGoes cx h).Watched items db := by
  rcases h with (_ | s) | ⟨c, k⟩
  · trivial
  · exact hq s rfl
  · trivial

theorem refuses_frame {w : World cx} {i : Nat} {s : Session} {f : Frame} {now : Int} (hw : Guarded items w)
    (hi : w.connections[i]? = some (.idle s)) (hlive : OnLiveSessions w (.frame i f now)) (d : Device) (hd : s.device = some d)
    (hrev : RevokedEver cx items w.db d.identityId d.credentialHash) (hreq : f.requiresMember = true) :
    Refuses (dispatch cx items s f now) w.db := by
  have hknown : Known s w.db := hw.connections _ (List.mem_of_getElem? hi)
  obtain ⟨c, hc, hhash, hid⟩ := hknown d hd
  have hstatus : c.status = .revoked := by
    cases hs : c.status with
    | revoked => rfl
    | active => exact absurd (hid ▸ hhash ▸ hrev) (hw.active c hc hs)
  have hrow : RowRevoked w.db d.credentialHash := ⟨c, hc, hhash, hstatus⟩
  exact refuses_dispatch hd hrow (hlive s d hi hd hrow hreq) now

theorem watched_set {w : World cx} {i : Nat} {conn : Connection cx} {db' : Db} (hw : Guarded items w) (hl : Later w.db db')
    (hconn : conn.Watched items db') : ∀ conn' ∈ w.connections.set i conn, conn'.Watched items db' := by
  intro conn' hmem
  rcases List.mem_or_eq_of_mem_set hmem with hmem | rfl
  · exact watched_later hl (hw.connections conn' hmem)
  · exact hconn

theorem watched_step {w : World cx} {e : Event} (hw : Guarded items w) (hlive : OnLiveSessions w e) :
    ∀ conn ∈ (step cx items w e).connections, conn.Watched items (step cx items w e).db := by
  have hrefl : Reached cx items w.db w.db := ⟨Later.refl _, hw.running.db⟩
  cases e with
  | connect key now =>
    intro conn hmem
    rcases List.mem_append.1 hmem with hmem | hmem
    · exact hw.connections conn hmem
    · rw [List.mem_singleton.1 hmem]
      exact watched_handshakeGoes (sound_authorize handshake_known key now w.db)
  | frame i f now =>
    dsimp only [step]
    split
    · next s hi =>
      refine watched_set hw hrefl.1 (watched_frameGoes (hw.connections _ (List.mem_of_getElem? hi)) ?_ ?_)
      · exact sound_dispatch admission_known (by cases f <;> first | trivial | exact fun _ _ _ => trivial) now w.db
      · exact refuses_frame hw hi hlive
    · exact hw.connections
  | advance i =>
    dsimp only [step]
    split
    · next c k hi =>
      have hsound : SoundHandler cx items (fun _ => True) (fun _ _ => True) (fun o db => ∀ s, o = some s → Known s db)
        (.call c k) w.db := hw.running.connections _ (List.mem_of_getElem? hi)
      exact watched_set hw (later_call c w.db) (watched_handshakeGoes ((hsound w.db hrefl).2 trivial))
    · next s f found c k hi =>
      have hsound : SoundHandler cx items (fun _ => True) (fun _ _ => True)
        (fun o db => o.device.isSome = true → Known (s.enter o) db) (.call c k) w.db :=
        hw.running.connections _ (List.mem_of_getElem? hi)
      obtain ⟨hknown, hrefuses⟩ := hw.connections _ (List.mem_of_getElem? hi)
      refine watched_set hw (later_call c w.db) (watched_frameGoes (hknown.later (later_call c w.db))
        ((hsound w.db hrefl).2 trivial) fun d hd hrev hreq => ?_)
      exact (hrefuses d hd hrev hreq w.db (Later.refl _)).2 trivial
    · exact hw.connections
  | close i => exact watched_set hw hrefl.1 trivial
  | chore c => exact fun conn hmem => watched_later (later_call c.call w.db) (hw.connections conn hmem)

theorem guarded_step {w : World cx} {e : Event} (hw : Guarded items w) (hregisters : NextCall (RegistersUnrevoked cx items) w e)
    (hlive : OnLiveSessions w e) : Guarded items (step cx items w e) where
  running := running_step admission_known handshake_known (honest_any e) (nextCall_any w e) hw.running
  active := by
    rcases step_effect (fun c _ => by cases c <;> trivial) hregisters hw.running with hsame | ⟨c, hallowed, hcond, heffect⟩
    · rw [hsame]
      exact hw.active
    · exact activeUnrevoked_effect hw.running.db hallowed hcond heffect hw.active
  connections := watched_step hw hlive

theorem answers_refused {w : World cx} {e : Event} {a : Answered} {d : Device} (hw : Guarded items w)
    (hlive : OnLiveSessions w e) (ha : answers cx items w e = some a) (hd : a.session.device = some d)
    (hrev : RevokedEver cx items a.found d.identityId d.credentialHash) (hreq : a.frame.requiresMember = true) :
    a.answer.success = false := by
  cases e with
  | connect key now => cases ha
  | close i => cases ha
  | chore c => cases ha
  | frame i f now =>
    dsimp only [answers] at ha
    split at ha
    · next s hi =>
      split at ha
      · next o ho =>
        obtain rfl := Option.some.inj ha
        have hrefuses := refuses_frame hw hi hlive d hd hrev hreq
        rw [ho] at hrefuses
        exact hrefuses
      · cases ha
    · cases ha
  | advance i =>
    dsimp only [answers] at ha
    split at ha
    · next s f found c k hi =>
      split at ha
      · next o ho =>
        obtain rfl := Option.some.inj ha
        have hconn := hw.connections _ (List.mem_of_getElem? hi)
        have hend : Refuses (k (c.prog cx.sha256 w.db).1) (c.prog cx.sha256 w.db).2 :=
          (hconn.2 d hd hrev hreq w.db (Later.refl _)).2 trivial
        rw [ho] at hend
        exact hend
      · cases ha
    · cases ha

/-- In every run in which no credential is registered that a stored manifest revokes, and
no session of a revoked device sends a frame that trusts the handshake, a frame that comes
after the revocation of its device is answered with an error. -/
theorem revoked_devices_are_refused (cx : Crypto) (items : CborItems) (evs : List Event) (e : Event) (a : Answered) (d : Device)
    (hregisters : Trace.Meets (step cx items) (NextCall (RegistersUnrevoked cx items)) (start cx) (evs ++ [e]))
    (hlive : Trace.Meets (step cx items) OnLiveSessions (start cx) (evs ++ [e]))
    (ha : answers cx items (Trace.run (step cx items) (start cx) evs) e = some a) (hd : a.session.device = some d)
    (hrevoked : RevokedEver cx items a.found d.identityId d.credentialHash) (hreq : a.frame.requiresMember = true) :
    a.answer.success = false := by
  obtain ⟨hbefore, hlast, -⟩ := Trace.meets_append.1 (hregisters.and hlive)
  have hw := Trace.invariant (fun w e he hw => guarded_step hw he.1 he.2) hbefore
    ⟨running_start, fun c hc => absurd hc (Table.not_mem_empty c), fun _ hmem => nomatch hmem⟩
  exact answers_refused hw hlast.2 ha hd hrevoked hreq

theorem revokedEver_iff {db : Db} {identityId hash : Bytes} : RevokedEver cx items db identityId hash ↔
    ∃ m ∈ db.manifests.rows, m.identityId = identityId ∧ ∃ body ∈ verifiedBody cx items db m, hash ∈ body.revokedCredentialHashes := by
  simp only [Option.mem_def, verifiedBody_eq_some]
  constructor
  · rintro ⟨m, hm, rfl, root, body, hroot, hbody, hmem⟩
    exact ⟨m, hm, rfl, body, ⟨root, hroot, hbody⟩, hmem⟩
  · rintro ⟨m, hm, rfl, body, ⟨root, hroot, hbody⟩, hmem⟩
    exact ⟨m, hm, rfl, root, body, hroot, hbody, hmem⟩

instance (db : Db) (identityId hash : Bytes) : Decidable (RevokedEver cx items db identityId hash) :=
  decidable_of_iff _ revokedEver_iff.symm

theorem registersUnrevoked_iff {c : Call} {db : Db} : RegistersUnrevoked cx items c db ↔
    (∀ p ∈ c.redeems, ∀ body ∈ (RelayIdentity.verifyManifest cx items p.2.signedManifest p.2.rootPublic).toOption,
      p.2.credentialHash ∉ body.revokedCredentialHashes) ∧
    (∀ e ∈ c.stored, ¬ RevokedEver cx items db e.identityId e.credentialHash) ∧
    ∀ p ∈ c.recovers, ¬ RevokedEver cx items db p.1.identityId p.1.credentialHash := by
  have htoOption : ∀ (r : Except RelayIdentity.Error DeviceManifest) body, body ∈ r.toOption ↔ r = .ok body := by
    intro r body
    cases r with
    | error e => exact ⟨(fun h => nomatch h), (fun h => nomatch h)⟩
    | ok b => simp [Except.toOption]
  cases c <;> simp [RegistersUnrevoked, Call.redeems, Call.stored, Call.recovers, Signed, htoOption]

instance (c : Call) (db : Db) : Decidable (RegistersUnrevoked cx items c db) := decidable_of_iff _ registersUnrevoked_iff.symm

instance (db : Db) (hash : Bytes) : Decidable (RowRevoked db hash) :=
  inferInstanceAs (Decidable (∃ c ∈ db.credentials.rows, c.credentialHash = hash ∧ c.status = .revoked))

def Connection.waiting : Connection cx → Option Device
  | .idle s => s.device
  | _ => none

instance (w : World cx) (e : Event) : Decidable (OnLiveSessions w e) :=
  match e with
  | .connect _ _ | .advance _ | .close _ | .chore _ => .isTrue trivial
  | .frame i f _ => decidable_of_iff (∀ d ∈ w.connections[i]?.bind Connection.waiting, RowRevoked w.db d.credentialHash →
      f.requiresMember = true → f.rereads = true) (by
      constructor
      · intro h s d hi hd
        exact h d (by rw [hi]; exact hd)
      · intro h d hd
        obtain ⟨conn, hi, hwaiting⟩ := Option.bind_eq_some_iff.1 hd
        cases conn with
        | idle s => exact h s d hi hwaiting
        | _ => cases hwaiting)

open Demo

/-- The device is revoked while its session is open. -/
def revokedOpen : List Event := enrolls ++ ([.frame 0 (.manifestPut manifestGone) 5, .advance 0, .advance 0] : List Event)

/-- The frame came after the revocation of its device and requires a member. -/
def AfterRevocation (a : Answered) : Prop := a.frame.requiresMember = true ∧
  ∃ d ∈ a.session.device, RevokedEver cborCrypto cborItems a.found d.identityId d.credentialHash

instance (a : Answered) : Decidable (AfterRevocation a) := inferInstanceAs (Decidable (_ ∧ _))

theorem revoked_device_creates_mailbox :
    ¬ ∀ (evs : List Event) (e : Event) (a : Answered) (d : Device), answers cborCrypto cborItems (realmRun evs) e = some a →
      a.session.device = some d → RevokedEver cborCrypto cborItems a.found d.identityId d.credentialHash →
      a.frame.requiresMember = true → a.answer.success = false := by
  intro h
  have hrun : ∃ a ∈ answers cborCrypto cborItems (realmRun (revokedOpen ++ [Event.frame 0 (.mailboxCreate [] [] [] [1] [2] [3]) 5]))
      (.advance 0), AfterRevocation a ∧ a.answer = .mailboxCreated ⟨[1], [2], [3]⟩ := by decide +kernel
  obtain ⟨a, ha, ⟨hreq, d, hd, hrev⟩, hanswer⟩ := hrun
  have hfails := h _ _ a d ha hd hrev hreq
  rw [hanswer] at hfails
  cases hfails

/-- The same device asks for its invitation policy. -/
theorem revoked_device_is_refused : ∃ a ∈ answers cborCrypto cborItems (realmRun (revokedOpen ++ [Event.frame 0 .invitePolicyGet 5]))
    (.advance 0), AfterRevocation a ∧ a.answer.success = false := by
  have hrun : (∃ a ∈ answers cborCrypto cborItems (realmRun (revokedOpen ++ [Event.frame 0 .invitePolicyGet 5])) (.advance 0),
        AfterRevocation a) ∧
      Trace.Meets (step cborCrypto cborItems) (NextCall (RegistersUnrevoked cborCrypto cborItems)) (start cborCrypto)
        ((revokedOpen ++ [Event.frame 0 .invitePolicyGet 5]) ++ [Event.advance 0]) ∧
      Trace.Meets (step cborCrypto cborItems) OnLiveSessions (start cborCrypto)
        ((revokedOpen ++ [Event.frame 0 .invitePolicyGet 5]) ++ [Event.advance 0]) := by decide +kernel
  obtain ⟨⟨a, ha, hafter⟩, hregisters, hlive⟩ := hrun
  obtain ⟨hreq, d, hd, hrev⟩ := id hafter
  exact ⟨a, ha, hafter, revoked_devices_are_refused cborCrypto cborItems _ _ a d hregisters hlive ha hd hrev hreq⟩

end Arveil.RelayServer

import Arveil.Proofs.Consequences

/-! Requests for mailboxes. One request key makes one mailbox, and a capability belongs to one
mailbox and one scope from the call that stores it on. -/

namespace Arveil.RelayStore

open Prog RelayServer

variable {sha256 : Bytes → Bytes}

/-- The hash is bound to the mailbox and the scope, revoked or not. -/
def Bound (db : Db) (hash mailboxId : Bytes) (scope : Scope) : Prop :=
  ∃ c ∈ db.capabilities, c.capHash = hash ∧ c.mailboxId = mailboxId ∧ c.scope = scope

theorem Bound.unique {db : Db} {hash mailboxId mailboxId' : Bytes} {scope scope' : Scope} (h : Bound db hash mailboxId scope)
    (h' : Bound db hash mailboxId' scope') : mailboxId' = mailboxId ∧ scope' = scope := by
  obtain ⟨c, hc, hhash, rfl, rfl⟩ := h
  obtain ⟨c', hc', hhash', rfl, rfl⟩ := h'
  obtain rfl := Table.eq_of_key hc hc' (hhash.trans hhash'.symm)
  exact ⟨rfl, rfl⟩

def Binds (db db' : Db) : Prop := ∀ hash mailboxId scope, Bound db hash mailboxId scope → Bound db' hash mailboxId scope

theorem Binds.refl (db : Db) : Binds db db := fun _ _ _ h => h

theorem Binds.trans (db₁ db₂ db₃ : Db) (h : Binds db₁ db₂) (h' : Binds db₂ db₃) : Binds db₁ db₃ :=
  fun _ _ _ hb => h' _ _ _ (h _ _ _ hb)

theorem Binds.of_same {db db' : Db} (h : db'.capabilities = db.capabilities) : Binds db db' := by
  rintro hash mailboxId scope ⟨c, hc, hbound⟩
  exact ⟨c, h ▸ hc, hbound⟩

theorem Binds.of_insert {db db' : Db} {row : CapabilityRow} (h : db.capabilities.insert row = some db'.capabilities) :
    Binds db db' := by
  rintro hash mailboxId scope ⟨c, hc, hbound⟩
  exact ⟨c, (Table.mem_insert h).2 (Or.inl hc), hbound⟩

theorem binds_revokeDevice (identityId hash deviceId : Bytes) (db : Db) : Binds db (revokeDevice identityId hash deviceId db) := by
  have hrevoked : Binds db (revokeCapabilities identityId deviceId (setRevoked hash db)) := by
    rintro h m s ⟨c, hc, hhash, hmailbox, hscope⟩
    have hkey : ∀ r : CapabilityRow, { r with revoked := true }.capHash = r.capHash := fun _ => rfl
    refine ⟨_, @Table.mem_update_of_mem _ _ _ _ _ hkey _ _ hc, ?_⟩
    split
    · exact ⟨hhash, hmailbox, hscope⟩
    · exact ⟨hhash, hmailbox, hscope⟩
  unfold revokeDevice forgetWatchKey
  split
  · exact hrevoked
  · exact hrevoked

theorem binds_revokeEach (identityId : Bytes) (hashes : List Bytes) (db : Db) : Binds db (revokeEach identityId hashes db).2 := by
  induction hashes generalizing db with
  | nil => exact .refl db
  | cons hash hashes ih =>
    unfold revokeEach
    split
    · exact ih db
    · exact .trans _ _ _ (binds_revokeDevice _ _ _ db) (ih _)

theorem binds_revokeAgain (identityId : Bytes) (hashes : List Bytes) (db : Db) : Binds db (revokeAgain identityId hashes db) := by
  induction hashes generalizing db with
  | nil => exact .refl db
  | cons hash hashes ih =>
    unfold revokeAgain
    split
    · exact ih db
    · exact .trans _ _ _ (binds_revokeDevice _ _ _ db) (ih _)

theorem keeps_insertRow {ρ : Type} {R : Db → Db → Prop} (hr : ∀ db, R db db) {e : StoreError} {g : ρ → Db → Option Db} {row : ρ}
    (h : ∀ db db', g row db = some db' → R db db') : Keeps R (insertRow e g row) := by
  refine keeps_tryModify hr fun db db' hg => ?_
  cases hrow : g row db with
  | none => simp [hrow] at hg
  | some db₁ =>
    obtain rfl : db₁ = db' := by simpa [hrow] using hg
    exact h db db₁ hrow

theorem binds_insertRow {ρ : Type} {p : Part} {e : StoreError} {g : ρ → Db → Option Db} {row : ρ} (hg : InsertsInto p g)
    (hp : p ≠ .capabilities) : Keeps Binds (insertRow e g row) := by
  refine keeps_insertRow Binds.refl fun db db' h => .of_same ?_
  obtain ⟨t, rfl⟩ := hg row db db' h
  exact part_set_ne (p := p) hp.symm db t

theorem binds_addCapability {e : StoreError} {row : CapabilityRow} : Keeps Binds (insertRow e addCapability row) := by
  refine keeps_insertRow Binds.refl fun db db' h => ?_
  obtain ⟨t, ht, rfl⟩ := addCapability_eq_some h
  exact .of_insert ht

theorem binds_addMailbox {e : StoreError} {row : OwnerRow} : Keeps Binds (insertRow e addMailbox row) := by
  refine keeps_insertRow Binds.refl fun db db' h => ?_
  obtain ⟨-, owners, queue, -, rfl⟩ := addMailbox_eq_some h
  exact .of_same rfl

theorem binds_createMailboxForRequest (identityId deviceId requestKey readCap writeCap id : Bytes) (now : Int) :
    Keeps Binds (createMailboxForRequest sha256 identityId deviceId requestKey readCap writeCap id now) := by
  refine keeps_unitOfWork Binds.refl (keeps_bind Binds.trans (keeps_read Binds.refl _) fun r => ?_)
  cases r with
  | some r =>
    dsimp only
    split
    · exact keeps_fail Binds.refl _
    · exact keeps_pure Binds.refl _
  | none =>
    refine keeps_bind Binds.trans binds_addMailbox fun _ => keeps_bind Binds.trans binds_addCapability fun _ => ?_
    refine keeps_bind Binds.trans binds_addCapability fun _ => ?_
    exact keeps_bind Binds.trans (binds_insertRow insertsInto_mailboxRequest nofun) fun _ => keeps_pure Binds.refl _

theorem binds_call (c : Call) (db : Db) : Binds db (after sha256 db c) := by
  have hpart : Part.capabilities ∉ writes c → Binds db (after sha256 db c) := fun hw => .of_same (part_call c db hw)
  cases c with
  | publishManifest identityId seq signed revoked =>
    refine keeps_unitOfWork Binds.refl (keeps_bind Binds.trans (keeps_read Binds.refl _) fun _ => ?_) db
    refine keeps_bind Binds.trans (keeps_when Binds.refl _ (keeps_fail Binds.refl _)) fun _ => ?_
    refine keeps_bind Binds.trans (keeps_when Binds.refl _ (binds_insertRow insertsInto_manifest nofun)) fun _ => ?_
    exact fun db => binds_revokeEach _ _ db
  | recoverIdentity e revoked now =>
    refine keeps_unitOfWork Binds.refl (keeps_bind Binds.trans (keeps_read Binds.refl _) fun r => ?_) db
    cases r with
    | some r =>
      dsimp only
      split
      · exact keeps_fail Binds.refl _
      · exact keeps_pure Binds.refl _
    | none =>
      refine keeps_bind Binds.trans (keeps_read Binds.refl _) fun _ => ?_
      refine keeps_bind Binds.trans (keeps_when Binds.refl _ (keeps_fail Binds.refl _)) fun _ => ?_
      refine keeps_bind Binds.trans (binds_insertRow insertsInto_manifest nofun) fun _ => ?_
      refine keeps_bind Binds.trans (binds_insertRow insertsInto_credential nofun) fun _ => ?_
      refine keeps_bind Binds.trans (keeps_modify fun db => binds_revokeAgain _ _ db) fun _ => ?_
      exact keeps_bind Binds.trans (binds_insertRow insertsInto_recovery nofun) fun _ => keeps_pure Binds.refl _
  | createMailbox identityId deviceId id readCap writeCap now =>
    exact keeps_unitOfWork Binds.refl (keeps_bind Binds.trans binds_addMailbox fun _ =>
      keeps_bind Binds.trans binds_addCapability fun _ => keeps_bind Binds.trans binds_addCapability fun _ =>
      keeps_pure Binds.refl _) db
  | createMailboxForRequest identityId deviceId requestKey readCap writeCap id now =>
    exact binds_createMailboxForRequest identityId deviceId requestKey readCap writeCap id now db
  | _ => exact hpart (by simp [writes])

theorem binds_run (db : Db) (calls : List Call) : Binds db (Trace.run (after sha256) db calls) :=
  Trace.invariant (I := Binds db) (fun db' c _ h => .trans _ _ _ h (binds_call c db')) (Trace.meets_true db calls) (.refl db)

/-- A request for a mailbox; the relay draws the id a new one gets. -/
structure Request where
  ownerIdentity : Bytes
  ownerDevice : Bytes
  requestKey : Bytes
  readCap : Bytes
  writeCap : Bytes
  id : Bytes
  now : Int

def Request.run (sha256 : Bytes → Bytes) (q : Request) : Txn Mailbox :=
  createMailboxForRequest sha256 q.ownerIdentity q.ownerDevice q.requestKey q.readCap q.writeCap q.id q.now

def Request.call (q : Request) : Call :=
  .createMailboxForRequest q.ownerIdentity q.ownerDevice q.requestKey q.readCap q.writeCap q.id q.now

def Request.row (sha256 : Bytes → Bytes) (q : Request) (mailboxId : Bytes) : MailboxRequestRow :=
  ⟨q.requestKey, q.ownerDevice, mailboxId, sha256 q.readCap, sha256 q.writeCap⟩

def Request.mailbox (q : Request) (mailboxId : Bytes) : Mailbox := ⟨mailboxId, q.readCap, q.writeCap⟩

/-- A request makes its mailbox: one mailbox, two capabilities and the record of the request. -/
structure Request.Makes (sha256 : Bytes → Bytes) (q : Request) (db db' : Db) : Prop where
  unasked : ∀ r ∈ db.mailboxRequests, r.requestKey ≠ q.requestKey
  owner : db.owners.insert ⟨q.id, q.ownerIdentity, q.ownerDevice⟩ = some db'.owners
  capabilities : ∃ t, db.capabilities.insert ⟨sha256 q.readCap, q.id, .read, q.now + capabilityTtl, false⟩ = some t ∧
    t.insert ⟨sha256 q.writeCap, q.id, .write, q.now + capabilityTtl, false⟩ = some db'.capabilities
  recorded : db.mailboxRequests.insert (q.row sha256 q.id) = some db'.mailboxRequests
  rest : outside [.owners, .queue, .capabilities, .mailboxRequests] db' = outside [.owners, .queue, .capabilities, .mailboxRequests] db

theorem request_recorded {q : Request} {db : Db} {r : MailboxRequestRow} (hr : r ∈ db.mailboxRequests)
    (hkey : r.requestKey = q.requestKey) :
    q.run sha256 db = if r = q.row sha256 r.mailboxId then (.ok (q.mailbox r.mailboxId), db) else (.error .requestConflict, db) := by
  have hget : db.mailboxRequests.get? q.requestKey = some r := Table.get?_eq_some.2 ⟨hr, hkey⟩
  have hsame : (r.ownerDevice ≠ q.ownerDevice ∨ r.readHash ≠ sha256 q.readCap ∨ r.writeHash ≠ sha256 q.writeCap) ↔
      ¬r = q.row sha256 r.mailboxId := by
    obtain ⟨key, device, mailbox, read, write⟩ := r
    obtain rfl : key = q.requestKey := hkey
    simp only [Request.row, MailboxRequestRow.mk.injEq, true_and, not_and_or, ne_eq]
  unfold Request.run createMailboxForRequest unitOfWork
  rw [bind_ok (read_run _ _), hget]
  dsimp only
  split_ifs with hbad hrow hrow
  · exact absurd hrow (hsame.1 hbad)
  · rfl
  · rfl
  · exact absurd (hsame.2 hrow) hbad

theorem request_ok {q : Request} {db db' : Db} {m : Mailbox} (h : q.run sha256 db = (.ok m, db')) :
    (q.row sha256 m.mailboxId ∈ db.mailboxRequests ∧ m = q.mailbox m.mailboxId ∧ db' = db) ∨
      (q.Makes sha256 db db' ∧ m = q.mailbox q.id) := by
  cases hget : db.mailboxRequests.get? q.requestKey with
  | some r =>
    left
    obtain ⟨hr, hkey⟩ := Table.get?_eq_some.1 hget
    rw [request_recorded hr hkey] at h
    split_ifs at h with hrow
    · obtain ⟨hm, rfl⟩ := Prod.mk.inj h
      obtain rfl := Except.ok.inj hm
      exact ⟨hrow ▸ hr, rfl, rfl⟩
    · exact absurd (congrArg Prod.fst h) nofun
  | none =>
    right
    rw [Request.run, createMailboxForRequest, unitOfWork_eq_ok, bind_ok (read_run _ _), hget] at h
    simp only [bind_eq_ok, insertRow_eq_ok, pure_run, Prod.mk.injEq, Except.ok.injEq] at h
    obtain ⟨-, db₁, hmailbox, -, db₂, hread, -, db₃, hwrite, -, db₄, hrequest, rfl, rfl⟩ := h
    obtain ⟨-, owners, queue, howners, rfl⟩ := addMailbox_eq_some hmailbox
    obtain ⟨tr, htr, rfl⟩ := addCapability_eq_some hread
    obtain ⟨tw, htw, rfl⟩ := addCapability_eq_some hwrite
    obtain ⟨tq, htq, rfl⟩ := Option.map_eq_some_iff.1 hrequest
    refine ⟨⟨Table.get?_eq_none.1 hget, howners, ⟨tr, htr, htw⟩, htq, ?_⟩, rfl⟩
    funext p hp
    cases p <;> first | rfl | exact absurd (by decide) hp

theorem Request.Makes.fresh {q : Request} {db db' : Db} (h : q.Makes sha256 db db') :
    (∀ mailboxId scope, ¬Bound db (sha256 q.readCap) mailboxId scope) ∧
      (∀ mailboxId scope, ¬Bound db (sha256 q.writeCap) mailboxId scope) ∧ sha256 q.readCap ≠ sha256 q.writeCap := by
  obtain ⟨t, hread, hwrite⟩ := h.capabilities
  obtain ⟨-, hfresh⟩ := Table.insert_eq_some hread
  obtain ⟨-, hfresh'⟩ := Table.insert_eq_some hwrite
  refine ⟨?_, ?_, fun heq => hfresh' _ ((Table.mem_insert hread).2 (Or.inr rfl)) heq⟩
  · rintro mailboxId scope ⟨c, hc, hhash, -⟩
    exact hfresh c hc hhash
  · rintro mailboxId scope ⟨c, hc, hhash, -⟩
    exact hfresh' c ((Table.mem_insert hread).2 (Or.inl hc)) hhash

theorem Request.Makes.bound {q : Request} {db db' : Db} (h : q.Makes sha256 db db') :
    Bound db' (sha256 q.readCap) q.id .read ∧ Bound db' (sha256 q.writeCap) q.id .write := by
  obtain ⟨t, hread, hwrite⟩ := h.capabilities
  exact ⟨⟨_, (Table.mem_insert hwrite).2 (Or.inl ((Table.mem_insert hread).2 (Or.inr rfl))), rfl, rfl, rfl⟩,
    ⟨_, (Table.mem_insert hwrite).2 (Or.inr rfl), rfl, rfl, rfl⟩⟩

theorem requests_call (c : Call) (db : Db) :
    (∃ q : Request, c = q.call) ∨ (after sha256 db c).mailboxRequests = db.mailboxRequests := by
  have hpart : Part.mailboxRequests ∉ writes c → (after sha256 db c).mailboxRequests = db.mailboxRequests :=
    fun hw => part_call c db hw
  cases c with
  | createMailboxForRequest identityId deviceId requestKey readCap writeCap id now =>
    exact Or.inl ⟨⟨identityId, deviceId, requestKey, readCap, writeCap, id, now⟩, rfl⟩
  | _ => exact Or.inr (hpart (by simp [writes]))

theorem after_request (q : Request) (db : Db) : after sha256 db q.call = db ∨ q.Makes sha256 db (after sha256 db q.call) := by
  show (q.run sha256 db).2 = db ∨ q.Makes sha256 db (q.run sha256 db).2
  rcases h : q.run sha256 db with ⟨e | m, db'⟩
  · exact Or.inl (unitOfWork_error h)
  · rcases request_ok h with ⟨-, -, hsame⟩ | ⟨hmakes, -⟩
    · exact Or.inl hsame
    · exact Or.inr hmakes

theorem request_call {db : Db} (c : Call) {r : MailboxRequestRow} (hr : r ∈ db.mailboxRequests) :
    r ∈ (after sha256 db c).mailboxRequests := by
  rcases requests_call c db with ⟨q, rfl⟩ | hsame
  · rcases after_request q db with hsame | hmakes
    · exact hsame.symm ▸ hr
    · exact (Table.mem_insert hmakes.recorded).2 (Or.inl hr)
  · exact hsame.symm ▸ hr

theorem request_run {db : Db} (calls : List Call) {r : MailboxRequestRow} (hr : r ∈ db.mailboxRequests) :
    r ∈ (Trace.run (after sha256) db calls).mailboxRequests :=
  Trace.invariant (I := fun db => r ∈ db.mailboxRequests) (fun _ c _ h => request_call c h) (Trace.meets_true db calls) hr

/-- Every recorded request has its capabilities bound to its mailbox. -/
def RequestsBound (db : Db) : Prop :=
  ∀ r ∈ db.mailboxRequests, Bound db r.readHash r.mailboxId .read ∧ Bound db r.writeHash r.mailboxId .write

theorem requestsBound_call {db : Db} (h : RequestsBound db) (c : Call) : RequestsBound (after sha256 db c) := by
  have hold : ∀ r ∈ db.mailboxRequests, Bound (after sha256 db c) r.readHash r.mailboxId .read ∧
      Bound (after sha256 db c) r.writeHash r.mailboxId .write :=
    fun r hr => ⟨binds_call c db _ _ _ (h r hr).1, binds_call c db _ _ _ (h r hr).2⟩
  rcases requests_call c db with ⟨q, rfl⟩ | hsame
  · rcases after_request q db with hsame | hmakes
    · exact hsame.symm ▸ h
    · intro r hr
      rcases (Table.mem_insert hmakes.recorded).1 hr with hr | rfl
      · exact hold r hr
      · exact hmakes.bound
  · exact fun r hr => hold r (hsame ▸ hr)

theorem requestsBound_run (calls : List Call) : RequestsBound (Trace.run (after sha256) .empty calls) :=
  Trace.invariant (I := RequestsBound) (fun _ c _ h => requestsBound_call h c) (Trace.meets_true Db.empty calls)
    fun r hr => absurd hr (Table.not_mem_empty r)

theorem checkCapability_ok {mailboxId capability : Bytes} {scope : Scope} {now : Int} {db : Db}
    (h : (checkCapability sha256 mailboxId capability scope now db).1 = .ok ()) : Bound db (sha256 capability) mailboxId scope := by
  rw [checkCapability, bind_ok (read_run _ _)] at h
  cases hc : db.capabilities.get? (sha256 capability) with
  | none =>
    rw [hc] at h
    exact absurd h nofun
  | some c =>
    obtain ⟨hmem, hhash⟩ := Table.get?_eq_some.1 hc
    rw [hc, Option.any_some] at h
    by_cases hholds : c.mailboxId = mailboxId && c.scope = scope && c.revoked = false && decide (now < c.expiresAt)
    · simp only [Bool.and_eq_true, decide_eq_true_eq] at hholds
      exact ⟨c, hmem, hhash, hholds.1.1.1, hholds.1.1.2⟩
    · rw [Bool.not_eq_true] at hholds
      rw [hholds] at h
      exact absurd h nofun

/-- What a request does in the store `db`, and what is kept of it in the store `later`. -/
structure Request.Honoured (sha256 : Bytes → Bytes) (q : Request) (db : Db) (more : List Call) : Prop where
  refused : ∀ e db', q.run sha256 db = (.error e, db') → db' = db
  made : ∀ m db', q.run sha256 db = (.ok m, db') →
    (q.row sha256 m.mailboxId ∈ db.mailboxRequests ∧ m = q.mailbox m.mailboxId ∧ db' = db) ∨
      (q.Makes sha256 db db' ∧ m = q.mailbox q.id)
  bound : ∀ m db', q.run sha256 db = (.ok m, db') →
    Bound db' (sha256 q.readCap) m.mailboxId .read ∧ Bound db' (sha256 q.writeCap) m.mailboxId .write
  repeated : ∀ m db', q.run sha256 db = (.ok m, db') → ∀ q' : Request, q'.requestKey = q.requestKey →
    q'.run sha256 (Trace.run (after sha256) db' more) =
      (if q'.ownerDevice = q.ownerDevice ∧ sha256 q'.readCap = sha256 q.readCap ∧ sha256 q'.writeCap = sha256 q.writeCap
        then .ok (q'.mailbox m.mailboxId) else .error .requestConflict, Trace.run (after sha256) db' more)
  taken : (∀ r ∈ db.mailboxRequests, r.requestKey ≠ q.requestKey) →
    (∃ mailboxId scope, Bound db (sha256 q.readCap) mailboxId scope ∨ Bound db (sha256 q.writeCap) mailboxId scope) ∨
      sha256 q.readCap = sha256 q.writeCap → ∃ e, q.run sha256 db = (.error e, db)
  one : ∀ hash mailboxId mailboxId' scope scope', Bound db hash mailboxId scope →
    Bound (Trace.run (after sha256) db more) hash mailboxId' scope' → mailboxId' = mailboxId ∧ scope' = scope
  checked : ∀ capability mailboxId mailboxId' scope scope' now now',
    (checkCapability sha256 mailboxId capability scope now db).1 = .ok () →
    (checkCapability sha256 mailboxId' capability scope' now' (Trace.run (after sha256) db more)).1 = .ok () →
      mailboxId' = mailboxId ∧ scope' = scope

theorem request_repeated {q q' : Request} {db : Db} {mailboxId : Bytes} (h : q.row sha256 mailboxId ∈ db.mailboxRequests)
    (hkey : q'.requestKey = q.requestKey) : q'.run sha256 db =
      (if q'.ownerDevice = q.ownerDevice ∧ sha256 q'.readCap = sha256 q.readCap ∧ sha256 q'.writeCap = sha256 q.writeCap
        then .ok (q'.mailbox mailboxId) else .error .requestConflict, db) := by
  rw [request_recorded h hkey.symm]
  have hsame : q.row sha256 mailboxId = q'.row sha256 mailboxId ↔
      (q'.ownerDevice = q.ownerDevice ∧ sha256 q'.readCap = sha256 q.readCap ∧ sha256 q'.writeCap = sha256 q.writeCap) := by
    simp only [Request.row, MailboxRequestRow.mk.injEq, hkey, true_and]
    constructor
    · rintro ⟨hdevice, hread, hwrite⟩
      exact ⟨hdevice.symm, hread.symm, hwrite.symm⟩
    · rintro ⟨hdevice, hread, hwrite⟩
      exact ⟨hdevice.symm, hread.symm, hwrite.symm⟩
  show (if q.row sha256 mailboxId = q'.row sha256 mailboxId then _ else _) = _
  split_ifs with hrow hparams hparams
  · rfl
  · exact absurd (hsame.1 hrow) hparams
  · exact absurd (hsame.2 hparams) hrow
  · rfl

/-- Mailbox creation is idempotent and exclusive, whatever calls come before and after. -/
theorem mailboxes_are_exclusive (sha256 : Bytes → Bytes) (before more : List Call) (q : Request) :
    q.Honoured sha256 (Trace.run (after sha256) .empty before) more := by
  have hrecorded : RequestsBound (Trace.run (after sha256) .empty before) := requestsBound_run before
  generalize Trace.run (after sha256) .empty before = db at hrecorded
  have hone : ∀ hash mailboxId mailboxId' scope scope', Bound db hash mailboxId scope →
      Bound (Trace.run (after sha256) db more) hash mailboxId' scope' → mailboxId' = mailboxId ∧ scope' = scope :=
    fun _ _ _ _ _ h h' => (binds_run db more _ _ _ h).unique h'
  refine ⟨fun e db' h => unitOfWork_error h, fun m db' h => request_ok h, fun m db' h => ?_, fun m db' h q' hkey => ?_,
    fun hunasked htaken => ?_, hone, fun _ _ _ _ _ _ _ h h' => hone _ _ _ _ _ (checkCapability_ok h) (checkCapability_ok h')⟩
  · rcases request_ok h with ⟨hrow, -, rfl⟩ | ⟨hmakes, rfl⟩
    · exact hrecorded _ hrow
    · exact hmakes.bound
  · refine request_repeated (request_run more ?_) hkey
    rcases request_ok h with ⟨hrow, -, rfl⟩ | ⟨hmakes, rfl⟩
    · exact hrow
    · exact (Table.mem_insert hmakes.recorded).2 (Or.inr rfl)
  · rcases h : q.run sha256 db with ⟨e | m, db'⟩
    · exact ⟨e, by rw [unitOfWork_error h]⟩
    · rcases request_ok h with ⟨hrow, -, -⟩ | ⟨hmakes, -⟩
      · exact absurd rfl (hunasked _ hrow)
      · obtain ⟨hread, hwrite, hne⟩ := hmakes.fresh
        rcases htaken with ⟨mailboxId, scope, hbound | hbound⟩ | heq
        · exact absurd hbound (hread _ _)
        · exact absurd hbound (hwrite _ _)
        · exact absurd heq hne

end Arveil.RelayStore

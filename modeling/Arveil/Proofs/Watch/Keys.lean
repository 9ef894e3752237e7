import Arveil.Proofs.Consequences
import Arveil.Proofs.WatchKeys
import Arveil.Proofs.Wakeups
import Arveil.Spec.Watch

/-! What the store says of a watch key: which calls make a key stale, and what follows them. A
mailbox keeps the device it was created for. -/

namespace Arveil.Watch

open RelayStore RelayServer Prog

variable {sha256 : Bytes → Bytes}

/-- The key is the device's watch key, and the device has a credential that is not revoked. -/
def Registered (identity device key : Bytes) (db : Db) : Prop :=
  db.watchKeys.get? (identity, device) = some ⟨identity, device, key⟩ ∧
    db.credentials.rows.any (fun c => c.identityId = identity && c.deviceId = device && c.status = .active) = true

instance (identity device key : Bytes) (db : Db) : Decidable (Registered identity device key db) :=
  inferInstanceAs (Decidable (_ ∧ _))

theorem registered_iff {identity device key : Bytes} {db : Db} : Registered identity device key db ↔
    ⟨identity, device, key⟩ ∈ db.watchKeys ∧
      ∃ c ∈ db.credentials, c.identityId = identity ∧ c.deviceId = device ∧ c.status = .active := by
  unfold Registered
  rw [Table.get?_eq_some, List.any_eq_true]
  simp [Table.mem_def, and_assoc]

theorem registered_rule (identity device key : Bytes) :
    KeyRuleFor (· ≠ identity) (Registered identity device key) where
  view hview h := by
    obtain ⟨hc, hw⟩ := Prod.mk.inj hview
    rw [Registered, hc, hw]
    exact h
  add hadd h := by
    have hr := addCredential_registers hadd
    rw [registered_iff] at h ⊢
    obtain ⟨hw, c, hc, hid⟩ := h
    rw [hr.watchKeys]
    exact ⟨hw, c, (Table.mem_insert hr.credentials).2 (Or.inl hc), hid⟩
  revoke {db c} hmem hother h := by
    rw [registered_iff] at h ⊢
    obtain ⟨hw, c', hc', hid, hdevice, hactive⟩ := h
    refine ⟨?_, c', ?_, hid, hdevice, hactive⟩
    · unfold revokeDevice forgetWatchKey
      split
      · exact hw
      · exact Table.mem_delete.2 ⟨hw, by simp [Ne.symm hother]⟩
    · rw [revokeDevice_credentials]
      refine mem_setRevoked_other hc' fun hhash => hother ?_
      rw [Table.eq_of_key hmem hc' hhash.symm]
      exact hid

theorem setWatchKey_ok {identity device key : Bytes} {db db' : Db}
    (h : RelayStore.setWatchKey identity device key db = (.ok (), db')) :
    (key = [] ∧ db' = { db with watchKeys := db.watchKeys.delete fun w => w.identityId = identity && w.deviceId = device }) ∨
      (key ≠ [] ∧ addWatchKey ⟨identity, device, key⟩ db = some db') := by
  unfold RelayStore.setWatchKey at h
  split at h
  · next hempty => exact Or.inl ⟨hempty, (Prod.mk.inj h).2.symm⟩
  · next hne =>
    split at h
    · exact absurd h fail_ne_ok
    · rw [unitOfWork_eq_ok] at h
      simp only [bind_eq_ok, read_eq_ok, when_eq_ok, insertRow_eq_ok] at h
      obtain ⟨transport, db₀, ⟨rfl, rfl⟩, _, db₁, hfree, hadd⟩ := h
      rcases hfree with ⟨-, hfail⟩ | ⟨-, rfl⟩
      · exact absurd hfail fail_ne_ok
      · exact Or.inr ⟨hne, hadd⟩

theorem setWatchKey_error {identity device key : Bytes} {e : StoreError} {db db' : Db}
    (h : RelayStore.setWatchKey identity device key db = (.error e, db')) : db' = db := by
  unfold RelayStore.setWatchKey at h
  split at h
  · cases (Prod.mk.inj h).1
  · split at h
    · exact (Prod.mk.inj h).2.symm
    · exact unitOfWork_error h

/-- An empty key is none. -/
def Shaped (db : Db) : Prop := ∀ w ∈ db.watchKeys, w.watchKey ≠ []

theorem shaped_rule : KeyRule Shaped where
  view hview h := by
    obtain ⟨-, hw⟩ := Prod.mk.inj hview
    rw [Shaped, hw]
    exact h
  add hadd h := by
    rw [Shaped, (addCredential_registers hadd).watchKeys]
    exact h
  revoke _ h w hw := h w (mem_revokeDevice_watchKeys hw).1

theorem shaped_call (c : Call) {db : Db} (h : Shaped db) : Shaped (c.prog sha256 db).2 := by
  refine shaped_rule.call (fun identity device key _ h w hw => ?_) h
  rcases setWatchKey_cases identity device key _ with ⟨-, hsub⟩ | ⟨hreg, -, hsub⟩
  · exact h w (hsub w hw)
  · rcases hsub w hw with rfl | ⟨hw, -⟩
    · intro he
      have hshape := hreg.shape
      rw [show key = [] from he] at hshape
      nomatch hshape
    · exact h w hw

theorem registered_set {identity device key : Bytes} {db : Db} (h : Registered identity device key db) (hkey : key ≠ [])
    (identity' device' key' : Bytes) :
    Registered identity device key (RelayStore.setWatchKey identity' device' key' db).2 ∨
      ((RelayStore.setWatchKey identity' device' key' db).1 = .ok () ∧ identity' = identity ∧ device' = device ∧ key' ≠ key) := by
  rcases hrun : RelayStore.setWatchKey identity' device' key' db with ⟨e | u, db'⟩
  · rw [setWatchKey_error hrun]
    exact Or.inl h
  · have hcred : db'.credentials = db.credentials := by
      have := RelayStore.setWatchKey_credentials identity' device' key' db
      rwa [hrun] at this
    by_cases hsame : (identity', device') = (identity, device) ∧ key' ≠ key
    · obtain ⟨hid, hne⟩ := hsame
      obtain ⟨rfl, rfl⟩ := Prod.mk.inj hid
      exact Or.inr ⟨rfl, rfl, rfl, hne⟩
    · have hother : (identity', device') = (identity, device) → key' = key := fun he => by
        by_contra hne
        exact hsame ⟨he, hne⟩
      refine Or.inl ⟨?_, hcred ▸ h.2⟩
      rcases setWatchKey_ok hrun with ⟨hempty, rfl⟩ | ⟨-, hadd⟩
      · rw [Table.get?_eq_some]
        refine ⟨Table.mem_delete.2 ⟨(registered_iff.1 h).1, ?_⟩, rfl⟩
        by_contra hp
        simp only [Bool.not_eq_false, Bool.and_eq_true, decide_eq_true_eq] at hp
        exact hkey ((hother (Prod.ext hp.1.symm hp.2.symm)).symm.trans hempty)
      · unfold addWatchKey at hadd
        split at hadd
        · cases hadd
        · obtain rfl := Option.some.inj hadd
          dsimp only
          rw [Table.get?_upsert]
          split
          · next he =>
            obtain rfl := hother he
            obtain ⟨rfl, rfl⟩ := Prod.mk.inj he
            rw [h.1]
            rfl
          · exact h.1

theorem revokeEach_none {identity : Bytes} {hashes : List Bytes} {db : Db} (h : (revokeEach identity hashes db).1 = 0) :
    (revokeEach identity hashes db).2 = db := by
  induction hashes with
  | nil => rfl
  | cons hash hashes ih =>
    rw [revokeEach] at h ⊢
    split at h
    · exact ih h
    · cases h

theorem publishManifest_none {identity signed : Bytes} {seq : UInt64} {revoked : List Bytes} {db db' : Db}
    (h : publishManifest identity seq signed revoked db = (.ok 0, db')) : keyring db' = keyring db := by
  rw [publishManifest, unitOfWork_eq_ok] at h
  simp only [bind_eq_ok, read_eq_ok, when_eq_ok, insertRow_eq_ok, revokeCredentials, Prod.mk.injEq, Except.ok.injEq] at h
  obtain ⟨newest, db₀, ⟨rfl, rfl⟩, _, db₁, hsame, _, db₂, hinsert, hnone, rfl⟩ := h
  rcases hsame with ⟨-, hfail⟩ | ⟨-, rfl⟩
  · exact absurd hfail fail_ne_ok
  rw [revokeEach_none hnone]
  rcases hinsert with ⟨-, hadd⟩ | ⟨-, rfl⟩
  · obtain ⟨-, t, -, rfl⟩ := addManifest_eq_some hadd
    rfl
  · rfl

/-- A call that takes a registered key away is followed by a step that looks for its session. -/
theorem registered_call {identity device key : Bytes} {db : Db} (h : Registered identity device key db) (hkey : key ≠ [])
    (c : Call) :
    Registered identity device key (c.prog sha256 db).2 ∨
      ∃ p ∈ followUp c (c.prog sha256 db).1, p = .recheckWatchers identity ∨
        ∃ current, p = .dropStaleWatch identity device current ∧ current ≠ key := by
  by_cases hset : ∃ i d k, c = .setWatchKey i d k
  · obtain ⟨i, d, k, rfl⟩ := hset
    rcases registered_set h hkey i d k with hr | ⟨hok, rfl, rfl, hne⟩
    · exact Or.inl hr
    · refine Or.inr ⟨.dropStaleWatch i d k, ?_, Or.inr ⟨k, rfl, hne⟩⟩
      rw [show (Call.prog sha256 (.setWatchKey i d k) db).1 = _ from hok]
      exact List.mem_singleton_self _
  by_cases hrevokes : identity ∈ revokesOf c
  · cases c with
    | publishManifest i seq signed revoked =>
      obtain rfl : i = identity := Option.some.inj hrevokes
      rcases hrun : publishManifest i seq signed revoked db with ⟨e | n, db'⟩
      · refine Or.inl ?_
        rw [show (Call.prog sha256 (.publishManifest i seq signed revoked) db) = _ from hrun, unitOfWork_error hrun]
        exact h
      · rw [show (Call.prog sha256 (.publishManifest i seq signed revoked) db) = _ from hrun]
        cases n with
        | zero => exact Or.inl ((registered_rule i device key).view (publishManifest_none hrun) h)
        | succ n => exact Or.inr ⟨.recheckWatchers i, List.mem_singleton_self _, Or.inl rfl⟩
    | recoverIdentity e revoked now =>
      obtain rfl : e.identityId = identity := Option.some.inj hrevokes
      rcases hrun : recoverIdentity e revoked now db with ⟨error | n, db'⟩
      · refine Or.inl ?_
        rw [show (Call.prog sha256 (.recoverIdentity e revoked now) db) = _ from hrun, unitOfWork_error hrun]
        exact h
      · rw [show (Call.prog sha256 (.recoverIdentity e revoked now) db) = _ from hrun]
        exact Or.inr ⟨.recheckWatchers e.identityId, List.mem_singleton_self _, Or.inl rfl⟩
    | _ => nomatch hrevokes
  · refine Or.inl ((registered_rule identity device key).call (fun i hi he => ?_) (fun i d k hc _ => ?_) h)
    · exact hrevokes (he ▸ hi)
    · exact absurd ⟨i, d, k, hc⟩ hset

theorem owner_call {mailboxId : Bytes} {owner : Bytes × Bytes} {db : Db} (c : Call)
    (h : Wakeups.mailboxOwner mailboxId db = some owner) : Wakeups.mailboxOwner mailboxId (c.prog sha256 db).2 = some owner := by
  have hsame : ∀ {db' : Db}, db'.owners = db.owners → Wakeups.mailboxOwner mailboxId db' = some owner := fun he => by
    rw [Wakeups.mailboxOwner, he]
    exact h
  have hopens : ∀ {identity device id : Bytes} {db' : Db}, Opens identity device id db db' →
      Wakeups.mailboxOwner mailboxId db' = some owner := by
    intro identity device id db' ho
    obtain ⟨row, hrow, rfl⟩ := Option.map_eq_some_iff.1 h
    have hne : id ≠ mailboxId := by
      rintro rfl
      have hnone := Table.get?_eq_none.2 (Table.insert_eq_some ho.owners).2
      rw [hrow] at hnone
      nomatch hnone
    rw [Wakeups.mailboxOwner, Table.get?_insert ho.owners, if_neg hne, hrow]
    rfl
  have hpart : Part.owners ∉ writes c → Wakeups.mailboxOwner mailboxId (c.prog sha256 db).2 = some owner :=
    fun hw => hsame (part_call c db hw)
  cases c with
  | createMailbox identity device id readCap writeCap now =>
    rcases hrun : Call.prog sha256 (.createMailbox identity device id readCap writeCap now) db with ⟨e | mb, db'⟩
    · rw [unitOfWork_error hrun]
      exact h
    · exact hopens (createMailbox_opens hrun)
  | createMailboxForRequest identity device requestKey readCap writeCap id now =>
    rcases hrun : Call.prog sha256 (.createMailboxForRequest identity device requestKey readCap writeCap id now) db with
      ⟨e | mb, db'⟩
    · rw [unitOfWork_error hrun]
      exact h
    · rcases createMailboxForRequest_opens hrun with rfl | ⟨-, ho⟩
      · exact h
      · exact hopens ho
  | _ => exact hpart (by simp [writes])

end Arveil.Watch

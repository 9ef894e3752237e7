import Arveil.Proofs.Invitations
import Arveil.Sanity.Store

/-! Transport keys and watch keys. What the store says of a key is said once: it is a device's
transport key or a device's watch key, never both, and of one device. A revocation takes the
watch key of a device that is left without an active credential; what registers one again is
the device itself, on a session it had before. -/

namespace Arveil.RelayStore

open Prog RelayServer

section rule

variable {sha256 : Bytes → Bytes} {I : Db → Prop}

def keyring (db : Db) : Table CredentialRow.credentialHash × Table (fun w : WatchKeyRow => (w.identityId, w.deviceId)) :=
  (db.credentials, db.watchKeys)

/-- What holds of the two tables and stays when a credential is registered and when one of
certain identities is revoked. -/
structure KeyRuleFor (P : Bytes → Prop) (I : Db → Prop) : Prop where
  view : ∀ {db db' : Db}, keyring db' = keyring db → I db → I db'
  add : ∀ {e : Enrollment} {db db' : Db}, addCredential e db = some db' → I db → I db'
  revoke : ∀ {db : Db} {c : CredentialRow}, c ∈ db.credentials → P c.identityId → I db →
    I (revokeDevice c.identityId c.credentialHash c.deviceId db)

/-- What holds of the two tables and stays when a credential is registered and when one is
revoked. -/
structure KeyRule (I : Db → Prop) : Prop where
  view : ∀ {db db' : Db}, keyring db' = keyring db → I db → I db'
  add : ∀ {e : Enrollment} {db db' : Db}, addCredential e db = some db' → I db → I db'
  revoke : ∀ {db : Db} {c : CredentialRow}, c ∈ db.credentials → I db → I (revokeDevice c.identityId c.credentialHash c.deviceId db)

theorem KeyRule.everyone (h : KeyRule I) : KeyRuleFor (fun _ => True) I := ⟨h.view, h.add, fun hc _ => h.revoke hc⟩

/-- Whose credentials a call may revoke. -/
def revokesOf : Call → Option Bytes
  | .publishManifest identityId _ _ _ => some identityId
  | .recoverIdentity e _ _ => some e.identityId
  | _ => none

section

variable {P : Bytes → Prop} (h : KeyRuleFor P I)
include h

theorem KeyRuleFor.fixed {α : Type} {p : Txn α} (hp : Fixes keyring p) : Keeps (fun db db' => I db → I db') p := fun db => h.view (hp db)

theorem KeyRuleFor.insert {ρ : Type} {part : Part} {e : StoreError} {g : ρ → Db → Option Db} {row : ρ} (hg : InsertsInto part g)
    (hc : part ≠ .credentials) (hw : part ≠ .watchKeys) : Keeps (fun db db' => I db → I db') (insertRow e g row) := by
  refine h.fixed (fixes_insertRow fun db db' hrow => ?_)
  obtain ⟨t, rfl⟩ := hg _ _ _ hrow
  exact Prod.ext (part_set_ne hc.symm db t) (part_set_ne hw.symm db t)

theorem KeyRuleFor.register (e : Enrollment) : Keeps (fun db db' => I db → I db') (insertCredential e) := by
  intro db hi
  rcases hrun : insertCredential e db with ⟨_ | _, db'⟩
  · rw [insertRow_eq_error hrun]
    exact hi
  · exact h.add (insertRow_eq_ok.1 hrun) hi

theorem KeyRuleFor.revokeEach {identityId : Bytes} (hp : P identityId) (hashes : List Bytes) (db : Db) (hi : I db) :
    I (RelayStore.revokeEach identityId hashes db).2 := by
  induction hashes generalizing db with
  | nil => exact hi
  | cons hash hashes ih =>
    simp only [RelayStore.revokeEach]
    split
    · exact ih db hi
    · next c hc =>
      obtain ⟨hget, hfound⟩ := Option.filter_eq_some_iff.1 hc
      obtain ⟨hmem, rfl⟩ := Table.get?_eq_some.1 hget
      simp only [Bool.and_eq_true, decide_eq_true_eq] at hfound
      obtain ⟨rfl, -⟩ := hfound
      exact ih _ (h.revoke hmem hp hi)

theorem KeyRuleFor.revokeAgain {identityId : Bytes} (hp : P identityId) (hashes : List Bytes) (db : Db) (hi : I db) :
    I (RelayStore.revokeAgain identityId hashes db) := by
  induction hashes generalizing db with
  | nil => exact hi
  | cons hash hashes ih =>
    simp only [RelayStore.revokeAgain]
    split
    · exact ih db hi
    · next c hc =>
      obtain ⟨hget, hfound⟩ := Option.filter_eq_some_iff.1 hc
      obtain ⟨hmem, rfl⟩ := Table.get?_eq_some.1 hget
      obtain rfl := of_decide_eq_true hfound
      exact ih _ (h.revoke hmem hp hi)

theorem KeyRuleFor.redeemInvite (tokenHash : Bytes) (now : Int) (e : Enrollment) :
    Keeps (fun db db' => I db → I db') (RelayStore.redeemInvite tokenHash now e) := by
  have ht : ∀ a b c : Db, (I a → I b) → (I b → I c) → I a → I c := fun _ _ _ hab hbc ha => hbc (hab ha)
  refine keeps_unitOfWork (fun _ hi => hi) (keeps_bind ht (h.fixed (fixes_read _)) fun r => ?_)
  cases r with
  | some r => exact h.fixed (fixes_fail _)
  | none =>
    refine keeps_bind ht (h.fixed (fixes_require _ _)) fun _ => keeps_bind ht (h.fixed (fixes_modify fun _ => rfl)) fun _ => ?_
    refine keeps_bind ht (h.insert insertsInto_membership (by simp) (by simp)) fun _ => keeps_bind ht (h.register e) fun _ => ?_
    refine keeps_bind ht (h.insert insertsInto_manifest (by simp) (by simp)) fun _ => ?_
    exact keeps_bind ht (h.insert insertsInto_redemption (by simp) (by simp)) fun _ => h.fixed (fixes_modify fun _ => rfl)

theorem KeyRuleFor.publishManifest {identityId : Bytes} (hp : P identityId) (seq : UInt64) (signed : Bytes) (revoked : List Bytes) :
    Keeps (fun db db' => I db → I db') (RelayStore.publishManifest identityId seq signed revoked) := by
  have ht : ∀ a b c : Db, (I a → I b) → (I b → I c) → I a → I c := fun _ _ _ hab hbc ha => hbc (hab ha)
  refine keeps_unitOfWork (fun _ hi => hi) (keeps_bind ht (h.fixed (fixes_read _)) fun _ => ?_)
  refine keeps_bind ht (h.fixed (fixes_when _ (fixes_fail _))) fun _ => ?_
  refine keeps_bind ht (keeps_when (fun _ hi => hi) _ (h.insert insertsInto_manifest (by simp) (by simp))) fun _ => ?_
  exact fun db hi => h.revokeEach hp revoked db hi

theorem KeyRuleFor.recoverIdentity {e : Enrollment} (hp : P e.identityId) (revoked : List Bytes) (now : Int) :
    Keeps (fun db db' => I db → I db') (RelayStore.recoverIdentity e revoked now) := by
  have ht : ∀ a b c : Db, (I a → I b) → (I b → I c) → I a → I c := fun _ _ _ hab hbc ha => hbc (hab ha)
  refine keeps_unitOfWork (fun _ hi => hi) (keeps_bind ht (h.fixed (fixes_read _)) fun r => ?_)
  cases r with
  | some r =>
    dsimp only
    split
    · exact h.fixed (fixes_fail _)
    · exact h.fixed (fixes_pure _)
  | none =>
    refine keeps_bind ht (h.fixed (fixes_read _)) fun _ => keeps_bind ht (h.fixed (fixes_when _ (fixes_fail _))) fun _ => ?_
    refine keeps_bind ht (h.insert insertsInto_manifest (by simp) (by simp)) fun _ => keeps_bind ht (h.register e) fun _ => ?_
    refine keeps_bind ht (fun db hi => h.revokeAgain hp revoked db hi) fun _ => ?_
    exact keeps_bind ht (h.insert insertsInto_recovery (by simp) (by simp)) fun _ => h.fixed (fixes_pure _)

theorem KeyRuleFor.call {c : Call} {db : Db} (hrevokes : ∀ i ∈ revokesOf c, P i)
    (hset : ∀ identityId deviceId key, c = .setWatchKey identityId deviceId key → I db → I (setWatchKey identityId deviceId key db).2)
    (hi : I db) : I (after sha256 db c) := by
  have hpart : Part.credentials ∉ writes c → Part.watchKeys ∉ writes c → I (after sha256 db c) := fun hc hw =>
    h.view (Prod.ext (part_call c db hc) (part_call c db hw)) hi
  cases c with
  | setWatchKey identityId deviceId key => exact hset identityId deviceId key rfl hi
  | redeemInvite tokenHash now e => exact h.redeemInvite tokenHash now e db hi
  | putCredential e => exact keeps_unitOfWork (fun _ hi => hi) (h.register e) db hi
  | publishManifest identityId seq signed revoked => exact h.publishManifest (hrevokes identityId rfl) seq signed revoked db hi
  | recoverIdentity e revoked now => exact h.recoverIdentity (hrevokes e.identityId rfl) revoked now db hi
  | _ => exact hpart (by simp [writes]) (by simp [writes])

end

theorem KeyRule.call (h : KeyRule I) {c : Call} {db : Db}
    (hset : ∀ identityId deviceId key, c = .setWatchKey identityId deviceId key → I db → I (setWatchKey identityId deviceId key db).2)
    (hi : I db) : I (after sha256 db c) := h.everyone.call (fun _ _ => trivial) hset hi

end rule

structure Registers (e : Enrollment) (db db' : Db) : Prop where
  device_free : ∀ c ∈ db.credentials, c.deviceId = e.deviceId → c.identityId = e.identityId
  not_watch : ∀ w ∈ db.watchKeys, w.watchKey ≠ e.transportKey
  not_transport : ∀ c ∈ db.credentials, c.transportKey ≠ e.transportKey
  credentials : db.credentials.insert ⟨e.credentialHash, e.identityId, e.deviceId, e.transportKey, e.signedCred, .active, e.notAfter⟩ =
    some db'.credentials
  watchKeys : db'.watchKeys = db.watchKeys

theorem addCredential_registers {e : Enrollment} {db db' : Db} (h : addCredential e db = some db') : Registers e db db' := by
  unfold addCredential at h
  split at h
  · cases h
  next hdevice =>
  split at h
  · cases h
  next hwatch =>
  split at h
  · cases h
  next htransport =>
  split at h
  · cases h
  obtain ⟨t, ht, rfl⟩ := Option.map_eq_some_iff.1 h
  simp only [List.any_eq_true, Bool.and_eq_true, decide_eq_true_eq, not_exists, not_and, not_not] at hdevice hwatch htransport
  exact ⟨hdevice, hwatch, htransport, ht, rfl⟩

theorem mem_setRevoked {hash : Bytes} {db : Db} {c : CredentialRow} (h : c ∈ (setRevoked hash db).credentials) :
    (c ∈ db.credentials ∧ c.credentialHash ≠ hash) ∨
      ∃ c₀ ∈ db.credentials, c₀.credentialHash = hash ∧ c = { c₀ with status := .revoked } := by
  dsimp only [setRevoked] at h
  simpa only [decide_eq_false_iff_not, decide_eq_true_eq] using Table.of_mem_update h

theorem mem_setRevoked_other {hash : Bytes} {db : Db} {c : CredentialRow} (hc : c ∈ db.credentials) (hhash : c.credentialHash ≠ hash) :
    c ∈ (setRevoked hash db).credentials := by
  dsimp only [setRevoked]
  exact Table.mem_update_neg hc (decide_eq_false hhash)

theorem revokeDevice_credentials (identityId hash deviceId : Bytes) (db : Db) :
    (revokeDevice identityId hash deviceId db).credentials = (setRevoked hash db).credentials := by
  unfold revokeDevice forgetWatchKey
  split
  · rfl
  · rfl

/-- A watch key that stays is of a device that has an active credential left, or of another
device. -/
theorem mem_revokeDevice_watchKeys {identityId hash deviceId : Bytes} {db : Db} {w : WatchKeyRow}
    (h : w ∈ (revokeDevice identityId hash deviceId db).watchKeys) :
    w ∈ db.watchKeys ∧ ((∃ c ∈ (setRevoked hash db).credentials, c.identityId = identityId ∧ c.deviceId = deviceId ∧ c.status = .active) ∨
      ¬ (w.identityId = identityId ∧ w.deviceId = deviceId)) := by
  unfold revokeDevice forgetWatchKey at h
  split at h
  · next hactive =>
    obtain ⟨c, hc, hp⟩ := List.any_eq_true.1 hactive
    simp only [Bool.and_eq_true, decide_eq_true_eq] at hp
    exact ⟨h, Or.inl ⟨c, hc, hp.1.1, hp.1.2, hp.2⟩⟩
  · obtain ⟨hw, hother⟩ := Table.mem_delete.1 h
    refine ⟨hw, Or.inr ?_⟩
    simpa using hother

structure Exclusive (db : Db) : Prop where
  apart : ∀ c ∈ db.credentials, ∀ w ∈ db.watchKeys, c.transportKey ≠ w.watchKey
  watchOne : ∀ w ∈ db.watchKeys, ∀ w' ∈ db.watchKeys, w.watchKey = w'.watchKey → w = w'
  transportOne : ∀ c ∈ db.credentials, ∀ c' ∈ db.credentials, c.transportKey = c'.transportKey → c = c'
  deviceOne : ∀ c ∈ db.credentials, ∀ c' ∈ db.credentials, c.deviceId = c'.deviceId → c.identityId = c'.identityId

theorem exclusive_add {e : Enrollment} {db db' : Db} (hr : Registers e db db') (h : Exclusive db) : Exclusive db' := by
  refine ⟨fun c hc w hw => ?_, ?_, fun c hc c' hc' hkey => ?_, fun c hc c' hc' hdev => ?_⟩
  · rw [hr.watchKeys] at hw
    rcases (Table.mem_insert hr.credentials).1 hc with hc | rfl
    · exact h.apart c hc w hw
    · exact (hr.not_watch w hw).symm
  · rw [hr.watchKeys]
    exact h.watchOne
  · rcases (Table.mem_insert hr.credentials).1 hc with hc | rfl
    · rcases (Table.mem_insert hr.credentials).1 hc' with hc' | rfl
      · exact h.transportOne c hc c' hc' hkey
      · exact absurd hkey (hr.not_transport c hc)
    · rcases (Table.mem_insert hr.credentials).1 hc' with hc' | rfl
      · exact absurd hkey.symm (hr.not_transport c' hc')
      · rfl
  · rcases (Table.mem_insert hr.credentials).1 hc with hc | rfl
    · rcases (Table.mem_insert hr.credentials).1 hc' with hc' | rfl
      · exact h.deviceOne c hc c' hc' hdev
      · exact hr.device_free c hc hdev
    · rcases (Table.mem_insert hr.credentials).1 hc' with hc' | rfl
      · exact (hr.device_free c' hc' hdev.symm).symm
      · rfl

theorem exclusive_revoke {db : Db} (identityId hash deviceId : Bytes) (h : Exclusive db) :
    Exclusive (revokeDevice identityId hash deviceId db) := by
  -- a row has what it had, but for its status
  have hfrom : ∀ {c : CredentialRow}, c ∈ (revokeDevice identityId hash deviceId db).credentials →
      ∃ c₀ ∈ db.credentials, c₀.credentialHash = c.credentialHash ∧ c₀.transportKey = c.transportKey ∧ c₀.deviceId = c.deviceId ∧
        c₀.identityId = c.identityId := by
    intro c hc
    rw [revokeDevice_credentials] at hc
    rcases mem_setRevoked hc with ⟨hc, -⟩ | ⟨c₀, hc₀, -, rfl⟩
    · exact ⟨c, hc, rfl, rfl, rfl, rfl⟩
    · exact ⟨c₀, hc₀, rfl, rfl, rfl, rfl⟩
  refine ⟨fun c hc w hw => ?_, fun w hw w' hw' hkey => ?_, fun c hc c' hc' hkey => ?_, fun c hc c' hc' hdev => ?_⟩
  · obtain ⟨c₀, hc₀, -, htransport, -⟩ := hfrom hc
    rw [← htransport]
    exact h.apart c₀ hc₀ w (mem_revokeDevice_watchKeys hw).1
  · exact h.watchOne w (mem_revokeDevice_watchKeys hw).1 w' (mem_revokeDevice_watchKeys hw').1 hkey
  · obtain ⟨c₀, hc₀, hhash, htransport, -⟩ := hfrom hc
    obtain ⟨c₁, hc₁, hhash', htransport', -⟩ := hfrom hc'
    obtain rfl := h.transportOne c₀ hc₀ c₁ hc₁ (by rw [htransport, htransport', hkey])
    exact Table.eq_of_key hc hc' (hhash.symm.trans hhash')
  · obtain ⟨c₀, hc₀, -, -, hdevice, hid⟩ := hfrom hc
    obtain ⟨c₁, hc₁, -, -, hdevice', hid'⟩ := hfrom hc'
    rw [← hid, ← hid']
    exact h.deviceOne c₀ hc₀ c₁ hc₁ (by rw [hdevice, hdevice', hdev])

theorem exclusive_rule : KeyRule Exclusive where
  view hview h := by
    obtain ⟨hc, hw⟩ := Prod.mk.inj hview
    exact ⟨by rw [hc, hw]; exact h.apart, by rw [hw]; exact h.watchOne, by rw [hc]; exact h.transportOne, by rw [hc]; exact h.deviceOne⟩
  add hadd h := exclusive_add (addCredential_registers hadd) h
  revoke _ h := exclusive_revoke _ _ _ h

/-- What a key must be for a device to watch with it. -/
structure Registrable (identityId deviceId key : Bytes) (db : Db) : Prop where
  shape : key.length = watchKeyBytes
  not_transport : ∀ c ∈ db.credentials, c.transportKey ≠ key
  free : ∀ w ∈ db.watchKeys, w.watchKey = key → w.identityId = identityId ∧ w.deviceId = deviceId

theorem addWatchKey_cases (row : WatchKeyRow) (db : Db) :
    (addWatchKey row db = none ∧ ∃ w ∈ db.watchKeys, w.watchKey = row.watchKey ∧ ¬ (w.identityId = row.identityId ∧ w.deviceId = row.deviceId)) ∨
      ∃ db', addWatchKey row db = some db' ∧
        (∀ w ∈ db.watchKeys, w.watchKey = row.watchKey → w.identityId = row.identityId ∧ w.deviceId = row.deviceId) ∧
        row ∈ db'.watchKeys ∧
        ∀ w ∈ db'.watchKeys, w = row ∨ (w ∈ db.watchKeys ∧ ¬ (w.identityId = row.identityId ∧ w.deviceId = row.deviceId)) := by
  unfold addWatchKey
  split
  · next hany =>
    obtain ⟨w, hw, hp⟩ := List.any_eq_true.1 hany
    simp only [Bool.and_eq_true, Bool.or_eq_true, decide_eq_true_eq] at hp
    refine Or.inl ⟨rfl, w, hw, hp.1, fun hsame => ?_⟩
    exact hp.2.elim (fun hne => hne hsame.1) fun hne => hne hsame.2
  · next hnone =>
    simp only [List.any_eq_true, Bool.and_eq_true, Bool.or_eq_true, decide_eq_true_eq, not_exists, not_and, not_or, not_not] at hnone
    refine Or.inr ⟨_, rfl, hnone, ?_, fun w hw => ?_⟩
    · refine (Table.get?_eq_some (k := (row.identityId, row.deviceId)).1 ?_).1
      rw [Table.get?_upsert, if_pos rfl]
      cases hrow : db.watchKeys.get? (row.identityId, row.deviceId) with
      | none => rfl
      | some w =>
        obtain ⟨hid, hdev⟩ := Prod.mk.inj (Table.get?_eq_some.1 hrow).2
        simp only [Option.elim_some, hid, hdev]
    · rcases Table.mem_upsert hw with ⟨w₀, -, hkey, rfl⟩ | ⟨hw, hne⟩ | ⟨rfl, -⟩
      · obtain ⟨hid, hdev⟩ := Prod.mk.inj hkey
        exact Or.inl (by simp only [hid, hdev])
      · exact Or.inr ⟨hw, fun hsame => hne (Prod.ext hsame.1 hsame.2)⟩
      · exact Or.inl rfl

theorem setWatchKey_cases (identityId deviceId key : Bytes) (db : Db) :
    (¬ Registrable identityId deviceId key db ∧ ∀ w ∈ (setWatchKey identityId deviceId key db).2.watchKeys, w ∈ db.watchKeys) ∨
      (Registrable identityId deviceId key db ∧ ⟨identityId, deviceId, key⟩ ∈ (setWatchKey identityId deviceId key db).2.watchKeys ∧
        ∀ w ∈ (setWatchKey identityId deviceId key db).2.watchKeys, w = ⟨identityId, deviceId, key⟩ ∨
          (w ∈ db.watchKeys ∧ ¬ (w.identityId = identityId ∧ w.deviceId = deviceId))) := by
  unfold setWatchKey
  by_cases hempty : key = []
  · rw [if_pos hempty]
    refine Or.inl ⟨fun hr => ?_, fun w hw => (Table.mem_delete.1 hw).1⟩
    have hshape := hr.shape
    rw [hempty] at hshape
    cases hshape
  rw [if_neg hempty]
  by_cases hlength : key.length ≠ watchKeyBytes
  · rw [if_pos hlength]
    exact Or.inl ⟨fun hr => hlength hr.shape, fun w hw => hw⟩
  rw [if_neg hlength]
  by_cases htransport : db.credentials.rows.any (fun c => c.transportKey = key) = true
  · refine Or.inl ⟨fun hr => ?_, fun w hw => ?_⟩
    · obtain ⟨c, hc, hkey⟩ := List.any_eq_true.1 htransport
      exact hr.not_transport c hc (of_decide_eq_true hkey)
    · simpa [unitOfWork, bind_run, when_pos, htransport] using hw
  have hfree : ∀ c ∈ db.credentials, c.transportKey ≠ key := by
    simp only [List.any_eq_true, decide_eq_true_eq, not_exists, not_and] at htransport
    exact htransport
  rcases addWatchKey_cases ⟨identityId, deviceId, key⟩ db with ⟨hnone, w, hw, hkey, hother⟩ | ⟨db', hsome, hown, hrow, hrows⟩
  · refine Or.inl ⟨fun hr => hother (hr.free w hw hkey), fun w hw => ?_⟩
    simpa [unitOfWork, bind_run, when_neg, htransport, insertRow, tryModify, hnone] using hw
  · have hrun : (unitOfWork (do
        let transport ← Prog.read fun db : Db => db.credentials.rows.any fun c => c.transportKey = key
        Prog.when (transport = true) (Prog.fail StoreError.watchKeyInUse)
        insertRow .watchKeyInUse addWatchKey ⟨identityId, deviceId, key⟩) db).2 = db' := by
      simp [unitOfWork, bind_run, when_neg, htransport, insertRow, tryModify, hsome]
    rw [hrun]
    exact Or.inr ⟨⟨not_not.1 hlength, hfree, hown⟩, hrow, hrows⟩

theorem setWatchKey_credentials (identityId deviceId key : Bytes) (db : Db) :
    (setWatchKey identityId deviceId key db).2.credentials = db.credentials :=
  @part_call id (.setWatchKey identityId deviceId key) db .credentials (by simp [writes])

theorem exclusive_set (identityId deviceId key : Bytes) {db : Db} (h : Exclusive db) : Exclusive (setWatchKey identityId deviceId key db).2 := by
  have hcred := setWatchKey_credentials identityId deviceId key db
  rcases setWatchKey_cases identityId deviceId key db with ⟨-, hrows⟩ | ⟨hr, -, hrows⟩
  · refine ⟨?_, fun w hw w' hw' hkey => h.watchOne w (hrows w hw) w' (hrows w' hw') hkey, by rw [hcred]; exact h.transportOne,
      by rw [hcred]; exact h.deviceOne⟩
    rw [hcred]
    exact fun c hc w hw => h.apart c hc w (hrows w hw)
  · refine ⟨?_, fun w hw w' hw' hkey => ?_, by rw [hcred]; exact h.transportOne, by rw [hcred]; exact h.deviceOne⟩
    · rw [hcred]
      intro c hc w hw
      rcases hrows w hw with rfl | ⟨hw, -⟩
      · exact hr.not_transport c hc
      · exact h.apart c hc w hw
    · rcases hrows w hw with rfl | ⟨hw, hother⟩
      · rcases hrows w' hw' with rfl | ⟨hw', hother'⟩
        · rfl
        · exact absurd (hr.free w' hw' hkey.symm) hother'
      · rcases hrows w' hw' with rfl | ⟨hw', -⟩
        · exact absurd (hr.free w hw hkey) hother
        · exact h.watchOne w hw w' hw' hkey

theorem exclusive_after {sha256 : Bytes → Bytes} {db : Db} (h : Exclusive db) (c : Call) : Exclusive (after sha256 db c) :=
  exclusive_rule.call (fun identityId deviceId key _ h => exclusive_set identityId deviceId key h) h

/-- The last active credential of the device was revoked. -/
structure Lapsed (identityId deviceId : Bytes) (db : Db) : Prop where
  revoked : ∃ c ∈ db.credentials, c.identityId = identityId ∧ c.deviceId = deviceId ∧ c.status = .revoked
  none_active : ∀ c ∈ db.credentials, c.identityId = identityId → c.deviceId = deviceId → c.status ≠ .active

def Forgotten (db : Db) : Prop := ∀ w ∈ db.watchKeys, ¬ Lapsed w.identityId w.deviceId db

theorem Lapsed.of_credentials {identityId deviceId : Bytes} {db db' : Db} (hc : db'.credentials = db.credentials)
    (h : Lapsed identityId deviceId db') : Lapsed identityId deviceId db :=
  ⟨by rw [← hc]; exact h.revoked, by rw [← hc]; exact h.none_active⟩

theorem forgotten_add {e : Enrollment} {db db' : Db} (hr : Registers e db db') (h : Forgotten db) : Forgotten db' := by
  intro w hw hlapsed
  rw [hr.watchKeys] at hw
  refine h w hw ⟨?_, fun c hc => hlapsed.none_active c ((Table.mem_insert hr.credentials).2 (Or.inl hc))⟩
  obtain ⟨c, hc, hid, hdev, hstatus⟩ := hlapsed.revoked
  rcases (Table.mem_insert hr.credentials).1 hc with hc | rfl
  · exact ⟨c, hc, hid, hdev, hstatus⟩
  · cases hstatus

theorem forgotten_revoke {db : Db} {c : CredentialRow} (hc : c ∈ db.credentials) (h : Forgotten db) :
    Forgotten (revokeDevice c.identityId c.credentialHash c.deviceId db) := by
  intro w hw hlapsed
  obtain ⟨hw, hstays⟩ := mem_revokeDevice_watchKeys hw
  obtain ⟨hrevoked, hnone⟩ := hlapsed
  rw [revokeDevice_credentials] at hrevoked hnone
  have hother : ¬ (w.identityId = c.identityId ∧ w.deviceId = c.deviceId) := by
    rcases hstays with ⟨c', hc', hid, hdev, hactive⟩ | hother
    · rintro ⟨hwid, hwdev⟩
      exact hnone c' hc' (hid.trans hwid.symm) (hdev.trans hwdev.symm) hactive
    · exact hother
  -- the credentials of another device are as they were
  have hsame : ∀ {c' : CredentialRow}, c' ∈ db.credentials → c'.identityId = w.identityId → c'.deviceId = w.deviceId →
      c'.credentialHash ≠ c.credentialHash := by
    intro c' hc' hid hdev hhash
    obtain rfl := Table.eq_of_key hc' hc hhash
    exact hother ⟨hid.symm, hdev.symm⟩
  refine h w hw ⟨?_, fun c' hc' hid hdev => hnone c' (mem_setRevoked_other hc' (hsame hc' hid hdev)) hid hdev⟩
  obtain ⟨c', hc', hid, hdev, hstatus⟩ := hrevoked
  rcases mem_setRevoked hc' with ⟨hc', -⟩ | ⟨c₀, hc₀, hhash, rfl⟩
  · exact ⟨c', hc', hid, hdev, hstatus⟩
  · exact absurd hhash (hsame hc₀ hid hdev)

theorem forgotten_rule : KeyRule Forgotten where
  view hview h := by
    obtain ⟨hc, hw⟩ := Prod.mk.inj hview
    intro w hmem hlapsed
    rw [hw] at hmem
    exact h w hmem (hlapsed.of_credentials hc)
  add hadd h := forgotten_add (addCredential_registers hadd) h
  revoke hc h := forgotten_revoke hc h

/-- No device that was revoked registers a watch key. -/
def WatchesWhileActive (db : Db) (c : Call) : Prop :=
  ∀ identityId deviceId key, c = .setWatchKey identityId deviceId key → Registrable identityId deviceId key db →
    ¬ Lapsed identityId deviceId db

theorem forgotten_set {identityId deviceId key : Bytes} {db : Db}
    (hcond : Registrable identityId deviceId key db → ¬ Lapsed identityId deviceId db) (h : Forgotten db) :
    Forgotten (setWatchKey identityId deviceId key db).2 := by
  intro w hw hlapsed
  have hlapsed := hlapsed.of_credentials (setWatchKey_credentials identityId deviceId key db)
  rcases setWatchKey_cases identityId deviceId key db with ⟨-, hrows⟩ | ⟨hr, -, hrows⟩
  · exact h w (hrows w hw) hlapsed
  · rcases hrows w hw with rfl | ⟨hw, -⟩
    · exact hcond hr hlapsed
    · exact h w hw hlapsed

theorem forgotten_after {sha256 : Bytes → Bytes} {db : Db} {c : Call} (hcond : WatchesWhileActive db c) (h : Forgotten db) :
    Forgotten (after sha256 db c) :=
  forgotten_rule.call (fun identityId deviceId key hc h => forgotten_set (hcond identityId deviceId key hc) h) h

section standing

variable (cx : Crypto) (key : Bytes) (now : Int) (db : Db)

/-- A device's transport key, of a credential that is active and has not expired. -/
def MemberKey (d : Device) : Prop :=
  ∃ c ∈ db.credentials, c.transportKey = key ∧ c.status = .active ∧ now ≤ c.notAfter ∧ c.device = d

/-- The watch key of a device that is active. -/
def WatchKey (d : Device) : Prop := ∃ w ∈ db.watchKeys, w.watchKey = key ∧ activeDevice w.identityId w.deviceId now db = some d

/-- A registered key of either kind whose device is not active. -/
def RefusedKey : Prop :=
  (∃ c ∈ db.credentials, c.transportKey = key ∧ (c.status ≠ .active ∨ c.notAfter < now)) ∨
    ∃ w ∈ db.watchKeys, w.watchKey = key ∧ activeDevice w.identityId w.deviceId now db = none

def UnknownKey : Prop := (∀ c ∈ db.credentials, c.transportKey ≠ key) ∧ ∀ w ∈ db.watchKeys, w.watchKey ≠ key

/-- Each key is of exactly one kind, and the handshake says which. -/
structure Classified : Prop where
  member : ∀ d, (authorize cx key now).finish db = (some ⟨key, some d, none⟩, db) ↔ MemberKey key now db d
  watch : ∀ d, (authorize cx key now).finish db = (some ⟨key, none, some d⟩, db) ↔ WatchKey key now db d
  refused : (authorize cx key now).finish db = (none, db) ↔ RefusedKey key now db
  unknown : (authorize cx key now).finish db = (some ⟨key, none, none⟩, db) ↔ UnknownKey key db
  some_kind : (∃ d, MemberKey key now db d) ∨ (∃ d, WatchKey key now db d) ∨ RefusedKey key now db ∨ UnknownKey key db

variable {cx key now db}

theorem finish_ask {α : Type} (c : Call) (f : Except StoreError c.Result → Handles cx α) :
    (ask cx c >>= f).finish db = (f (c.prog cx.sha256 db).1).finish (c.prog cx.sha256 db).2 :=
  Handler.finish_ask_bind (I := service cx.sha256) c f db

theorem authorize_transport {c : CredentialRow} (h : db.credentials.rows.find? (fun c => c.transportKey = key) = some c) :
    (authorize cx key now).finish db =
      (if c.status ≠ .active ∨ c.notAfter < now then none else some ⟨key, some c.device, none⟩, db) := by
  have hfound : Call.prog cx.sha256 (.deviceByTransportKey key) db = (.ok (some c.device), db) := by
    simp [Call.prog, deviceByTransportKey, h]
  rw [authorize, finish_ask, hfound]
  dsimp only [CredentialRow.device]
  split
  · rfl
  · rfl

theorem authorize_other (h : db.credentials.rows.find? (fun c => c.transportKey = key) = none) :
    (authorize cx key now).finish db =
      (match db.watchKeys.rows.find? (fun w => w.watchKey = key) with
        | none => some ⟨key, none, none⟩
        | some w => (activeDevice w.identityId w.deviceId now db).map fun d => ⟨key, none, some d⟩, db) := by
  have hfound : Call.prog cx.sha256 (.deviceByTransportKey key) db = (.ok none, db) := by
    simp [Call.prog, deviceByTransportKey, h]
  rw [authorize, finish_ask, hfound]
  dsimp only
  rw [finish_ask]
  cases hw : db.watchKeys.rows.find? (fun w => w.watchKey = key) with
  | none => simp [Call.prog, deviceByWatchKey, hw]
  | some w =>
    cases hd : activeDevice w.identityId w.deviceId now db with
    | none => simp [Call.prog, deviceByWatchKey, hw, hd]
    | some d => simp [Call.prog, deviceByWatchKey, hw, hd]

theorem classified_transport (h : Exclusive db) {c : CredentialRow} (hc : c ∈ db.credentials) (hkey : c.transportKey = key) :
    (∀ d, MemberKey key now db d ↔ (c.status = .active ∧ now ≤ c.notAfter) ∧ c.device = d) ∧ (∀ d, ¬ WatchKey key now db d) ∧
      (RefusedKey key now db ↔ c.status ≠ .active ∨ c.notAfter < now) ∧ ¬ UnknownKey key db := by
  have hone : ∀ c' ∈ db.credentials, c'.transportKey = key → c' = c :=
    fun c' hc' hkey' => h.transportOne c' hc' c hc (hkey'.trans hkey.symm)
  have hapart : ∀ w ∈ db.watchKeys, w.watchKey ≠ key := fun w hw hwkey => h.apart c hc w hw (hkey.trans hwkey.symm)
  refine ⟨fun d => ⟨?_, fun hd => ⟨c, hc, hkey, hd.1.1, hd.1.2, hd.2⟩⟩, ?_, ⟨?_, fun hbad => Or.inl ⟨c, hc, hkey, hbad⟩⟩,
    fun hu => hu.1 c hc hkey⟩
  · rintro ⟨c', hc', hkey', hactive, htime, hd⟩
    rw [hone c' hc' hkey'] at hactive htime hd
    exact ⟨⟨hactive, htime⟩, hd⟩
  · rintro d ⟨w, hw, hwkey, -⟩
    exact hapart w hw hwkey
  · rintro (⟨c', hc', hkey', hbad⟩ | ⟨w, hw, hwkey, -⟩)
    · rw [hone c' hc' hkey'] at hbad
      exact hbad
    · exact absurd hwkey (hapart w hw)

theorem classified_watch (h : Exclusive db) {w : WatchKeyRow} (hw : w ∈ db.watchKeys) (hkey : w.watchKey = key) :
    (∀ d, ¬ MemberKey key now db d) ∧ (∀ d, WatchKey key now db d ↔ activeDevice w.identityId w.deviceId now db = some d) ∧
      (RefusedKey key now db ↔ activeDevice w.identityId w.deviceId now db = none) ∧ ¬ UnknownKey key db := by
  have hone : ∀ w' ∈ db.watchKeys, w'.watchKey = key → w' = w := fun w' hw' hkey' => h.watchOne w' hw' w hw (hkey'.trans hkey.symm)
  have hapart : ∀ c ∈ db.credentials, c.transportKey ≠ key := fun c hc hckey => h.apart c hc w hw (hckey.trans hkey.symm)
  refine ⟨?_, fun d => ⟨?_, fun hd => ⟨w, hw, hkey, hd⟩⟩, ⟨?_, fun hnone => Or.inr ⟨w, hw, hkey, hnone⟩⟩, fun hu => hu.2 w hw hkey⟩
  · rintro d ⟨c, hc, hckey, -⟩
    exact hapart c hc hckey
  · rintro ⟨w', hw', hkey', hd⟩
    rw [hone w' hw' hkey'] at hd
    exact hd
  · rintro (⟨c, hc, hckey, -⟩ | ⟨w', hw', hkey', hnone⟩)
    · exact absurd hckey (hapart c hc)
    · rw [hone w' hw' hkey'] at hnone
      exact hnone

theorem classified_unknown (hu : UnknownKey key db) :
    (∀ d, ¬ MemberKey key now db d) ∧ (∀ d, ¬ WatchKey key now db d) ∧ ¬ RefusedKey key now db := by
  refine ⟨?_, ?_, ?_⟩
  · rintro d ⟨c, hc, hckey, -⟩
    exact hu.1 c hc hckey
  · rintro d ⟨w, hw, hwkey, -⟩
    exact hu.2 w hw hwkey
  · rintro (⟨c, hc, hckey, -⟩ | ⟨w, hw, hwkey, -⟩)
    · exact hu.1 c hc hckey
    · exact hu.2 w hw hwkey

theorem Exclusive.classified (h : Exclusive db) : Classified cx key now db := by
  cases hc : db.credentials.rows.find? (fun c => c.transportKey = key) with
  | some c =>
    have hkey : c.transportKey = key := by simpa using List.find?_some hc
    obtain ⟨hmember, hwatch, hrefused, hunknown⟩ := @classified_transport key now db h c (List.mem_of_find?_eq_some hc) hkey
    have hfinish := @authorize_transport cx key now db c hc
    by_cases hbad : c.status ≠ .active ∨ c.notAfter < now
    · rw [if_pos hbad] at hfinish
      have hnot : ¬ (c.status = .active ∧ now ≤ c.notAfter) := fun hgood => hbad.elim (fun hs => hs hgood.1) fun ht => by omega
      refine ⟨fun d => ?_, fun d => ?_, ?_, ?_, Or.inr (Or.inr (Or.inl (hrefused.2 hbad)))⟩
      · simp [hfinish, hmember, hnot]
      · simp [hfinish, hwatch]
      · simp only [hfinish, hrefused, hbad]
      · simp [hfinish, hunknown]
    · rw [if_neg hbad] at hfinish
      have hgood : c.status = .active ∧ now ≤ c.notAfter := by
        rw [not_or, not_not, not_lt] at hbad
        exact hbad
      refine ⟨fun d => ?_, fun d => ?_, ?_, ?_, Or.inl ⟨c.device, (hmember _).2 ⟨hgood, rfl⟩⟩⟩
      · simp [hfinish, hmember, hgood]
      · simp [hfinish, hwatch]
      · simp [hfinish, hrefused, hbad]
      · simp [hfinish, hunknown]
  | none =>
    have hfinish := @authorize_other cx key now db hc
    cases hw : db.watchKeys.rows.find? (fun w => w.watchKey = key) with
    | some w =>
      have hkey : w.watchKey = key := by simpa using List.find?_some hw
      obtain ⟨hmember, hwatch, hrefused, hunknown⟩ := @classified_watch key now db h w (List.mem_of_find?_eq_some hw) hkey
      rw [hw] at hfinish
      dsimp only at hfinish
      cases hd : activeDevice w.identityId w.deviceId now db with
      | none =>
        rw [hd, Option.map_none] at hfinish
        rw [hd] at hrefused
        refine ⟨fun d => ?_, fun d => ?_, ?_, ?_, Or.inr (Or.inr (Or.inl (hrefused.2 rfl)))⟩
        · simp [hfinish, hmember]
        · simp [hfinish, hwatch, hd]
        · simp [hfinish, hrefused]
        · simp [hfinish, hunknown]
      | some d₀ =>
        rw [hd, Option.map_some] at hfinish
        rw [hd] at hrefused
        refine ⟨fun d => ?_, fun d => ?_, ?_, ?_, Or.inr (Or.inl ⟨d₀, (hwatch d₀).2 hd⟩)⟩
        · simp [hfinish, hmember]
        · simp [hfinish, hwatch, hd]
        · simp [hfinish, hrefused]
        · simp [hfinish, hunknown]
    | none =>
      have hunknown : UnknownKey key db := by
        refine ⟨fun c hmem hkey => ?_, fun w hmem hkey => ?_⟩
        · exact List.find?_eq_none.1 hc c hmem (decide_eq_true hkey)
        · exact List.find?_eq_none.1 hw w hmem (decide_eq_true hkey)
      obtain ⟨hmember, hwatch, hrefused⟩ := @classified_unknown key now db hunknown
      rw [hw] at hfinish
      dsimp only at hfinish
      refine ⟨fun d => ?_, fun d => ?_, ?_, ?_, Or.inr (Or.inr (Or.inr hunknown))⟩
      · simp [hfinish, hmember]
      · simp [hfinish, hwatch]
      · simp [hfinish, hrefused]
      · simp [hfinish, hunknown]

end standing

/-- No key is of two kinds or of two devices, no device id of two identities, a device that was
revoked watches with no key, and the handshake tells every key's kind. -/
structure KeysInOrder (cx : Crypto) (db : Db) : Prop where
  exclusive : Exclusive db
  forgotten : Forgotten db
  classified : ∀ key now, Classified cx key now db

theorem exclusive_run {sha256 : Bytes → Bytes} (calls : List Call) : Exclusive (Trace.run (after sha256) .empty calls) := by
  have hmeets : Trace.Meets (after sha256) (fun _ _ => True) .empty calls := Trace.meets_true _ calls
  refine Trace.invariant (I := Exclusive) (fun _ c _ h => exclusive_after h c) hmeets ⟨?_, ?_, ?_, ?_⟩
  · exact fun c hc => absurd hc (Table.not_mem_empty c)
  · exact fun w hw => absurd hw (Table.not_mem_empty w)
  · exact fun c hc => absurd hc (Table.not_mem_empty c)
  · exact fun c hc => absurd hc (Table.not_mem_empty c)

/-- All stores that a run goes through are in order exactly when no device that was revoked
registers a watch key in it. -/
theorem keys_are_in_order_iff (cx : Crypto) (calls : List Call) :
    (∀ before later, calls = before ++ later → KeysInOrder cx (Trace.run (after cx.sha256) .empty before)) ↔
      Trace.Meets (after cx.sha256) WatchesWhileActive .empty calls := by
  constructor
  · refine fun h => Trace.meets_of_splits fun before c later hcalls identityId deviceId key hc hr hlapsed => ?_
    have hafter := (h (before ++ [c]) later (by rw [hcalls, List.append_assoc, List.singleton_append])).forgotten
    rw [Trace.run_append, hc] at hafter
    rcases setWatchKey_cases identityId deviceId key (Trace.run (after cx.sha256) .empty before) with ⟨hnot, -⟩ | ⟨-, hmem, -⟩
    · exact hnot hr
    · refine hafter _ hmem ⟨?_, ?_⟩
      · exact (setWatchKey_credentials identityId deviceId key _).symm ▸ hlapsed.revoked
      · exact (setWatchKey_credentials identityId deviceId key _).symm ▸ hlapsed.none_active
  · rintro h before later rfl
    have hforgotten : Forgotten (Trace.run (after cx.sha256) .empty before) :=
      Trace.invariant (I := Forgotten) (fun _ _ hc h => forgotten_after hc h) (Trace.meets_append.1 h).1
        fun w hw => absurd hw (Table.not_mem_empty w)
    exact ⟨exclusive_run before, hforgotten, fun _ _ => (exclusive_run before).classified⟩

section example_run

open Demo

/-- A device is revoked, and registers a watch key on the session it has. -/
def revokedWatcher : List Call :=
  joins 1 ++ ([.publishManifest (memberId 1) 2 [9] [[1, 2]], .setWatchKey (memberId 1) (deviceId 1) (List.replicate 32 9)] : List Call)

theorem revoked_device_watches :
    ((watchKeySet crypto ⟨[1, 3], some ⟨[1, 2], memberId 1, deviceId 1, .active, 10 ^ 9⟩, none⟩ (List.replicate 32 9)).finish
      (Trace.run (after crypto.sha256) .empty (revokedWatcher.take 3))).1.answer = .ack ∧
    ⟨memberId 1, deviceId 1, List.replicate 32 9⟩ ∈ (Trace.run (after crypto.sha256) .empty revokedWatcher).watchKeys ∧
    Lapsed (memberId 1) (deviceId 1) (Trace.run (after crypto.sha256) .empty revokedWatcher) :=
  ⟨by decide +kernel, by decide +kernel, by decide +kernel, by decide +kernel⟩

end example_run

end Arveil.RelayStore

import Arveil.Proofs.Invitations
import Arveil.Spec.Redemption

/-! A redemption is made whole or not at all, whatever statement fails, and its answer is
repeated ever after: no call takes a recorded redemption away. -/

namespace Arveil.RelayStore

open Prog RelayServer

theorem inject_eq_ok {faults : Statement → Option StoreError} {s : Statement} {db db' : Db} {u : Unit} :
    inject faults s db = (.ok u, db') ↔ faults s = none ∧ db' = db := by
  cases hf : faults s with
  | none =>
    have hpure : inject faults s = pure () := by simp only [inject, hf]
    rw [hpure, pure_run]
    exact ⟨fun h => ⟨rfl, (congrArg Prod.snd h).symm⟩, fun h => h.2 ▸ rfl⟩
  | some e =>
    have hfail : inject faults s = fail e := by simp only [inject, hf]
    rw [hfail]
    exact ⟨fun h => absurd h fail_ne_ok, fun h => absurd h.1 nofun⟩

theorem injected_none (tokenHash : Bytes) (now : Int) (e : Enrollment) :
    redeemInviteInjected (hook none) tokenHash now e = redeemInvite tokenHash now e := rfl

/-- All that a redemption changes. -/
structure Redemption (tokenHash : Bytes) (now : Int) (e : Enrollment) (db db' : Db) : Prop where
  use : ∃ v ∈ db.invites, v.tokenHash = tokenHash ∧ now < v.expiresAt ∧ 0 < v.usesLeft ∧
    db.memberships.insert ⟨e.identityId, e.rootPublic, v.role, .active⟩ = some db'.memberships
  invites : db'.invites = db.invites.update (fun v => v.tokenHash = tokenHash) (fun v => { v with usesLeft := v.usesLeft - 1 })
    fun _ => rfl
  credential : db.credentials.insert e.row = some db'.credentials
  manifest : db.manifests.insert e.manifest = some db'.manifests
  redemption : db.redemptions.insert ⟨tokenHash, e.identityId, e.credentialHash⟩ = some db'.redemptions
  issued : db'.issued = (markUsed tokenHash e.identityId now db).issued
  counter : db'.nextIssued = db.nextIssued
  rest : outside [.memberships, .invites, .credentials, .manifests, .redemptions, .issued] db' =
    outside [.memberships, .invites, .credentials, .manifests, .redemptions, .issued] db

theorem inject_bind_eq_ok {faults : Statement → Option StoreError} {s : Statement} {k : Unit → Txn Unit} {db db' : Db} {u : Unit} :
    (inject faults s >>= k) db = (.ok u, db') ↔ faults s = none ∧ k () db = (.ok u, db') := by
  rw [bind_eq_ok]
  constructor
  · rintro ⟨_, db₁, hs, hk⟩
    obtain ⟨hnone, rfl⟩ := inject_eq_ok.1 hs
    exact ⟨hnone, hk⟩
  · rintro ⟨hnone, hk⟩
    exact ⟨(), db, inject_eq_ok.2 ⟨hnone, rfl⟩, hk⟩

theorem injected_ok {faults : Statement → Option StoreError} {tokenHash : Bytes} {now : Int} {e : Enrollment} {db db' : Db} {u : Unit}
    (h : redeemInviteInjected faults tokenHash now e db = (.ok u, db')) : Redemption tokenHash now e db db' := by
  rw [redeemInviteInjected, unitOfWork_eq_ok, inject_bind_eq_ok] at h
  obtain ⟨-, h⟩ := h
  rw [bind_ok (read_run _ _)] at h
  cases hr : db.redemptions.get? (tokenHash, e.identityId) with
  | some r =>
    simp only [hr] at h
    exact absurd h fail_ne_ok
  | none =>
    simp only [hr, inject_bind_eq_ok] at h
    simp only [↓inject_bind_eq_ok, bind_eq_ok, inject_eq_ok, require_eq_ok, modify_eq_ok, insertCredential, insertRow_eq_ok] at h
    obtain ⟨-, invite, _, ⟨hinvite, rfl⟩, -, db₁, rfl, -, -, -, -, db₂, hm, -, -, db₃, hc, -, -, db₄, hf, -, -, db₅, hd,
      -, -, db₆, rfl, -, rfl⟩ := h
    obtain ⟨tm, htm, rfl⟩ := addMembership_eq_some hm
    obtain ⟨-, tc, htc, rfl⟩ := addCredential_eq_some hc
    obtain ⟨-, tf, htf, rfl⟩ := addManifest_eq_some hf
    obtain ⟨td, htd, rfl⟩ := addRedemption_eq_some hd
    obtain ⟨hget, hp⟩ := Option.filter_eq_some_iff.1 hinvite
    obtain ⟨hmem, hhash⟩ := Table.get?_eq_some.1 hget
    simp only [Bool.and_eq_true, decide_eq_true_eq] at hp
    refine ⟨⟨invite, hmem, hhash, hp.1, hp.2, htm⟩, rfl, htc, htf, htd, rfl, rfl, ?_⟩
    funext p hp
    cases p <;> first | rfl | exact absurd (by decide) hp

/-- A failure at any statement leaves the store as it was. -/
theorem injected_error {faults : Statement → Option StoreError} {tokenHash : Bytes} {now : Int} {e : Enrollment} {db db' : Db}
    {err : StoreError} (h : redeemInviteInjected faults tokenHash now e db = (.error err, db')) : db' = db := unitOfWork_error h

theorem unitOfWork_refuses {p : Txn Unit} {db : Db} {err : StoreError} (h : p db = (.error err, db)) :
    unitOfWork p db = (.error err, db) := by
  rw [unitOfWork, h]

theorem injected_repeated (between : Option StoreError) {tokenHash : Bytes} (now : Int) {e : Enrollment} {db : Db}
    (h : ⟨tokenHash, e.identityId, e.credentialHash⟩ ∈ db.redemptions) :
    redeemInviteInjected (hook between) tokenHash now e db = (.error .alreadyRedeemed, db) := by
  have hget : db.redemptions.get? (tokenHash, e.identityId) = some ⟨tokenHash, e.identityId, e.credentialHash⟩ :=
    Table.get?_eq_some.2 ⟨h, rfl⟩
  have hfirst : inject (hook between) .recorded db = (.ok (), db) := rfl
  refine unitOfWork_refuses ?_
  rw [bind_ok hfirst, bind_ok (read_run _ _), hget]
  dsimp only
  rw [if_pos rfl, fail_run]

/-- A call of the store, or a redemption of which some statement may fail. -/
inductive Op where
  | call (c : Call)
  | redeem (faults : Statement → Option StoreError) (tokenHash : Bytes) (now : Int) (e : Enrollment)

def Op.step (sha256 : Bytes → Bytes) (db : Db) : Op → Db
  | .call c => after sha256 db c
  | .redeem faults tokenHash now e => (redeemInviteInjected faults tokenHash now e db).2

variable {sha256 : Bytes → Bytes}

theorem Moved.redemptions {db db' : Db} {c : Call} (h : Moved db db' c) {r : RedemptionRow} (hr : r ∈ db.redemptions) :
    r ∈ db'.redemptions := by
  cases h with
  | same hinvites hissued hcounter hredemptions => exact hredemptions ▸ hr
  | issued h => exact h.redemptions ▸ hr
  | redeemed h => exact (Table.mem_insert h.redemptions).2 (Or.inl hr)
  | accepted h => exact (Table.mem_insert h.redemptions).2 (Or.inl hr)
  | withdrawn h => exact h.redemptions ▸ hr
  | created h =>
    obtain ⟨t, rfl⟩ := insertsInto_invite _ _ _ h
    exact hr
  | swept h => exact h ▸ hr
  | aged h => exact h ▸ hr

theorem redemption_step {db : Db} (op : Op) {r : RedemptionRow} (hr : r ∈ db.redemptions) : r ∈ (op.step sha256 db).redemptions := by
  cases op with
  | call c => exact (moved_call c db).redemptions hr
  | redeem faults tokenHash now e =>
    show r ∈ (redeemInviteInjected faults tokenHash now e db).2.redemptions
    rcases h : redeemInviteInjected faults tokenHash now e db with ⟨err | u, db'⟩
    · rw [injected_error h]
      exact hr
    · exact (Table.mem_insert (injected_ok h).redemption).2 (Or.inl hr)

theorem redemption_run {db : Db} (ops : List Op) {r : RedemptionRow} (hr : r ∈ db.redemptions) :
    r ∈ (Trace.run (Op.step sha256) db ops).redemptions :=
  Trace.invariant (I := fun db => r ∈ db.redemptions) (fun _ op _ h => redemption_step op h) (Trace.meets_true db ops) hr

/-- A redemption is made whole or not at all, and its repetition is answered without a change. -/
theorem redemption_is_atomic (sha256 : Bytes → Bytes) (faults : Statement → Option StoreError) (tokenHash : Bytes) (now : Int)
    (e : Enrollment) (db : Db) :
    match redeemInviteInjected faults tokenHash now e db with
    | (.error _, db') => db' = db
    | (.ok _, db') => Redemption tokenHash now e db db' ∧
        ∀ ops between now' e', e'.identityId = e.identityId → e'.credentialHash = e.credentialHash →
          redeemInviteInjected (hook between) tokenHash now' e' (Trace.run (Op.step sha256) db' ops) =
            (.error .alreadyRedeemed, Trace.run (Op.step sha256) db' ops) := by
  rcases h : redeemInviteInjected faults tokenHash now e db with ⟨err | u, db'⟩
  · exact injected_error h
  · refine ⟨injected_ok h, fun ops between now' e' hidentity hcredential => injected_repeated between now' ?_⟩
    rw [hidentity, hcredential]
    exact redemption_run ops ((Table.mem_insert (injected_ok h).redemption).2 (Or.inr rfl))

end Arveil.RelayStore

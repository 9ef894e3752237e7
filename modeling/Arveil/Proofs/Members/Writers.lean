import Arveil.Proofs.Members.Handlers

/-! The frames that write the members' tables: each call of theirs follows the checks it needs. -/

namespace Arveil.RelayServer

open RelayStore

variable {cx : Crypto} {items : CborItems} {Fair : DeviceManifest → Prop}
variable {Cond : Call → Db → Prop} {Q : Outcome → Db → Prop}

/-- A credential and a manifest that verified, the credential for the session's own key. -/
structure Presented (cx : Crypto) (items : CborItems) (s : Session) (credential manifest : Bytes) (now : Int)
    (v : RelayIdentity.VerifiedCredential) (m : DeviceManifest) : Prop where
  credential : RelayIdentity.verifyCredential cx items credential (UInt64.ofInt now) = .ok v
  binds : bindsSession v s.remoteStatic = true
  manifest : Signed cx items v.root manifest m
  active : v.hash ∈ m.activeCredentialHashes

theorem verified_identity {signed : Bytes} {now : UInt64} {v : RelayIdentity.VerifiedCredential}
    (h : RelayIdentity.verifyCredential cx items signed now = .ok v) :
    v.identityId = Identity.identityId cx v.root ∧ v.hash = Identity.credentialHash cx signed := by
  unfold RelayIdentity.verifyCredential at h
  split at h
  · cases h
  · split at h
    · cases h
    · split at h
      · cases h
      · split at h
        · cases h
        · split at h
          · cases h
          · obtain rfl := Except.ok.inj h
            exact ⟨rfl, rfl⟩

theorem certified_enrollment {credential manifest : Bytes} {now seq : UInt64} {v : RelayIdentity.VerifiedCredential}
    (h : RelayIdentity.verifyCredential cx items credential now = .ok v) :
    CertifiedEnrollment cx items (enrollment v credential manifest seq) := ⟨v, now, h, rfl, rfl, rfl, rfl⟩

theorem rootPublic_ok {identityId root : Bytes} {db db' : Db} (h : rootPublic identityId db = (.ok root, db')) :
    HasRoot db' identityId root := by
  obtain ⟨hrow, rfl⟩ := require_eq_ok.1 h
  obtain ⟨m, hm, rfl⟩ := Option.map_eq_some_iff.1 hrow
  obtain ⟨hmem, hid⟩ := Table.get?_eq_some.1 (Option.filter_eq_some_iff.1 hm).1
  exact ⟨m, hmem, hid, rfl⟩

/-- The manifests of a frame are fair, whoever signed them. -/
def Frame.Honest (cx : Crypto) (items : CborItems) (Fair : DeviceManifest → Prop) : Frame → Prop
  | .inviteRedeem _ _ manifest | .manifestPut manifest | .recoverIdentity _ manifest =>
      ∀ root body, Signed cx items root manifest body → Fair body
  | _ => True

theorem sound_call {α : Type} {Q : α → Db → Prop} {c : Call} {k : Except StoreError c.Result → Handles cx α} {db : Db}
    (h : ∀ db₁, Reached cx items db db₁ → Allowed cx items Fair c db₁ ∧
      ∀ r db₂, c.prog cx.sha256 db₁ = (r, db₂) → Cond c db₁ → SoundHandler cx items Fair Cond Q (k r) db₂) :
    SoundHandler cx items Fair Cond Q (ask cx c >>= k) db :=
  Handler.sound_ask_bind fun db₁ hr => ⟨(h db₁ hr).1, fun hcond => (h db₁ hr).2 _ _ rfl hcond⟩

section writers

variable {s : Session} {now : Int} {db : Db} (hnone : ∀ o db, o.device = none → Q o db)

include hnone

theorem sound_refuse (code : Nat) (message : String) : SoundHandler cx items Fair Cond Q (refuse cx code message) db :=
  hnone _ db rfl

theorem sound_inviteRedeem {token credential manifest : Bytes}
    (hfair : ∀ root body, Signed cx items root manifest body → Fair body)
    (hadmits : ∀ v m db r db', Consistent cx items db → Presented cx items s credential manifest now v m →
      Cond (.redeemInvite (cx.sha256 token) now (enrollment v credential manifest m.manifestSequence)) db →
      redeemInvite (cx.sha256 token) now (enrollment v credential manifest m.manifestSequence) db = (r, db') →
      r = .ok () ∨ r = .error .alreadyRedeemed → ∀ a, Q ⟨a, some (admitted v)⟩ db') :
    SoundHandler cx items Fair Cond Q (inviteRedeem cx items s token credential manifest now) db := by
  unfold inviteRedeem
  cases hv : RelayIdentity.verifyCredential cx items credential (UInt64.ofInt now) with
  | error e => exact sound_refuse hnone _ _
  | ok v =>
    dsimp only
    split
    · exact sound_refuse hnone _ _
    · split
      · exact sound_refuse hnone _ _
      · next hbinds =>
        cases hm : RelayIdentity.verifyManifest cx items manifest v.root with
        | error e => exact sound_refuse hnone _ _
        | ok m =>
          dsimp only
          split
          · exact sound_refuse hnone _ _
          · next hfirst =>
            simp only [not_or, not_not, ne_eq] at hfirst
            have hpresented : Presented cx items s credential manifest now v m :=
              ⟨hv, by simpa using hbinds, hm, hfirst.2.1⟩
            refine sound_call fun db₁ hr => ⟨⟨certified_enrollment hv, (verified_identity hv).1, m, hm, hfirst.2.1,
              hfair _ _ hm, rfl⟩, fun r db₂ hcall hcond => ?_⟩
            have hend := hadmits v m db₁ r db₂ hr.2 hpresented hcond hcall
            cases r with
            | ok u => exact hend (Or.inl rfl) _
            | error e => cases e <;> first | exact sound_refuse hnone _ _ | exact hend (Or.inr rfl) _

theorem sound_credentialPut {credential : Bytes} :
    SoundHandler cx items Fair Cond Q (credentialPut cx items s credential now) db := by
  unfold credentialPut whenMember
  cases s.device with
  | none => exact sound_refuse hnone _ _
  | some d =>
    dsimp only
    cases hv : RelayIdentity.verifyCredential cx items credential (UInt64.ofInt now) with
    | error e => exact sound_refuse hnone _ _
    | ok v =>
      refine sound_call fun db₁ _ => ⟨trivial, fun r db₂ _ _ => ?_⟩
      cases r with
      | error e => exact sound_refuse hnone _ _
      | ok root =>
        dsimp only
        split
        · exact sound_refuse hnone _ _
        · refine sound_call fun db₃ _ => ⟨trivial, fun r db₄ _ _ => ?_⟩
          rcases r with e | _ | row
          · exact sound_refuse hnone _ _
          · exact sound_refuse hnone _ _
          · dsimp only
            cases hm : RelayIdentity.verifyManifest cx items row.signed root with
            | error e => exact sound_refuse hnone _ _
            | ok m =>
              dsimp only
              split
              · exact sound_refuse hnone _ _
              · refine sound_call fun db₅ _ => ⟨certified_enrollment hv, fun r db₆ _ _ => ?_⟩
                cases r with
                | ok u => exact hnone _ _ rfl
                | error e => cases e <;> exact sound_refuse hnone _ _

theorem sound_manifestPut {manifest : Bytes} : SoundHandler cx items Fair Cond Q (manifestPut cx items s manifest) db := by
  unfold manifestPut whenMember
  cases s.device with
  | none => exact sound_refuse hnone _ _
  | some d =>
    refine sound_call fun db₁ _ => ⟨trivial, fun r db₂ hroot _ => ?_⟩
    cases r with
    | error e => exact sound_refuse hnone _ _
    | ok root =>
      dsimp only
      cases hm : RelayIdentity.verifyManifest cx items manifest root with
      | error e => exact sound_refuse hnone _ _
      | ok m =>
        -- the root was the member's when it was read, and stays so
        refine sound_call fun db₃ hr => ⟨⟨root, m, hr.1.roots _ _ (rootPublic_ok hroot), hm, rfl, rfl⟩,
          fun r db₄ _ _ => ?_⟩
        cases r with
        | ok n => exact hnone _ _ rfl
        | error e => cases e <;> exact sound_refuse hnone _ _

theorem sound_recoverIdentity {credential manifest : Bytes}
    (hfair : ∀ root body, Signed cx items root manifest body → Fair body)
    (hadmits : ∀ v m db n db', Consistent cx items db → Presented cx items s credential manifest now v m →
      Cond (.recoverIdentity (enrollment v credential manifest m.manifestSequence) m.revokedCredentialHashes now) db →
      RelayStore.recoverIdentity (enrollment v credential manifest m.manifestSequence) m.revokedCredentialHashes now db =
        (.ok n, db') → ∀ a, Q ⟨a, some (admitted v)⟩ db') :
    SoundHandler cx items Fair Cond Q (recoverIdentity cx items s credential manifest now) db := by
  unfold recoverIdentity
  cases hv : RelayIdentity.verifyCredential cx items credential (UInt64.ofInt now) with
  | error e => exact sound_refuse hnone _ _
  | ok v =>
    dsimp only
    split
    · exact sound_refuse hnone _ _
    · next hbinds =>
      refine sound_call fun db₁ _ => ⟨trivial, fun r db₂ hroot _ => ?_⟩
      cases r with
      | error e => exact sound_refuse hnone _ _
      | ok root =>
        dsimp only
        split
        · exact sound_refuse hnone _ _
        · next hsame =>
          obtain rfl : root = v.root := not_not.1 hsame
          cases hm : RelayIdentity.verifyManifest cx items manifest v.root with
          | error e => exact sound_refuse hnone _ _
          | ok m =>
            dsimp only
            split
            · exact sound_refuse hnone _ _
            · next hactive =>
              have hactive := not_not.1 hactive
              refine sound_call fun db₃ hr => ⟨⟨certified_enrollment hv, v.root, m, hr.1.roots _ _ (rootPublic_ok hroot), hm, rfl,
                hactive, hfair _ _ hm, rfl⟩, fun r db₄ hcall hcond => ?_⟩
              cases r with
              | ok n => exact hadmits v m db₃ n db₄ hr.2 ⟨hv, by simpa using hbinds, hm, hactive⟩ hcond hcall _
              | error e => cases e <;> exact sound_refuse hnone _ _

end writers

end Arveil.RelayServer

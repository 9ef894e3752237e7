import Arveil.Spec.Identity

/-! What is issued verifies, and what is accepted moves the known state forward. -/

namespace Arveil.Identity

variable {cx : Crypto}

theorem verifyingKey_eq {b root : Bytes} (h : verifyingKey cx b = some root) : root = b := by
  unfold verifyingKey at h
  split at h
  · exact (Option.some.inj h).symm
  · cases h

theorem verify_sign (hcx : cx.Lawful) (context : String) (body seed : Bytes) :
    verify cx (sign cx context body seed) context (cx.publicKey seed) = .ok body := by
  unfold verify sign
  simp [hcx.decode_signed, hcx.sign_length, hcx.verify_sign]

def issuedManifest (cx : Crypto) (seed : Bytes) (previous : Option ManifestState) (active revoked : List Bytes) :
    DeviceManifest where
  version := manifestVersion
  identityId := identityId cx (cx.publicKey seed)
  manifestSequence := previous.elim 1 (·.sequence + 1)
  previousManifestHash := previous.elim [] (·.hash)
  activeCredentialHashes := active
  revokedCredentialHashes := revoked

theorem verifyManifest_issueManifest (hcx : cx.Lawful) (seed : Bytes) (previous : Option ManifestState)
    (active revoked : List Bytes) :
    verifyManifest cx (issueManifest cx seed previous active revoked) (cx.publicKey seed) =
      .ok (issuedManifest cx seed previous active revoked) := by
  unfold verifyManifest issueManifest
  rw [verify_sign hcx]
  simp [hcx.decode_manifest, issuedManifest]

theorem acceptManifest_ok {signed root : Bytes} {known : Option ManifestState} {body : DeviceManifest}
    {state : ManifestState} (h : acceptManifest cx signed root known = .ok (body, state)) :
    verifyManifest cx signed root = .ok body ∧ state = ⟨body.manifestSequence, manifestHash cx signed⟩ ∧
      ∀ k, known = some k → k.sequence ≤ body.manifestSequence := by
  unfold acceptManifest at h
  cases hv : verifyManifest cx signed root with
  | error e => simp [hv] at h
  | ok b =>
    simp only [hv] at h
    cases hc : checkChain b (manifestHash cx signed) known with
    | error e => simp [hc] at h
    | ok st =>
      simp only [hc, Except.ok.injEq, Prod.mk.injEq] at h
      obtain ⟨rfl, rfl⟩ := h
      refine ⟨rfl, ?_⟩
      cases known with
      | none => simpa [checkChain] using hc.symm
      | some k =>
        simp only [checkChain] at hc
        split at hc
        · next heq => split at hc <;> simp_all
        · split at hc
          · cases hc
          · next hlt => split at hc <;> simp_all

theorem peekManifest_of_verify {signed root : Bytes} {body : DeviceManifest}
    (h : verifyManifest cx signed root = .ok body) :
    peekManifest cx signed = some body ∧ body.identityId = identityId cx root := by
  unfold verifyManifest verify at h
  unfold peekManifest
  cases hd : cx.decodeSigned signed with
  | error e => simp [hd] at h
  | ok so =>
    simp only [hd] at h
    split at h
    · cases h
    · next bytes hb =>
      split at hb
      · cases hb
      · split at hb
        · cases hb
        · split at hb
          · obtain rfl := Except.ok.inj hb
            cases hm : cx.decodeManifest so.body with
            | error e => simp [hm] at h
            | ok m =>
              simp only [hm] at h
              split at h
              · cases h
              · split at h
                · cases h
                · next hid =>
                  obtain rfl := Except.ok.inj h
                  exact ⟨by simp [hm, Except.toOption], by simpa using hid⟩
          · cases hb

/-- A credential that verifies under `root` and names this device and MLS key. -/
def Names (cx : Crypto) (signed root deviceId key : Bytes) : Prop :=
  ∃ now v, verifyCredential cx signed (some root) now = .ok v ∧ v.credential.deviceId = deviceId ∧
    v.credential.mlsSignaturePublicKey = key

theorem verifyCredential_ok {signed : Bytes} {expected : Option Bytes} {now : UInt64} {v : VerifiedCredential}
    (h : verifyCredential cx signed expected now = .ok v) :
    ∃ so, cx.decodeSigned signed = .ok so ∧ cx.decodeCredential so.body = .ok v.credential := by
  unfold verifyCredential at h
  cases hs : cx.decodeSigned signed with
  | error e => simp [hs] at h
  | ok so =>
    simp only [hs] at h
    cases hc : cx.decodeCredential so.body with
    | error e => simp [hc] at h
    | ok body =>
      refine ⟨so, rfl, ?_⟩
      simp only [hc] at h
      repeat' split at h
      all_goals first
        | cases h; done
        | (obtain rfl := Except.ok.inj h; exact hc)

theorem names_issueCredential (hcx : cx.Lawful) {seed root d k : Bytes} {device : DevicePublicKeys} {validity : Validity}
    {uses : UInt8} (h : Names cx (issueCredential cx seed device validity uses) root d k) :
    d = device.deviceId ∧ k = device.mlsSignaturePublicKey := by
  obtain ⟨now, v, hv, hd, hk⟩ := h
  obtain ⟨so, hso, hbody⟩ := verifyCredential_ok hv
  unfold issueCredential sign at hso
  rw [hcx.decode_signed] at hso
  obtain rfl := Except.ok.inj hso
  rw [hcx.decode_credential] at hbody
  have hc := Except.ok.inj hbody
  rw [← hc] at hd hk
  exact ⟨hd.symm, hk.symm⟩

end Arveil.Identity

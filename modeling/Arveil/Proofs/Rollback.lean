import Arveil.Proofs.Acts
import Arveil.Proofs.Routes
import Arveil.Sanity.Platform

/-! Adding a device from a route. The relay serves the credential and the manifest,
and the manifest is checked with no known state. So a relay that replays an old
manifest gets a route accepted exactly when the route's credential was active once:
what this profile recorded since plays no part. -/

namespace Arveil.Rollback

open Client Prog

variable {pf : Platform}

/-- A credential that binds the route to its root at this time. -/
def Binds (cx : Crypto) (now : UInt64) (r : Route) (signed : Bytes) (c : DeviceCredential) : Prop :=
  ∃ v, Identity.verifyCredential cx signed (some r.rootPublic) now = .ok v ∧ v.credential = c ∧
    v.hash = r.credentialHash ∧ c.deviceId = r.deviceId ∧ c.envelopeHpkePublicKey = r.hpkePublic ∧
    c.allowedUses &&& (useMlsLeaf ||| useEnvelope) = useMlsLeaf ||| useEnvelope

/-- A manifest under the route's root that lists its credential active. -/
def Lists (cx : Crypto) (r : Route) (signed : Bytes) (body : DeviceManifest) : Prop :=
  Identity.verifyManifest cx signed r.rootPublic = .ok body ∧ r.credentialHash ∈ body.activeCredentialHashes

theorem acceptManifest_none {cx : Crypto} {signed root : Bytes} {body : DeviceManifest}
    (h : Identity.verifyManifest cx signed root = .ok body) :
    Identity.acceptManifest cx signed root none =
      .ok (body, ⟨body.manifestSequence, Identity.manifestHash cx signed⟩) := by
  unfold Identity.acceptManifest
  rw [h]
  rfl

theorem verifyClaimedDevice_binds {cx : Crypto} {now : UInt64} {r : Route} {signed manifest : Bytes}
    {c : DeviceCredential} (h : Identity.verifyClaimedDevice cx ⟨r.rootPublic, r.deviceId, r.credentialHash, r.hpkePublic⟩
      signed manifest now = .ok c) : Binds cx now r signed c ∧ ∃ body, Lists cx r manifest body := by
  unfold Identity.verifyClaimedDevice at h
  cases hv : Identity.verifyCredential cx signed (some r.rootPublic) now with
  | error e => simp [hv] at h
  | ok v =>
    simp only [hv] at h
    split at h
    · cases h
    next hhash =>
    split at h
    · cases h
    next hdev =>
    split at h
    · cases h
    next hkey =>
    split at h
    · cases h
    next huse =>
    cases ha : Identity.acceptManifest cx manifest r.rootPublic none with
    | error e => simp [ha] at h
    | ok accepted =>
      obtain ⟨body, state⟩ := accepted
      simp only [ha] at h
      split at h
      · next hin =>
        obtain rfl := Except.ok.inj h
        rw [not_not] at hhash hdev hkey huse
        refine ⟨⟨v, hv, rfl, hhash, hdev, hkey, huse⟩, body, (Identity.acceptManifest_ok ha).1, ?_⟩
        rwa [← hhash]
      · cases h

theorem verifyClaimedDevice_of_binds {cx : Crypto} {now : UInt64} {r : Route} {signed manifest : Bytes}
    {c : DeviceCredential} {body : DeviceManifest} (hb : Binds cx now r signed c) (hl : Lists cx r manifest body) :
    Identity.verifyClaimedDevice cx ⟨r.rootPublic, r.deviceId, r.credentialHash, r.hpkePublic⟩ signed manifest now =
      .ok c := by
  obtain ⟨v, hv, rfl, hhash, hdev, hkey, huse⟩ := hb
  obtain ⟨hm, hin⟩ := hl
  unfold Identity.verifyClaimedDevice
  simp [hv, hhash, hdev, hkey, huse, acceptManifest_none hm, hin]

/-- A relay that serves no manifest under this root that was not issued. -/
def Replays (cx : Crypto) (root : Bytes) (issued : Bytes → Prop) (relay : Relay) : Prop :=
  ∀ earlier p m body, relay.answer earlier p = .ok (.manifestLatest m) → Identity.verifyManifest cx m root = .ok body →
    issued m

def recorded (st : Store) (id : Bytes) : Option Identity.ManifestState :=
  if identityId st = some id then manifestState st else peerManifestState st id

/-- The credential of the route is active in a manifest no older than the recorded one. -/
def StillActive (cx : Crypto) (issued : Bytes → Prop) (st : Store) (r : Route) : Prop :=
  ∃ m body, issued m ∧ Lists cx r m body ∧ ∀ k, recorded st r.identityId = some k → k.sequence ≤ body.manifestSequence

/-- The route has a credential that is valid now, and some manifest ever issued lists
it active. -/
structure OnceActive (cx : Crypto) (issued : Bytes → Prop) (now : UInt64) (r : Route) : Prop where
  root : r.root cx = .ok r.rootPublic
  bound : ∃ signed c, signed ≠ [] ∧ Binds cx now r signed c
  listed : ∃ m body, m ≠ [] ∧ issued m ∧ Lists cx r m body

theorem servedManifest_ok {relay : Relay} {id m : Bytes} {w w' : World}
    (h : Net.servedManifest relay id w = (.ok m, w')) :
    ∃ earlier, relay.answer earlier (.manifestGet id) = .ok (.manifestLatest m) := by
  unfold Net.servedManifest at h
  obtain ⟨reply, w₁, h1, h⟩ := bind_eq_ok.1 h
  refine ⟨w.sent, ?_⟩
  rw [(Prod.mk.inj h1).1]
  split at h
  · rw [Except.ok.inj (Prod.mk.inj h).1]
  · cases h

theorem onceActive_of_accepted {relay : Relay} {issued : Bytes → Prop} {now : Int} {r : Route} {c : DeviceCredential}
    {w w' : World} (hr : Replays pf.crypto r.rootPublic issued relay)
    (h : Net.verifiedRouteCredential relay pf now r w = (.ok c, w')) :
    OnceActive pf.crypto issued (Net.asU64 now) r := by
  unfold Net.verifiedRouteCredential at h
  obtain ⟨signed, w₁, -, h⟩ := bind_eq_ok.1 h
  obtain ⟨_, w₂, h2, h⟩ := bind_eq_ok.1 h
  obtain ⟨m, w₃, h3, h⟩ := bind_eq_ok.1 h
  obtain ⟨_, w₄, h4, h⟩ := bind_eq_ok.1 h
  obtain ⟨root, w₅, h5, h⟩ := bind_eq_ok.1 h
  obtain ⟨hroot, -⟩ := ofExcept_eq_ok.1 h5
  obtain ⟨hc, -⟩ := ofExcept_eq_ok.1 h
  obtain rfl := Route.root_ok hroot
  have hsigned : signed ≠ [] := by
    rintro rfl
    cases h2
  have hm : m ≠ [] := by
    rintro rfl
    cases h4
  split at hc
  · next c' hv =>
    obtain ⟨hb, body, hl⟩ := verifyClaimedDevice_binds hv
    obtain ⟨earlier, hserved⟩ := servedManifest_ok h3
    exact ⟨hroot, ⟨signed, c', hsigned, hb⟩, m, body, hm, hr earlier _ m body hserved hl.1, hl⟩
  · cases hc

def replay (credential manifest : Bytes) : Relay where
  answer _ p :=
    match p with
    | .credentialGet .. => .ok (.credentialFound credential)
    | .manifestGet _ => .ok (.manifestLatest manifest)
    | _ => .error (.transport "closed")
  debug _ := ""

/-- What was active once is accepted on the old manifest. -/
theorem accepted_of_onceActive {issued : Bytes → Prop} {now : Int} {r : Route}
    (h : OnceActive pf.crypto issued (Net.asU64 now) r) (st : Store) :
    ∃ relay, Replays pf.crypto r.rootPublic issued relay ∧
      ∃ c w', Net.verifiedRouteCredential relay pf now r ⟨st, []⟩ = (.ok c, w') := by
  obtain ⟨hroot, ⟨signed, c, hsigned, hb⟩, m, body, hm, hi, hl⟩ := h
  refine ⟨replay signed m, fun earlier p m' body' hserved _ => ?_, c, ⟨st, [.credentialGet r.identityId r.credentialHash,
    .manifestGet r.identityId]⟩, ?_⟩
  · cases p <;> simp [replay] at hserved
    rwa [← hserved]
  · have hs : ¬ signed.isEmpty = true := by simpa using hsigned
    have hme : ¬ m.isEmpty = true := by simpa using hm
    have hcred : Net.servedCredential (replay signed m) r ⟨st, []⟩ =
      (.ok signed, ⟨st, [.credentialGet r.identityId r.credentialHash]⟩) := rfl
    have hman : Net.servedManifest (replay signed m) r.identityId ⟨st, [.credentialGet r.identityId r.credentialHash]⟩ =
      (.ok m, ⟨st, [.credentialGet r.identityId r.credentialHash, .manifestGet r.identityId]⟩) := rfl
    unfold Net.verifiedRouteCredential
    rw [bind_ok hcred, when_neg hs, bind_ok (pure_run _ _), bind_ok hman, when_neg hme, bind_ok (pure_run _ _), hroot,
      bind_ok (ofExcept_ok _ _), verifyClaimedDevice_of_binds hb hl]
    rfl

theorem claimKeyPackage_accepted {relay : Relay} {now : Int} {r : Route} {kp : MlsMessage} {w w' : World}
    (h : Net.claimKeyPackage relay pf now r w = (.ok kp, w')) :
    ∃ c w₁, Net.verifiedRouteCredential relay pf now r w = (.ok c, w₁) := by
  unfold Net.claimKeyPackage at h
  obtain ⟨c, w₁, hv, -⟩ := bind_eq_ok.1 h
  exact ⟨c, w₁, hv⟩

/-- Whatever a relay replays, a route is accepted only with a credential that is active
in a manifest no older than the recorded one exactly when its credential, if it was
active once, still is. Claiming a key package accepts no other routes. -/
theorem route_accepted_only_if_still_active_iff (issued : Bytes → Prop) (st : Store) (now : Int) (r : Route) :
    ((∀ relay, Replays pf.crypto r.rootPublic issued relay → ∀ w, w.store = st → ∀ c w',
        Net.verifiedRouteCredential relay pf now r w = (.ok c, w') → StillActive pf.crypto issued st r) ↔
      (OnceActive pf.crypto issued (Net.asU64 now) r → StillActive pf.crypto issued st r)) ∧
    ((OnceActive pf.crypto issued (Net.asU64 now) r → StillActive pf.crypto issued st r) →
      ∀ relay, Replays pf.crypto r.rootPublic issued relay → ∀ w, w.store = st → ∀ kp w',
        Net.claimKeyPackage relay pf now r w = (.ok kp, w') → StillActive pf.crypto issued st r) := by
  refine ⟨⟨fun h honce => ?_, fun h relay hr w _ c w' hrun => h (onceActive_of_accepted hr hrun)⟩,
    fun h relay hr w _ kp w' hrun => ?_⟩
  · obtain ⟨relay, hr, c, w', hrun⟩ := accepted_of_onceActive honce st
    exact h relay hr ⟨st, []⟩ rfl c w' hrun
  · obtain ⟨c, w₁, hv⟩ := claimKeyPackage_accepted hrun
    exact h (onceActive_of_accepted hr hv)

section demo

open Demo

def demoCredential : Bytes := Identity.issueCredential crypto [2] (keysOf 2).public ⟨0, 100⟩ allUses

def demoHash : Bytes := Identity.credentialHash crypto demoCredential

/-- The first manifest of identity 2 lists its device, the second revokes it. -/
def demoFirst : Bytes := Identity.issueManifest crypto [2] none [demoHash] []

def demoSecond : Bytes := Identity.issueManifest crypto [2] (some ⟨1, Identity.manifestHash crypto demoFirst⟩) [] [demoHash]

def demoIssued (m : Bytes) : Prop := m = demoFirst ∨ m = demoSecond

def demoRoute : Route := ⟨identityOf 2, [2], demoHash, publicKey [2], [12], [22], publicKey [2, 1]⟩

def demoStore (sequence : Int64) (manifest : Bytes) : Store :=
  { profile.store with
    peerManifests := ⟨[⟨identityOf 2, sequence, Identity.manifestHash crypto manifest, none⟩], by simp⟩ }

def demoKeyPackage : MlsMessage := ⟨.keyPackage, none, keyPackage.write ([2], publicKey [2, 2])⟩

def demoRelay : Relay where
  answer _ p :=
    match p with
    | .credentialGet .. => .ok (.credentialFound demoCredential)
    | .manifestGet _ => .ok (.manifestLatest demoFirst)
    | .keyPackagesClaim .. => .ok (.keyPackageClaimed (mlsMessage.write demoKeyPackage))
    | _ => .error (.transport "closed")
  debug _ := ""

theorem demoRelay_replays : Replays crypto (publicKey [2]) demoIssued demoRelay := by
  intro earlier p m body hserved _
  cases p <;> simp [demoRelay] at hserved
  exact Or.inl hserved.symm

theorem demo_manifests :
    (Identity.verifyManifest crypto demoFirst (publicKey [2])).toOption.map
        (fun b => (b.manifestSequence, b.activeCredentialHashes)) = some (1, [demoHash]) ∧
      (Identity.verifyManifest crypto demoSecond (publicKey [2])).toOption.map
        (fun b => (b.manifestSequence, b.activeCredentialHashes)) = some (2, []) := by
  decide +kernel

/-- The second manifest is the recorded one, and on the first the device is added. -/
theorem revoked_device_is_added_again :
    ¬ ∀ relay, Replays crypto demoRoute.rootPublic demoIssued relay → ∀ kp w',
      Net.claimKeyPackage relay platform 50 demoRoute ⟨demoStore 2 demoSecond, []⟩ = (.ok kp, w') →
        StillActive crypto demoIssued (demoStore 2 demoSecond) demoRoute := by
  intro hall
  have hrun : (Net.claimKeyPackage demoRelay platform 50 demoRoute ⟨demoStore 2 demoSecond, []⟩).1.toOption =
        some demoKeyPackage ∧
      recorded (demoStore 2 demoSecond) (identityOf 2) = some ⟨2, Identity.manifestHash crypto demoSecond⟩ := by
    decide +kernel
  obtain ⟨hrun, hrec⟩ := hrun
  obtain ⟨m, body, hm, ⟨hv, hin⟩, hseq⟩ := hall demoRelay demoRelay_replays _ _ (run_of_toOption hrun)
  obtain ⟨hfirst, hsecond⟩ := demo_manifests
  rcases hm with rfl | rfl
  · rw [show Identity.verifyManifest crypto demoFirst (publicKey [2]) = .ok body from hv] at hfirst
    obtain ⟨hs, -⟩ := Prod.mk.inj (Option.some.inj hfirst)
    have hle := hseq _ hrec
    rw [hs] at hle
    exact absurd hle (by decide)
  · rw [show Identity.verifyManifest crypto demoSecond (publicKey [2]) = .ok body from hv] at hsecond
    obtain ⟨-, ha⟩ := Prod.mk.inj (Option.some.inj hsecond)
    rw [ha] at hin
    cases hin

/-- Before the revocation the same answers are right. -/
theorem active_device_is_added :
    ∀ kp w', Net.claimKeyPackage demoRelay platform 50 demoRoute ⟨demoStore 1 demoFirst, []⟩ = (.ok kp, w') →
      StillActive crypto demoIssued (demoStore 1 demoFirst) demoRoute := by
  refine (@route_accepted_only_if_still_active_iff platform demoIssued (demoStore 1 demoFirst) 50 demoRoute).2
    (fun _ => ?_) demoRelay demoRelay_replays _ rfl
  have hrec : recorded (demoStore 1 demoFirst) (identityOf 2) = some ⟨1, Identity.manifestHash crypto demoFirst⟩ := by
    decide +kernel
  obtain ⟨hfirst, -⟩ := demo_manifests
  obtain ⟨body, hv, hbody⟩ := Option.map_eq_some_iff.1 hfirst
  obtain ⟨hs, ha⟩ := Prod.mk.inj hbody
  have hin : demoHash ∈ body.activeCredentialHashes := by
    rw [ha]
    exact List.mem_singleton_self _
  have hlists : Lists crypto demoRoute demoFirst body := ⟨ok_of_toOption hv, hin⟩
  have hissued : demoIssued demoFirst := Or.inl rfl
  refine ⟨demoFirst, body, hissued, hlists, fun k hk => ?_⟩
  have hseq : k.sequence = 1 := by
    rw [show demoRoute.identityId = identityOf 2 from rfl, hrec] at hk
    rw [← Option.some.inj hk]
  rw [hs, hseq]
  exact UInt64.le_refl _

end demo

end Arveil.Rollback

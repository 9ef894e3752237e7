import Arveil.Proofs.Store
import Arveil.Sanity.Demo

/-! The credentials an administration device issued, over whole runs. The profile
keeps one credential hash per device and the manifest a list of hashes; the run
records every credential that was issued and every device that was revoked. -/

namespace Arveil.Devices

open Client

variable (cx : Crypto)

/-- A profile with the history of its root: the `(device, credential hash)` pairs
issued so far and the devices whose revocation returned. -/
structure Admin where
  store : Store
  issued : List (Bytes × Bytes)
  revoked : List Bytes

inductive Op where
  | deviceNew (keys : DeviceKeys) (mlsSigningSecret : Bytes) (now : UInt64)
  | deviceAuthorize (device : DevicePublicKeys) (now : UInt64)
  | deviceRevoke (device : Bytes)
  | manifestAcceptOwn (signed : Bytes)

def step (a : Admin) : Op → Admin
  | .deviceNew keys secret now =>
      match Client.deviceNew cx keys secret now a.store with
      | (.ok (d, _), s) => { a with store := s, issued := a.issued ++ [(d.keys.deviceId, d.credentialHash)] }
      | (.error _, s) => { a with store := s }
  | .deviceAuthorize device now =>
      match Client.deviceAuthorize cx device now a.store with
      | (.ok (credential, _), s) =>
          { a with
            store := s
            issued := a.issued ++ [(device.deviceId, Identity.credentialHash cx credential)] }
      | (.error _, s) => { a with store := s }
  | .deviceRevoke device =>
      match Client.deviceRevoke cx device a.store with
      | (.ok _, s) => { a with store := s, revoked := a.revoked ++ [device] }
      | (.error _, s) => { a with store := s }
  | .manifestAcceptOwn signed => { a with store := (Client.manifestAcceptOwn cx signed a.store).2 }

/-- The next sequence still fits the signed column it is stored in. -/
def Room (s : Store) : Prop := ∀ k ∈ manifestState s, k.sequence.toNat + 1 < 2 ^ 63

instance (s : Store) : Decidable (Room s) := inferInstanceAs (Decidable (∀ k ∈ manifestState s, _))

def newHash (seed : Bytes) (device : DevicePublicKeys) (now : UInt64) : Bytes :=
  Identity.credentialHash cx (issuedCredential cx seed device now)

/-- No credential of a device is replaced while it is active, none is issued that
the chain already lists, and a manifest from elsewhere drops nothing. -/
def Tracked (a : Admin) : Op → Prop
  | .deviceNew keys _ now => Room a.store ∧ ∀ seed ∈ Client.root a.store, ∀ body ∈ newestBody cx a.store,
      newHash cx seed keys.public now ∉ body.activeCredentialHashes ++ body.revokedCredentialHashes
  | .deviceAuthorize device now => Room a.store ∧ ∀ seed ∈ Client.root a.store, ∀ body ∈ newestBody cx a.store,
      newHash cx seed device now ∉ body.revokedCredentialHashes ∧
      ∀ d ∈ a.store.identityDevices.rows, d.deviceId = device.deviceId →
        d.credentialHash ∈ body.activeCredentialHashes → d.credentialHash = newHash cx seed device now
  | .deviceRevoke _ => Room a.store
  | .manifestAcceptOwn signed => Room a.store ∧ ∀ root body state, rootPublic a.store = some root →
      Identity.acceptManifest cx signed root (manifestState a.store) = .ok (body, state) →
      body.manifestSequence.toNat < 2 ^ 63 ∧ ∀ old, newestBody cx a.store = some old →
        (manifestState a.store).map (·.sequence) ≠ some body.manifestSequence →
        (∀ h ∈ old.revokedCredentialHashes, h ∈ body.revokedCredentialHashes) ∧
        (∀ h ∈ old.activeCredentialHashes, h ∈ body.activeCredentialHashes ∨ h ∈ body.revokedCredentialHashes) ∧
        ∀ h ∈ body.activeCredentialHashes, h ∉ body.revokedCredentialHashes

def HoldsRoot (seed : Bytes) (s : Store) : Prop :=
  s.identity = some ⟨some seed, cx.publicKey seed, Identity.identityId cx (cx.publicKey seed)⟩

section newest

variable {cx}

theorem manifestState_some {s : Store} {b : ManifestRow} (h : newestRow s.manifest.rows = some b) :
    manifestState s = some ⟨b.sequence.toUInt64, b.hash⟩ := by
  unfold manifestState
  rw [h]
  rfl

theorem newestBody_insert {s s' : Store} {seed signed hash : Bytes} {body : DeviceManifest}
    {m : Table fun r : ManifestRow => (r.identityId, r.sequence)} (hroot : HoldsRoot cx seed s)
    (hroom : Room s) (hseq : body.manifestSequence.toNat < 2 ^ 63)
    (hlater : ∀ k, manifestState s = some k → k.sequence < body.manifestSequence)
    (hv : Identity.verifyManifest cx signed (cx.publicKey seed) = .ok body)
    (hi : s.manifest.insert ⟨body.identityId, body.manifestSequence.toInt64, signed, hash⟩ = some m)
    (hm : s'.manifest = m) (hs' : s'.identity = s.identity) : newestBody cx s' = some body := by
  have hnew : newestRow s'.manifest.rows =
      some ⟨body.identityId, body.manifestSequence.toInt64, signed, hash⟩ := by
    rw [hm, (Table.insert_eq_some hi).1, newestRow_append]
    cases hn : newestRow s.manifest.rows with
    | none => rfl
    | some b =>
      have hk := manifestState_some hn
      have hlt : b.sequence < body.manifestSequence.toInt64 := by
        have := (toInt64_lt (by have := hroom _ hk; omega) hseq).2 (hlater _ hk)
        simpa using this
      simp [hlt]
  unfold newestBody rootPublic
  rw [hnew, hs', hroot]
  simp [hv, Except.toOption]

theorem newestBody_issue (hcx : cx.Lawful) {s : Store} (s' : Store) {seed hash : Bytes} {active revoked : List Bytes}
    {body : DeviceManifest} {m : Table fun r : ManifestRow => (r.identityId, r.sequence)}
    (hroot : HoldsRoot cx seed s) (hroom : Room s)
    (ha : Identity.acceptManifest cx (Identity.issueManifest cx seed (manifestState s) active revoked)
      (cx.publicKey seed) (manifestState s) = .ok (body, ⟨body.manifestSequence, hash⟩))
    (hi : s.manifest.insert ⟨body.identityId, body.manifestSequence.toInt64,
      Identity.issueManifest cx seed (manifestState s) active revoked, hash⟩ = some m)
    (hm : s'.manifest = m) (hs' : s'.identity = s.identity) :
    ∃ b, newestBody cx s' = some b ∧ b.activeCredentialHashes = active ∧ b.revokedCredentialHashes = revoked := by
  have hv := (Identity.acceptManifest_ok ha).1
  have hb : body = Identity.issuedManifest cx seed (manifestState s) active revoked := by
    rw [Identity.verifyManifest_issueManifest hcx] at hv
    exact (Except.ok.inj hv).symm
  have hnext : ∀ k, manifestState s = some k →
      body.manifestSequence.toNat = k.sequence.toNat + 1 := by
    intro k hk
    have := hroom k hk
    rw [hb]
    simp only [Identity.issuedManifest, hk, Option.elim_some, UInt64.toNat_add, UInt64.reduceToNat]
    omega
  refine ⟨body, newestBody_insert hroot hroom ?_ ?_ hv hi hm hs', by rw [hb]; rfl, by rw [hb]; rfl⟩
  · cases hk : manifestState s with
    | none =>
      rw [hb]
      simp [Identity.issuedManifest, hk]
    | some k =>
      have := hroom k hk
      have := hnext k hk
      omega
  · intro k hk
    rw [UInt64.lt_iff_toNat_lt, hnext k hk]
    omega

theorem newestBody_congr {s s' : Store} (hm : s'.manifest = s.manifest) (hi : s'.identity = s.identity) :
    newestBody cx s' = newestBody cx s := by
  unfold newestBody rootPublic
  rw [hm, hi]

end newest

/-- Where an issued credential stands: revoked, or active and still the one the
profile keeps for its device. -/
def Standing (s : Store) (body : DeviceManifest) (device hash : Bytes) : Prop :=
  (hash ∈ body.revokedCredentialHashes ∧ hash ∉ body.activeCredentialHashes) ∨
    (hash ∈ body.activeCredentialHashes ∧ hash ∉ body.revokedCredentialHashes ∧
      ∃ d ∈ s.identityDevices, d.deviceId = device ∧ d.credentialHash = hash)

structure Inv (seed : Bytes) (a : Admin) : Prop where
  root : HoldsRoot cx seed a.store
  known : ∀ e ∈ a.issued, ∃ d ∈ a.store.identityDevices, d.deviceId = e.1
  standing : ∀ e ∈ a.issued, ∃ body, newestBody cx a.store = some body ∧ Standing a.store body e.1 e.2
  flagged : ∀ d ∈ a.revoked, ∃ r ∈ a.store.identityDevices, r.deviceId = d ∧ r.revoked = true
  gone : ∀ e ∈ a.issued, e.1 ∈ a.revoked → ∀ body, newestBody cx a.store = some body →
    e.2 ∈ body.revokedCredentialHashes

section inv

variable {cx}

theorem root_of_holdsRoot {seed : Bytes} {s : Store} (h : HoldsRoot cx seed s) : Client.root s = some seed := by
  unfold Client.root
  rw [h]
  rfl

theorem rootPublic_of_holdsRoot {seed : Bytes} {s : Store} (h : HoldsRoot cx seed s) :
    rootPublic s = some (cx.publicKey seed) := by
  unfold rootPublic
  rw [h]
  rfl

theorem markAll_keeps (hashes : List Bytes) {s : Store} {d : OwnDevice} (h : d ∈ s.identityDevices) :
    ∃ d' ∈ (markAll hashes s).identityDevices, d'.deviceId = d.deviceId ∧ d'.credentialHash = d.credentialHash ∧
      (d.revoked = true ∨ d.credentialHash ∈ hashes → d'.revoked = true) := by
  refine ⟨_, mem_markAll_identityDevices.2 ⟨d, h, rfl⟩, ?_⟩
  split
  · exact ⟨rfl, rfl, fun _ => rfl⟩
  · next hn => exact ⟨rfl, rfl, fun hr => hr.resolve_right hn⟩

theorem Standing.mark {s : Store} {body : DeviceManifest} {device hash : Bytes} (hashes : List Bytes)
    (h : Standing s body device hash) : Standing (markAll hashes s) body device hash := by
  refine h.imp_right ?_
  rintro ⟨ha, hr, d, hd, rfl, rfl⟩
  obtain ⟨d', hd', hid, hh, -⟩ := markAll_keeps hashes hd
  exact ⟨ha, hr, d', hd', hid, hh⟩

theorem inv_deviceNew (hcx : cx.Lawful) {seed : Bytes} {a : Admin} {keys : DeviceKeys} {secret : Bytes}
    {now : UInt64} (h : Inv cx seed a) (ht : Tracked cx a (.deviceNew keys secret now)) :
    Inv cx seed (step cx a (.deviceNew keys secret now)) := by
  rcases deviceNew_cases cx keys secret now a.store with
    ⟨e, he⟩ | ⟨seed', mbody, devices, m, own, hseed', ha, hi, ho, hrun⟩
  · simp only [step, he]
    exact h
  obtain rfl := Option.some.inj ((root_of_holdsRoot h.root).symm.trans hseed')
  simp only [step, hrun]
  obtain ⟨b, hb, hactive, hrevoked⟩ := newestBody_issue hcx { a.store with
    device := devices, manifest := m, identityDevices := own } h.root ht.1 ha hi rfl rfl
  have hfresh : ∀ old, newestBody cx a.store = some old → newHash cx seed keys.public now ∉
      old.activeCredentialHashes ++ old.revokedCredentialHashes := ht.2 seed hseed'
  have hmem : ∀ d ∈ a.store.identityDevices, d ∈ own := fun d hd => (Table.mem_insert ho).2 (Or.inl hd)
  have hself : ⟨keys.deviceId, newHash cx seed keys.public now, false⟩ ∈ own :=
    (Table.mem_insert ho).2 (Or.inr rfl)
  have hnoOther : ∀ d ∈ a.store.identityDevices, d.deviceId ≠ keys.deviceId := (Table.insert_eq_some ho).2
  have hold : ∀ e ∈ a.issued, e.2 ∈ b.revokedCredentialHashes ∧ e.2 ∉ b.activeCredentialHashes := by
    intro e he
    obtain ⟨old, hnb, hst⟩ := h.standing e he
    have hin : e.2 ∈ old.activeCredentialHashes ++ old.revokedCredentialHashes := by
      rcases hst with ⟨hr, -⟩ | ⟨hac, -⟩
      · exact List.mem_append_right _ hr
      · exact List.mem_append_left _ hac
    rw [hrevoked, hactive, hnb]
    refine ⟨hin, fun hself => hfresh old hnb ?_⟩
    rw [List.mem_singleton] at hself
    rwa [newHash, ← hself]
  refine ⟨h.root, ?_, ?_, ?_, ?_⟩
  · intro e he
    rcases List.mem_append.1 he with he | he
    · obtain ⟨d, hd, hid⟩ := h.known e he
      exact ⟨d, hmem d hd, hid⟩
    · obtain rfl := List.mem_singleton.1 he
      exact ⟨_, hself, rfl⟩
  · intro e he
    refine ⟨b, hb, ?_⟩
    rcases List.mem_append.1 he with he | he
    · exact Or.inl (hold e he)
    · obtain rfl := List.mem_singleton.1 he
      refine Or.inr ⟨by rw [hactive]; exact List.mem_singleton.2 rfl, ?_, _, hself, rfl, rfl⟩
      rw [hrevoked]
      cases hn : newestBody cx a.store with
      | none => simp
      | some old => exact hfresh old hn
  · intro d hd
    obtain ⟨r, hr, hid, hf⟩ := h.flagged d hd
    exact ⟨r, hmem r hr, hid, hf⟩
  · intro e he hrev body hbody
    obtain rfl := Option.some.inj (hb.symm.trans hbody)
    rcases List.mem_append.1 he with he | he
    · exact (hold e he).1
    · obtain rfl := List.mem_singleton.1 he
      obtain ⟨r, hr, hid, -⟩ := h.flagged _ hrev
      exact absurd hid (hnoOther r hr)

theorem inv_deviceAuthorize (hcx : cx.Lawful) {seed : Bytes} {a : Admin} {device : DevicePublicKeys}
    {now : UInt64} (h : Inv cx seed a) (ht : Tracked cx a (.deviceAuthorize device now)) :
    Inv cx seed (step cx a (.deviceAuthorize device now)) := by
  rcases deviceAuthorize_cases cx device now a.store with ⟨e, he⟩ | ⟨seed', mbody, m, hseed', hlive, ha, hi, hrun⟩
  · simp only [step, he]
    exact h
  obtain rfl := Option.some.inj ((root_of_holdsRoot h.root).symm.trans hseed')
  simp only [step, hrun]
  set hash := newHash cx seed device now with hhash
  set own := a.store.identityDevices.replace ⟨device.deviceId, hash, false⟩ with hown
  obtain ⟨b, hb, hactive, hrevoked⟩ := newestBody_issue hcx { a.store with
    manifest := m, identityDevices := own } h.root ht.1 ha hi rfl rfl
  have hself : ⟨device.deviceId, hash, false⟩ ∈ own := Table.mem_replace.2 (Or.inr rfl)
  have hother : ∀ d ∈ a.store.identityDevices, d.deviceId ≠ device.deviceId → d ∈ own :=
    fun d hd hne => Table.mem_replace.2 (Or.inl ⟨hd, hne⟩)
  refine ⟨h.root, ?_, ?_, ?_, ?_⟩
  · intro e he
    rcases List.mem_append.1 he with he | he
    · obtain ⟨d, hd, hid⟩ := h.known e he
      by_cases hsame : d.deviceId = device.deviceId
      · exact ⟨_, hself, hsame.symm.trans hid⟩
      · exact ⟨d, hother d hd hsame, hid⟩
    · obtain rfl := List.mem_singleton.1 he
      exact ⟨_, hself, rfl⟩
  · intro e he
    refine ⟨b, hb, ?_⟩
    unfold Standing
    rw [hactive, hrevoked]
    rcases List.mem_append.1 he with he | he
    · obtain ⟨old, hnb, hst⟩ := h.standing e he
      obtain ⟨hnotin, hkept⟩ := ht.2 seed hseed' old hnb
      rw [hnb]
      rcases hst with ⟨hr, hna⟩ | ⟨hac, hnr, d, hd, hid, hh⟩
      · refine Or.inl ⟨hr, fun hin => ?_⟩
        rcases List.mem_append.1 hin with hin | hin
        · exact hna hin
        · rw [List.mem_singleton.1 hin] at hr
          exact hnotin hr
      · refine Or.inr ⟨List.mem_append_left _ hac, hnr, ?_⟩
        by_cases hsame : d.deviceId = device.deviceId
        · -- the row is overwritten: its active credential is the one just issued again
          have := hkept d hd hsame (by rw [hh]; exact hac)
          exact ⟨_, hself, hsame.symm.trans hid, this.symm.trans hh⟩
        · exact ⟨d, hother d hd hsame, hid, hh⟩
    · obtain rfl := List.mem_singleton.1 he
      refine Or.inr ⟨List.mem_append_right _ (List.mem_singleton.2 rfl), ?_, _, hself, rfl, rfl⟩
      cases hn : newestBody cx a.store with
      | none => simp
      | some old => exact (ht.2 seed hseed' old hn).1
  · intro d hd
    obtain ⟨r, hr, hid, hf⟩ := h.flagged d hd
    refine ⟨r, hother r hr fun hsame => ?_, hid, hf⟩
    rw [hlive r hr hsame] at hf
    cases hf
  · intro e he hrev body hbody
    obtain rfl := Option.some.inj (hb.symm.trans hbody)
    rw [hrevoked]
    rcases List.mem_append.1 he with he | he
    · obtain ⟨old, hnb, -⟩ := h.standing e he
      rw [hnb]
      exact h.gone e he hrev old hnb
    · obtain rfl := List.mem_singleton.1 he
      obtain ⟨r, hr, hid, hf⟩ := h.flagged _ hrev
      rw [hlive r hr hid] at hf
      cases hf

/-- Revoking turns what stood before into what stands after, for every device. -/
theorem inv_deviceRevoke (hcx : cx.Lawful) {seed : Bytes} {a : Admin} {device : Bytes} (h : Inv cx seed a)
    (ht : Tracked cx a (.deviceRevoke device)) : Inv cx seed (step cx a (.deviceRevoke device)) := by
  rcases hrun : Client.deviceRevoke cx device a.store with ⟨r, s'⟩
  cases r with
  | error e =>
    simp only [step, hrun, deviceRevoke_error cx hrun]
    exact h
  | ok r =>
  obtain ⟨seed', root, d, row, body, hseed', hroot, hd, hdid, hrow, hv, hcase⟩ := deviceRevoke_ok cx hrun
  obtain rfl := Option.some.inj ((root_of_holdsRoot h.root).symm.trans hseed')
  have hnb : newestBody cx a.store = some body := by
    unfold newestBody
    rw [hrow, hroot]
    simp [hv, Except.toOption]
  -- the row of the device is unique, so its active credential is the one revoked here
  have hrowOf : ∀ d' ∈ a.store.identityDevices, d'.deviceId = device → d' = d :=
    fun d' hd' hid => Table.eq_of_key hd' hd (hid.trans hdid.symm)
  simp only [step, hrun]
  -- what both outcomes share: the marks, and a newest list that revokes this credential
  suffices hafter : s'.identity = a.store.identity ∧
      (∀ r ∈ a.store.identityDevices, ∃ r' ∈ s'.identityDevices, r'.deviceId = r.deviceId ∧
        r'.credentialHash = r.credentialHash ∧ (r.revoked = true ∨ r = d → r'.revoked = true)) ∧
      ∃ b, newestBody cx s' = some b ∧ d.credentialHash ∈ b.revokedCredentialHashes ∧
        (∀ x ∈ body.revokedCredentialHashes, x ∈ b.revokedCredentialHashes) ∧
        (∀ x ∈ b.activeCredentialHashes, x ∈ body.activeCredentialHashes) ∧
        ∀ x ∈ body.activeCredentialHashes, x ∉ body.revokedCredentialHashes →
          (x = d.credentialHash → x ∉ b.activeCredentialHashes) ∧
          (x ≠ d.credentialHash → x ∈ b.activeCredentialHashes ∧ x ∉ b.revokedCredentialHashes) by
    obtain ⟨hident, hrows, b, hb, hdr, hR, hA, hmove⟩ := hafter
    refine ⟨by unfold HoldsRoot; rw [hident]; exact h.root, ?_, ?_, ?_, ?_⟩
    · intro e he
      obtain ⟨r, hr, hid⟩ := h.known e he
      obtain ⟨r', hr', hid', -⟩ := hrows r hr
      exact ⟨r', hr', hid'.trans hid⟩
    · intro e he
      refine ⟨b, hb, ?_⟩
      obtain ⟨old, hold, hst⟩ := h.standing e he
      obtain rfl := Option.some.inj (hnb.symm.trans hold)
      rcases hst with ⟨hr, hna⟩ | ⟨hac, hnr, r, hr, hid, hh⟩
      · exact Or.inl ⟨hR _ hr, fun hin => hna (hA _ hin)⟩
      · by_cases hx : e.2 = d.credentialHash
        · exact Or.inl ⟨by rw [hx]; exact hdr, (hmove _ hac hnr).1 hx⟩
        · obtain ⟨r', hr', hid', hh', -⟩ := hrows r hr
          obtain ⟨hac', hnr'⟩ := (hmove _ hac hnr).2 hx
          exact Or.inr ⟨hac', hnr', r', hr', hid'.trans hid, hh'.trans hh⟩
    · intro d' hd'
      rcases List.mem_append.1 hd' with hd' | hd'
      · obtain ⟨r, hr, hid, hf⟩ := h.flagged d' hd'
        obtain ⟨r', hr', hid', -, hf'⟩ := hrows r hr
        exact ⟨r', hr', hid'.trans hid, hf' (Or.inl hf)⟩
      · obtain rfl := List.mem_singleton.1 hd'
        obtain ⟨r', hr', hid', -, hf'⟩ := hrows d hd
        exact ⟨r', hr', hid'.trans hdid, hf' (Or.inr rfl)⟩
    · intro e he hrev b' hb'
      obtain rfl := Option.some.inj (hb.symm.trans hb')
      rcases List.mem_append.1 hrev with hrev | hrev
      · exact hR _ (h.gone e he hrev body hnb)
      · have hdev := List.mem_singleton.1 hrev
        obtain ⟨old, hold, hst⟩ := h.standing e he
        obtain rfl := Option.some.inj (hnb.symm.trans hold)
        rcases hst with ⟨hr, -⟩ | ⟨-, -, r, hr, hid, hh⟩
        · exact hR _ hr
        · rw [← hh, hrowOf r hr (hid.trans hdev)]
          exact hdr
  rcases hcase with ⟨hin, hs'⟩ | ⟨hnin, mbody, m, ha, hi, hs'⟩
  · have hmarks := revocationStart_eq device (revocationMarker d.credentialHash) (markAll [d.credentialHash] a.store)
    rw [← hs'] at hmarks
    refine ⟨by rw [hmarks, markAll_eq], ?_, body, ?_, hin, fun x hx => hx, fun x hx => hx, ?_⟩
    · intro r hr
      rw [hmarks]
      obtain ⟨r', hr', hid', hh', hf'⟩ := markAll_keeps [d.credentialHash] hr
      exact ⟨r', hr', hid', hh', fun hx => hf' (hx.imp_right fun hx => by rw [hx]; exact List.mem_singleton.2 rfl)⟩
    · rw [newestBody_congr (s := a.store) (by rw [hmarks, markAll_eq]) (by rw [hmarks, markAll_eq])]
      exact hnb
    · intro x hx hnx
      exact ⟨fun he => absurd (he ▸ hin) hnx, fun _ => ⟨hx, hnx⟩⟩
  · have hmarks := revocationStart_eq device (revocationMarker d.credentialHash)
      (markAll [d.credentialHash] { a.store with manifest := m })
    rw [← hs'] at hmarks
    obtain ⟨b, hb, hactive, hrevoked⟩ := newestBody_issue hcx s' h.root ht ha hi
      (by rw [hmarks, markAll_eq]) (by rw [hmarks, markAll_eq])
    refine ⟨by rw [hmarks, markAll_eq], ?_, b, hb, ?_, ?_, ?_, ?_⟩
    · intro r hr
      rw [hmarks]
      obtain ⟨r', hr', hid', hh', hf'⟩ :=
        markAll_keeps [d.credentialHash] (s := { a.store with manifest := m }) hr
      exact ⟨r', hr', hid', hh', fun hx => hf' (hx.imp_right fun hx => by rw [hx]; exact List.mem_singleton.2 rfl)⟩
    · rw [hrevoked]; simp
    · intro x hx; rw [hrevoked]; simp [hx]
    · intro x hx; rw [hactive] at hx; exact (List.mem_filter.1 hx).1
    · intro x hx hnx
      rw [hactive, hrevoked]
      exact ⟨fun he => by simp [he], fun hne => by simp [hx, hne, hnx]⟩

theorem inv_manifestAcceptOwn {seed : Bytes} {a : Admin} {signed : Bytes} (h : Inv cx seed a)
    (ht : Tracked cx a (.manifestAcceptOwn signed)) : Inv cx seed (step cx a (.manifestAcceptOwn signed)) := by
  rcases manifestAcceptOwn_cases cx signed a.store with ⟨e, he⟩ | ⟨root, body, m, hroot, ha, hnew, hrun⟩
  · simp only [step, he]
    exact h
  obtain rfl := Option.some.inj ((rootPublic_of_holdsRoot h.root).symm.trans hroot)
  simp only [step, hrun]
  set s' := markAll body.revokedCredentialHashes { a.store with manifest := m } with hs'
  have hident : s'.identity = a.store.identity := by rw [hs', markAll_eq]
  have hman : s'.manifest = m := by rw [hs', markAll_eq]
  have hrows : ∀ r ∈ a.store.identityDevices, ∃ r' ∈ s'.identityDevices, r'.deviceId = r.deviceId ∧
      r'.credentialHash = r.credentialHash ∧ (r.revoked = true → r'.revoked = true) := by
    intro r hr
    obtain ⟨r', hr', hid', hh', hf'⟩ :=
      markAll_keeps body.revokedCredentialHashes (s := { a.store with manifest := m }) hr
    exact ⟨r', hr', hid', hh', fun hf => hf' (Or.inl hf)⟩
  obtain ⟨hseq, hgrow⟩ := ht.2 _ body _ hroot ha
  -- the newest list after: the old one, or one that drops nothing of it
  have hafter : ∀ old, newestBody cx a.store = some old → ∃ b, newestBody cx s' = some b ∧
      (∀ x ∈ old.revokedCredentialHashes, x ∈ b.revokedCredentialHashes) ∧
      ((∀ x ∈ old.activeCredentialHashes, x ∈ b.activeCredentialHashes ∨ x ∈ b.revokedCredentialHashes) ∧
        (∀ x ∈ b.activeCredentialHashes, x ∉ b.revokedCredentialHashes) ∨ b = old) := by
    intro old hold
    by_cases hn : (manifestState a.store).map (·.sequence) ≠ some body.manifestSequence
    · rw [if_pos hn] at hnew
      obtain ⟨hR, hA, hdisj⟩ := hgrow old hold hn
      refine ⟨body, newestBody_insert h.root ht.1 hseq ?_ (Identity.acceptManifest_ok ha).1 hnew hman hident,
        hR, Or.inl ⟨hA, hdisj⟩⟩
      intro k hk
      have hle := (Identity.acceptManifest_ok ha).2.2 k hk
      rw [hk] at hn
      have hne : k.sequence ≠ body.manifestSequence := fun he => hn (by simp [he])
      exact UInt64.lt_of_le_of_ne hle hne
    · rw [if_neg hn] at hnew
      exact ⟨old, by rw [newestBody_congr (hman.trans hnew) hident]; exact hold, fun x hx => hx, Or.inr rfl⟩
  refine ⟨by unfold HoldsRoot; rw [hident]; exact h.root, ?_, ?_, ?_, ?_⟩
  · intro e he
    obtain ⟨r, hr, hid⟩ := h.known e he
    obtain ⟨r', hr', hid', -⟩ := hrows r hr
    exact ⟨r', hr', hid'.trans hid⟩
  · intro e he
    obtain ⟨old, hold, hst⟩ := h.standing e he
    obtain ⟨b, hb, hR, ⟨hA, hdisj⟩ | rfl⟩ := hafter old hold
    · refine ⟨b, hb, ?_⟩
      rcases hst with ⟨hr, -⟩ | ⟨hac, -, r, hr, hid, hh⟩
      · exact Or.inl ⟨hR _ hr, fun hin => hdisj _ hin (hR _ hr)⟩
      · by_cases hx : e.2 ∈ b.revokedCredentialHashes
        · exact Or.inl ⟨hx, fun hin => hdisj _ hin hx⟩
        · obtain ⟨r', hr', hid', hh', -⟩ := hrows r hr
          exact Or.inr ⟨(hA _ hac).resolve_right hx, hx, r', hr', hid'.trans hid, hh'.trans hh⟩
    · exact ⟨b, hb, Standing.mark _ hst⟩
  · intro d hd
    obtain ⟨r, hr, hid, hf⟩ := h.flagged d hd
    obtain ⟨r', hr', hid', -, hf'⟩ := hrows r hr
    exact ⟨r', hr', hid'.trans hid, hf' hf⟩
  · intro e he hrev b' hb'
    obtain ⟨old, hold, -⟩ := h.standing e he
    obtain ⟨b, hb, hR, -⟩ := hafter old hold
    obtain rfl := Option.some.inj (hb.symm.trans hb')
    exact hR _ (h.gone e he hrev old hold)

end inv

/-- In every run whose steps are tracked: once the revocation of a device has
returned, the newest manifest lists no credential ever issued for it as active,
and all of them as revoked. -/
theorem revoked_device_has_no_active_credential (hcx : cx.Lawful) (seed : Bytes) (s : Store)
    (hs : HoldsRoot cx seed s) (ops : List Op) (hm : Trace.Meets (step cx) (Tracked cx) ⟨s, [], []⟩ ops) :
    ∀ e ∈ (Trace.run (step cx) ⟨s, [], []⟩ ops).issued, e.1 ∈ (Trace.run (step cx) ⟨s, [], []⟩ ops).revoked →
      ∃ body, newestBody cx (Trace.run (step cx) ⟨s, [], []⟩ ops).store = some body ∧
        e.2 ∉ body.activeCredentialHashes ∧ e.2 ∈ body.revokedCredentialHashes := by
  have hinv : Inv cx seed (Trace.run (step cx) ⟨s, [], []⟩ ops) := by
    refine Trace.invariant (I := Inv cx seed) ?_ hm ⟨hs, ?_, ?_, ?_, ?_⟩
    · intro a op ht h
      cases op with
      | deviceNew keys secret now => exact inv_deviceNew hcx h ht
      | deviceAuthorize device now => exact inv_deviceAuthorize hcx h ht
      | deviceRevoke device => exact inv_deviceRevoke hcx h ht
      | manifestAcceptOwn signed => exact inv_manifestAcceptOwn h ht
    all_goals simp
  intro e he hrev
  obtain ⟨body, hb, hst⟩ := hinv.standing e he
  have hr := hinv.gone e he hrev body hb
  refine ⟨body, hb, ?_, hr⟩
  rcases hst with ⟨-, hna⟩ | ⟨-, hnr, -⟩
  · exact hna
  · exact absurd hr hnr

def demoStart : Store := (identityNew Demo.crypto [9] .empty).2

def demoPhone : DevicePublicKeys := ⟨[2], [20], [21], [22]⟩

/-- A computer, a phone that is authorized at the given times, its revocation. -/
def demoRun (times : List UInt64) : List Op :=
  .deviceNew ⟨[1], [10], [11], [12], [13], [14]⟩ [15] 1000 ::
    (times.map (.deviceAuthorize demoPhone ·) ++ [Op.deviceRevoke [2]])

theorem phone_linked_once :
    (Trace.run (step Demo.crypto) ⟨demoStart, [], []⟩ (demoRun [1000])).revoked = [[2]] ∧
    ∀ e ∈ (Trace.run (step Demo.crypto) ⟨demoStart, [], []⟩ (demoRun [1000])).issued,
      e.1 ∈ (Trace.run (step Demo.crypto) ⟨demoStart, [], []⟩ (demoRun [1000])).revoked →
      ∃ body, newestBody Demo.crypto (Trace.run (step Demo.crypto) ⟨demoStart, [], []⟩ (demoRun [1000])).store =
        some body ∧ e.2 ∉ body.activeCredentialHashes ∧ e.2 ∈ body.revokedCredentialHashes := by
  have hrun : Trace.Meets (step Demo.crypto) (Tracked Demo.crypto) ⟨demoStart, [], []⟩ (demoRun [1000]) ∧
      HoldsRoot Demo.crypto [9] demoStart ∧ (Trace.run (step Demo.crypto) ⟨demoStart, [], []⟩ (demoRun [1000])).revoked = [[2]] := by
    show (Tracked Demo.crypto _ _ ∧ Tracked Demo.crypto _ _ ∧ Tracked Demo.crypto _ _ ∧ True) ∧ _
    unfold Tracked HoldsRoot
    decide +kernel
  obtain ⟨hm, hroot, hrevoked⟩ := hrun
  exact ⟨hrevoked, revoked_device_has_no_active_credential Demo.crypto Demo.crypto_lawful [9] demoStart hroot (demoRun [1000]) hm⟩

/-- The link is retried a second later: the revocation returns, and the first
credential stays active. -/
theorem phone_linked_twice :
    ¬ ∀ e ∈ (Trace.run (step Demo.crypto) ⟨demoStart, [], []⟩ (demoRun [1000, 1001])).issued,
      e.1 ∈ (Trace.run (step Demo.crypto) ⟨demoStart, [], []⟩ (demoRun [1000, 1001])).revoked →
      ∃ body, newestBody Demo.crypto (Trace.run (step Demo.crypto) ⟨demoStart, [], []⟩ (demoRun [1000, 1001])).store =
        some body ∧ e.2 ∉ body.activeCredentialHashes ∧ e.2 ∈ body.revokedCredentialHashes := by
  intro h
  have hbad : ∃ e ∈ (Trace.run (step Demo.crypto) ⟨demoStart, [], []⟩ (demoRun [1000, 1001])).issued,
      e.1 ∈ (Trace.run (step Demo.crypto) ⟨demoStart, [], []⟩ (demoRun [1000, 1001])).revoked ∧
      ∀ body ∈ newestBody Demo.crypto (Trace.run (step Demo.crypto) ⟨demoStart, [], []⟩ (demoRun [1000, 1001])).store,
        e.2 ∈ body.activeCredentialHashes := by decide +kernel
  obtain ⟨e, he, hr, hactive⟩ := hbad
  obtain ⟨body, hb, hna, -⟩ := h e he hr
  exact hna (hactive body hb)

end Arveil.Devices

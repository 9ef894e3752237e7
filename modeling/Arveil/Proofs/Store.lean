import Arveil.Spec.Store
import Arveil.Proofs.Identity

/-! What each operation of the client layer does to the tables, one equation or
one case distinction for each. Every later proof about the profile goes through
these and unfolds no operation again. -/

namespace Arveil

/-- The columns of a peer that no operation ever rewrites. -/
def PeerRow.origin (r : PeerRow) : Bytes × Bytes × Bytes × Bytes × Bytes :=
  (r.groupId, r.deviceId, r.peerIdentity, r.credentialHash, r.rootPublic)

namespace Client

variable (cx : Crypto)

@[simp] theorem liftIdentity_ok {α : Type} (a : α) (s : Store) :
    liftIdentity (.ok a) s = (.ok a, s) := rfl

@[simp] theorem liftIdentity_error {α : Type} (e : IdentityError) (s : Store) :
    (liftIdentity (.error e) : Client α) s = (.error (.identity e), s) := rfl

def markAll (hashes : List Bytes) (s : Store) : Store := hashes.foldl (fun s h => markRevoked h s) s

theorem peersMarkRevoked_run (hashes : List Bytes) (s : Store) :
    ∃ n, peersMarkRevoked hashes s = (.ok n, markAll hashes s) := by
  induction hashes generalizing s with
  | nil => exact ⟨0, rfl⟩
  | cons h hs ih =>
    obtain ⟨m, hm⟩ := ih (markRevoked h s)
    unfold peersMarkRevoked
    simp only [Prog.bind_run, Prog.read_run, Prog.modify_run, hm, Prog.pure_run]
    exact ⟨_, rfl⟩

theorem markAll_eq (hashes : List Bytes) (s : Store) :
    markAll hashes s =
      { s with peers := (markAll hashes s).peers, identityDevices := (markAll hashes s).identityDevices } := by
  induction hashes generalizing s with
  | nil => rfl
  | cons h hs ih => exact ih (markRevoked h s)

theorem markAll_peers (hashes : List Bytes) (s : Store) :
    (markAll hashes s).peers.rows =
      s.peers.rows.map fun p => if p.credentialHash ∈ hashes then { p with revoked := true } else p := by
  induction hashes generalizing s with
  | nil => simp [markAll]
  | cons h hs ih =>
    show (markAll hs (markRevoked h s)).peers.rows = _
    rw [ih]
    simp only [markRevoked, Table.update, List.map_map]
    apply List.map_congr_left
    rintro ⟨g, d, i, c, r, m, w, k, rev⟩ _
    by_cases hc : c = h <;> by_cases hm : c ∈ hs <;> cases rev <;> simp_all

theorem markAll_identityDevices (hashes : List Bytes) (s : Store) :
    (markAll hashes s).identityDevices.rows =
      s.identityDevices.rows.map fun d => if d.credentialHash ∈ hashes then { d with revoked := true } else d := by
  induction hashes generalizing s with
  | nil => simp [markAll]
  | cons h hs ih =>
    show (markAll hs (markRevoked h s)).identityDevices.rows = _
    rw [ih]
    simp only [markRevoked, Table.update, List.map_map]
    apply List.map_congr_left
    rintro ⟨d, c, rev⟩ _
    by_cases hc : c = h <;> by_cases hm : c ∈ hs <;> simp_all

theorem mem_markAll_peers {hashes : List Bytes} {s : Store} {p' : PeerRow} :
    p' ∈ (markAll hashes s).peers ↔
      ∃ p ∈ s.peers, (if p.credentialHash ∈ hashes then { p with revoked := true } else p) = p' := by
  rw [Table.mem_def, markAll_peers]
  simp [Table.mem_def]

theorem mem_markAll_identityDevices {hashes : List Bytes} {s : Store} {d' : OwnDevice} :
    d' ∈ (markAll hashes s).identityDevices ↔
      ∃ d ∈ s.identityDevices, (if d.credentialHash ∈ hashes then { d with revoked := true } else d) = d' := by
  rw [Table.mem_def, markAll_identityDevices]
  simp [Table.mem_def]

theorem sqlInsert_run {ρ κ : Type} {key : ρ → κ} [DecidableEq κ] (what : String) (table : Store → Table key)
    (put : Store → Table key → Store) (row : ρ) (s : Store) :
    sqlInsert what table put row s =
      match (table s).insert row with
      | some t => (.ok (), put s t)
      | none => (.error (.constraint what), s) := by
  unfold sqlInsert Prog.tryModify
  simp only
  cases (table s).insert row <;> rfl

theorem insertInto_run {ρ κ : Type} {key : ρ → κ} [DecidableEq κ] (what : String) (table : Store → Table key)
    (put : Store → Table key → Store) (row : ρ) (s : Store) :
    insertInto what table put row s =
      match (table s).insert row with
      | some t => (.ok (), put s t)
      | none => (.error (.sqlite (.constraint what)), s) := by
  unfold insertInto Prog.mapError
  rw [sqlInsert_run]
  cases (table s).insert row <;> rfl

theorem insertManifest_run (row : ManifestRow) (s : Store) :
    insertManifest row s =
      match s.manifest.insert row with
      | some t => (.ok (), { s with manifest := t })
      | none => (.error (.sqlite (.constraint "manifest.identity_id, manifest.sequence")), s) := by
  unfold insertManifest
  rw [insertInto_run]
  cases s.manifest.insert row <;> rfl

theorem newestRow_mem {rows : List ManifestRow} {r : ManifestRow} (h : newestRow rows = some r) : r ∈ rows := by
  induction rows with
  | nil => cases h
  | cons a rows ih =>
    unfold newestRow at h
    cases hn : newestRow rows with
    | none =>
      simp only [hn, Option.some.injEq] at h
      exact h ▸ List.mem_cons_self
    | some b =>
      simp only [hn] at h
      split at h
      · exact List.mem_cons_of_mem a (ih (hn.trans h))
      · exact Option.some.inj h ▸ List.mem_cons_self

theorem toInt64_lt {a b : UInt64} (ha : a.toNat < 2 ^ 63) (hb : b.toNat < 2 ^ 63) :
    a.toInt64 < b.toInt64 ↔ a < b := by
  have h (x : UInt64) (hx : x.toNat < 2 ^ 63) : x.toInt64.toInt = x.toNat := by
    show x.toBitVec.toInt = _
    rw [BitVec.toInt_eq_toNat_of_lt (by simpa using by omega)]
    rfl
  rw [Int64.lt_iff_toInt_lt, UInt64.lt_iff_toNat_lt, h a ha, h b hb]
  omega

theorem newestRow_eq_none {rows : List ManifestRow} : newestRow rows = none ↔ rows = [] := by
  cases rows with
  | nil => simp [newestRow]
  | cons r rows =>
    simp only [newestRow]
    cases newestRow rows with
    | none => simp
    | some b => simp only; split <;> simp

theorem newestRow_max {rows : List ManifestRow} {b : ManifestRow} (h : newestRow rows = some b) :
    ∀ r ∈ rows, r.sequence ≤ b.sequence := by
  induction rows generalizing b with
  | nil => simp
  | cons a rows ih =>
    simp only [newestRow] at h
    cases hn : newestRow rows with
    | none =>
      simp only [hn, Option.some.injEq] at h
      simp [newestRow_eq_none.1 hn, h]
    | some c =>
      simp only [hn] at h
      rw [List.forall_mem_cons]
      split at h
      next hlt =>
        obtain rfl := Option.some.inj h
        exact ⟨Int64.le_of_lt hlt, ih hn⟩
      next hlt =>
        obtain rfl := Option.some.inj h
        exact ⟨Int64.le_refl _, fun r hr => Int64.le_trans (ih hn r hr) (Int64.not_lt.1 hlt)⟩

theorem newestRow_append (rows : List ManifestRow) (r : ManifestRow) :
    newestRow (rows ++ [r]) =
      match newestRow rows with
      | none => some r
      | some b => if b.sequence < r.sequence then some r else some b := by
  induction rows with
  | nil => rfl
  | cons a rows ih =>
    simp only [List.cons_append, newestRow, ih]
    cases newestRow rows with
    | none => simp only
    | some b =>
      simp only
      by_cases h1 : b.sequence < r.sequence <;> by_cases h2 : a.sequence < b.sequence <;>
        by_cases h3 : a.sequence < r.sequence <;> simp [h1, h2, h3]
      all_goals
        simp only [Int64.lt_iff_toInt_lt] at h1 h2 h3
        omega

/-- What `latestManifestBody` returns where it returns. -/
def newestBody (s : Store) : Option DeviceManifest :=
  (newestRow s.manifest.rows).bind fun r =>
    (rootPublic s).bind fun root => (Identity.verifyManifest cx r.signed root).toOption

theorem latestManifestBody_run (s : Store) :
    latestManifestBody cx s =
      match newestRow s.manifest.rows, rootPublic s with
      | none, _ => (.ok none, s)
      | some _, none => (.error .noIdentity, s)
      | some r, some root =>
          match Identity.verifyManifest cx r.signed root with
          | .error e => (.error (.identity e), s)
          | .ok body => (.ok (some body), s) := by
  unfold latestManifestBody latestManifest
  simp only [Prog.bind_run, Prog.read_run]
  cases newestRow s.manifest.rows with
  | none => rfl
  | some r =>
    simp only [Option.map_some, Prog.bind_run, Prog.read_run]
    cases rootPublic s with
    | none => rfl
    | some root =>
      simp only [Prog.ofOption_some, Identity.acceptManifest]
      cases Identity.verifyManifest cx r.signed root <;> rfl

theorem latestManifestBody_ok {s s' : Store} {b : Option DeviceManifest}
    (h : latestManifestBody cx s = (.ok b, s')) : s' = s ∧ newestBody cx s = b := by
  rw [latestManifestBody_run] at h
  unfold newestBody
  cases hn : newestRow s.manifest.rows with
  | none => simp_all
  | some r =>
    cases hr : rootPublic s with
    | none => simp [hn, hr] at h
    | some root =>
      simp only [hn, hr, Option.bind_some] at h ⊢
      cases hv : Identity.verifyManifest cx r.signed root with
      | error e => simp [hv] at h
      | ok body => simp_all [Except.toOption]

theorem latestManifestBody_error {s s' : Store} {e : ClientError}
    (h : latestManifestBody cx s = (.error e, s')) : s' = s := by
  rw [latestManifestBody_run] at h
  cases hn : newestRow s.manifest.rows with
  | none => simp [hn] at h
  | some r =>
    cases hr : rootPublic s with
    | none => simp_all
    | some root =>
      simp only [hn, hr] at h
      cases hv : Identity.verifyManifest cx r.signed root <;> simp_all

theorem manifestAcceptOwn_cases (signed : Bytes) (s : Store) :
    (∃ e, manifestAcceptOwn cx signed s = (.error e, s)) ∨
    ∃ root body m, rootPublic s = some root ∧
      Identity.acceptManifest cx signed root (manifestState s) =
        .ok (body, ⟨body.manifestSequence, Identity.manifestHash cx signed⟩) ∧
      (if (manifestState s).map (·.sequence) ≠ some body.manifestSequence then
        s.manifest.insert ⟨body.identityId, body.manifestSequence.toInt64, signed, Identity.manifestHash cx signed⟩
          = some m
      else m = s.manifest) ∧
      manifestAcceptOwn cx signed s =
        (.ok (body, decide ((manifestState s).map (·.sequence) ≠ some body.manifestSequence)),
          markAll body.revokedCredentialHashes { s with manifest := m }) := by
  unfold manifestAcceptOwn
  simp only [Prog.bind_run, Prog.read_run]
  cases hr : rootPublic s with
  | none => exact Or.inl ⟨_, rfl⟩
  | some root =>
    simp only [Prog.ofOption_some]
    cases ha : Identity.acceptManifest cx signed root (manifestState s) with
    | error e => exact Or.inl ⟨_, rfl⟩
    | ok p =>
      obtain ⟨body, state⟩ := p
      obtain rfl := (Identity.acceptManifest_ok ha).2.1
      simp only [liftIdentity_ok, Prog.when]
      by_cases hnew : (manifestState s).map (·.sequence) ≠ some body.manifestSequence
      · rw [if_pos hnew, insertManifest_run]
        cases hi : s.manifest.insert
            ⟨body.identityId, body.manifestSequence.toInt64, signed, Identity.manifestHash cx signed⟩ with
        | none => exact Or.inl ⟨_, rfl⟩
        | some m =>
          obtain ⟨n, hn⟩ := peersMarkRevoked_run body.revokedCredentialHashes { s with manifest := m }
          refine Or.inr ⟨root, body, m, rfl, ha, by rw [if_pos hnew]; exact hi, ?_⟩
          simp only [hn, Prog.pure_run]
      · rw [if_neg hnew]
        obtain ⟨n, hn⟩ := peersMarkRevoked_run body.revokedCredentialHashes s
        refine Or.inr ⟨root, body, s.manifest, rfl, ha, by rw [if_neg hnew], ?_⟩
        simp only [Prog.pure_run, hn]

/-- The table of peer manifests after a new one was accepted. -/
def recordedPeerManifest (identity signed : Bytes) (body : DeviceManifest) (s : Store) : Store :=
  savePeerManifest ⟨identity, body.manifestSequence.toInt64, Identity.manifestHash cx signed,
    some (cx.encodeHashes body.activeCredentialHashes)⟩ s

def announcedChange (identity : Bytes) (body : DeviceManifest) (s : Store) : DeviceChange :=
  if (peerManifestState s identity).map (·.sequence) ≠ some body.manifestSequence then
    (((s.peerManifests.get? identity).bind (·.active)).bind fun b => (cx.decodeHashes b).toOption).elim ⟨0, 0⟩
      (deviceChange body.activeCredentialHashes)
  else ⟨0, 0⟩

theorem peerManifestAccept_cases (identity signed : Bytes) (s : Store) :
    (∃ e, peerManifestAccept cx identity signed s = (.error e, s)) ∨
    ∃ root body, (peerRoot s identity).bind (Identity.verifyingKey cx) = some root ∧
      Identity.acceptManifest cx signed root (peerManifestState s identity) =
        .ok (body, ⟨body.manifestSequence, Identity.manifestHash cx signed⟩) ∧
      peerManifestAccept cx identity signed s =
        (.ok (body, decide ((peerManifestState s identity).map (·.sequence) ≠ some body.manifestSequence),
            announcedChange cx identity body s),
          markAll body.revokedCredentialHashes
            (if (peerManifestState s identity).map (·.sequence) ≠ some body.manifestSequence then
              recordedPeerManifest cx identity signed body s else s)) := by
  unfold peerManifestAccept
  simp only [Prog.bind_run, Prog.read_run]
  cases hr : peerRoot s identity with
  | none => exact Or.inl ⟨_, rfl⟩
  | some rootBytes =>
    simp only [Prog.ofOption_some, Option.bind_some]
    cases hk : Identity.verifyingKey cx rootBytes with
    | none => exact Or.inl ⟨_, rfl⟩
    | some root =>
      simp only [Prog.ofOption_some]
      cases ha : Identity.acceptManifest cx signed root (peerManifestState s identity) with
      | error e => exact Or.inl ⟨_, rfl⟩
      | ok p =>
        obtain ⟨body, state⟩ := p
        obtain rfl := (Identity.acceptManifest_ok ha).2.1
        refine Or.inr ⟨root, body, rfl, ha, ?_⟩
        simp only [liftIdentity_ok, Prog.when]
        by_cases hnew : (peerManifestState s identity).map (·.sequence) ≠ some body.manifestSequence
        · obtain ⟨n, hn⟩ := peersMarkRevoked_run body.revokedCredentialHashes
            (recordedPeerManifest cx identity signed body s)
          simp only [recordedPeerManifest] at hn ⊢
          simp only [if_pos hnew, Prog.modify_run, hn, Prog.pure_run, announcedChange]
        · obtain ⟨n, hn⟩ := peersMarkRevoked_run body.revokedCredentialHashes s
          simp only [if_neg hnew, Prog.pure_run, hn, announcedChange]

/-- The credential `device_authorize` and `device_new` sign for a device. -/
def issuedCredential (seed : Bytes) (device : DevicePublicKeys) (now : UInt64) : Bytes :=
  Identity.issueCredential cx seed device (validityAt now) allUses

/-- Authorizing fails and changes nothing, or appends the device's credential to
the newest active list and overwrites the device's own row. -/
theorem deviceAuthorize_cases (device : DevicePublicKeys) (now : UInt64) (s : Store) :
    (∃ e, deviceAuthorize cx device now s = (.error e, s)) ∨
    ∃ seed mbody m, Client.root s = some seed ∧
      (∀ d ∈ s.identityDevices, d.deviceId = device.deviceId → d.revoked = false) ∧
      let hash := Identity.credentialHash cx (issuedCredential cx seed device now)
      let manifest := Identity.issueManifest cx seed (manifestState s)
        ((newestBody cx s).elim [] (·.activeCredentialHashes) ++ [hash])
        ((newestBody cx s).elim [] (·.revokedCredentialHashes))
      Identity.acceptManifest cx manifest (cx.publicKey seed) (manifestState s) =
        .ok (mbody, ⟨mbody.manifestSequence, Identity.manifestHash cx manifest⟩) ∧
      s.manifest.insert ⟨mbody.identityId, mbody.manifestSequence.toInt64, manifest,
        Identity.manifestHash cx manifest⟩ = some m ∧
      deviceAuthorize cx device now s =
        (.ok (issuedCredential cx seed device now, manifest),
          { s with manifest := m, identityDevices := s.identityDevices.replace ⟨device.deviceId, hash, false⟩ }) := by
  unfold deviceAuthorize
  simp only [Prog.bind_run, Prog.read_run]
  cases hseed : Client.root s with
  | none => exact Or.inl ⟨_, rfl⟩
  | some seed =>
  by_cases hrev : ((ownDevices s).any fun d => decide (d.deviceId = device.deviceId) && d.revoked) = true
  · simp only [Prog.ofOption_some, hrev]
    exact Or.inl ⟨_, rfl⟩
  simp only [Prog.ofOption_some, if_neg hrev, Prog.bind_run, Prog.read_run]
  rcases hb : latestManifestBody cx s with ⟨r, s₁⟩
  cases r with
  | error e =>
    obtain rfl := latestManifestBody_error cx hb
    exact Or.inl ⟨e, rfl⟩
  | ok b =>
  obtain ⟨rfl, rfl⟩ := latestManifestBody_ok cx hb
  simp only
  rcases ha : Identity.acceptManifest cx (Identity.issueManifest cx seed (manifestState s₁)
      ((newestBody cx s₁).elim [] (·.activeCredentialHashes) ++
        [Identity.credentialHash cx (issuedCredential cx seed device now)])
      ((newestBody cx s₁).elim [] (·.revokedCredentialHashes))) (cx.publicKey seed) (manifestState s₁) with e | p
  · refine Or.inl ⟨.identity e, ?_⟩
    unfold issuedCredential at ha
    simp only [ha, liftIdentity_error]
  · obtain ⟨mbody, state⟩ := p
    obtain rfl := (Identity.acceptManifest_ok ha).2.1
    unfold issuedCredential at ha
    simp only [ha, liftIdentity_ok, Prog.unitOfWork, Prog.bind_run, insertManifest_run]
    rcases hi : s₁.manifest.insert ⟨mbody.identityId, mbody.manifestSequence.toInt64, _, _⟩ with _ | m
    · exact Or.inl ⟨_, rfl⟩
    · refine Or.inr ⟨seed, mbody, m, rfl, ?_, ha, hi, rfl⟩
      intro d hd hdid
      by_contra hr
      exact hrev (List.any_eq_true.2 ⟨d, hd, by simp [hdid, hr]⟩)

/-- Making this device fails and changes nothing, or leaves its credential alone
active and everything the chain listed before revoked. -/
theorem deviceNew_cases (keys : DeviceKeys) (secret : Bytes) (now : UInt64) (s : Store) :
    (∃ e, deviceNew cx keys secret now s = (.error e, s)) ∨
    ∃ seed mbody devices m own, Client.root s = some seed ∧
      let credential := issuedCredential cx seed keys.public now
      let hash := Identity.credentialHash cx credential
      let manifest := Identity.issueManifest cx seed (manifestState s) [hash]
        ((newestBody cx s).elim [] fun b => b.activeCredentialHashes ++ b.revokedCredentialHashes)
      Identity.acceptManifest cx manifest (cx.publicKey seed) (manifestState s) =
        .ok (mbody, ⟨mbody.manifestSequence, Identity.manifestHash cx manifest⟩) ∧
      s.manifest.insert ⟨mbody.identityId, mbody.manifestSequence.toInt64, manifest,
        Identity.manifestHash cx manifest⟩ = some m ∧
      s.identityDevices.insert ⟨keys.deviceId, hash, false⟩ = some own ∧
      deviceNew cx keys secret now s =
        (.ok (⟨keys, secret, credential, hash⟩, manifest),
          { s with device := devices, manifest := m, identityDevices := own }) := by
  unfold deviceNew
  simp only [Prog.unitOfWork, deviceNewInUnit, Prog.bind_run, Prog.read_run]
  cases hseed : Client.root s with
  | none => exact Or.inl ⟨_, rfl⟩
  | some seed =>
  simp only [Prog.ofOption_some]
  rcases hb : latestManifestBody cx s with ⟨r, s₁⟩
  cases r with
  | error e =>
    obtain rfl := latestManifestBody_error cx hb
    exact Or.inl ⟨e, rfl⟩
  | ok b =>
  obtain ⟨rfl, rfl⟩ := latestManifestBody_ok cx hb
  simp only
  rcases ha : Identity.acceptManifest cx (Identity.issueManifest cx seed (manifestState s₁)
      [Identity.credentialHash cx (issuedCredential cx seed keys.public now)]
      ((newestBody cx s₁).elim [] fun b => b.activeCredentialHashes ++ b.revokedCredentialHashes))
      (cx.publicKey seed) (manifestState s₁) with e | p
  · refine Or.inl ⟨.identity e, ?_⟩
    unfold issuedCredential at ha
    simp only [ha, liftIdentity_error]
  · obtain ⟨mbody, state⟩ := p
    obtain rfl := (Identity.acceptManifest_ok ha).2.1
    unfold issuedCredential at ha
    simp only [ha, liftIdentity_ok, insertInto_run, insertManifest_run]
    rcases s₁.device.insert ⟨keys, secret, _, _⟩ with _ | devices
    · exact Or.inl ⟨_, rfl⟩
    simp only
    rcases hi : s₁.manifest.insert ⟨mbody.identityId, mbody.manifestSequence.toInt64, _, _⟩ with _ | m
    · exact Or.inl ⟨_, rfl⟩
    simp only
    rcases ho : s₁.identityDevices.insert ⟨keys.deviceId, _, false⟩ with _ | own
    · exact Or.inl ⟨_, rfl⟩
    · exact Or.inr ⟨seed, mbody, devices, m, own, rfl, ha, hi, ho, rfl⟩

def revocationMarker (hash : Bytes) : Bytes := utf8 "revocation:" ++ hash

theorem revocationStart_eq (device marker : Bytes) (s : Store) :
    revocationStart device marker s =
      { s with deviceRevocations := (revocationStart device marker s).deviceRevocations } := by
  unfold revocationStart
  split <;> rfl

/-- A revocation that succeeds found the device and the newest manifest. Either
that manifest already revokes it, or the next one does. -/
theorem deviceRevoke_ok {device : Bytes} {s s' : Store} {r : Bytes × Bytes}
    (h : deviceRevoke cx device s = (.ok r, s')) :
    ∃ seed root d row body, Client.root s = some seed ∧ rootPublic s = some root ∧ d ∈ s.identityDevices ∧
      d.deviceId = device ∧ newestRow s.manifest.rows = some row ∧
      Identity.verifyManifest cx row.signed root = .ok body ∧
      ((d.credentialHash ∈ body.revokedCredentialHashes ∧
          s' = revocationStart device (revocationMarker d.credentialHash) (markAll [d.credentialHash] s)) ∨
        (d.credentialHash ∉ body.revokedCredentialHashes ∧ ∃ mbody m,
          let manifest := Identity.issueManifest cx seed (manifestState s)
            (body.activeCredentialHashes.filter (· ≠ d.credentialHash))
            (body.revokedCredentialHashes ++ [d.credentialHash])
          Identity.acceptManifest cx manifest (cx.publicKey seed) (manifestState s) =
            .ok (mbody, ⟨mbody.manifestSequence, Identity.manifestHash cx manifest⟩) ∧
          s.manifest.insert ⟨mbody.identityId, mbody.manifestSequence.toInt64, manifest,
            Identity.manifestHash cx manifest⟩ = some m ∧
          s' = revocationStart device (revocationMarker d.credentialHash)
            (markAll [d.credentialHash] { s with manifest := m }))) := by
  unfold deviceRevoke at h
  rw [Prog.unitOfWork_eq_ok] at h
  unfold deviceRevokeInUnit at h
  simp only [Prog.bind_run, Prog.read_run] at h
  cases hseed : Client.root s with
  | none => simp [hseed] at h
  | some seed =>
  cases hme : Client.device s with
  | none => simp [hseed, hme] at h
  | some me =>
  simp only [hseed, hme, Prog.ofOption_some] at h
  split at h
  · simp at h
  simp only [Prog.bind_run, Prog.read_run, ownDevices] at h
  cases hd : s.identityDevices.rows.find? fun d => d.deviceId = device with
  | none => simp [hd] at h
  | some d =>
  have hdm : d ∈ s.identityDevices := List.mem_of_find?_eq_some hd
  have hdid : d.deviceId = device := by simpa using List.find?_some hd
  simp only [hd, Prog.ofOption_some, latestManifestBody_run] at h
  cases hrow : newestRow s.manifest.rows with
  | none => simp [hrow] at h
  | some row =>
  cases hroot : rootPublic s with
  | none => simp [hrow, hroot] at h
  | some root =>
  cases hv : Identity.verifyManifest cx row.signed root with
  | error e => simp [hrow, hroot, hv] at h
  | ok body =>
  refine ⟨seed, root, d, row, body, rfl, rfl, hdm, hdid, rfl, hv, ?_⟩
  simp only [hrow, hroot, hv, Prog.ofOption_some] at h
  split at h
  · next hin =>
    refine Or.inl ⟨hin, ?_⟩
    obtain ⟨n, hn⟩ := peersMarkRevoked_run [d.credentialHash] s
    simp only [Prog.bind_run, hn, Prog.modify_run, Prog.read_run] at h
    cases hl : latestManifest
        (revocationStart device (utf8 "revocation:" ++ d.credentialHash) (markAll [d.credentialHash] s)) with
    | none => simp [hl] at h
    | some latest =>
      simp only [hl, Prog.ofOption_some, Prog.pure_run, Prod.mk.injEq] at h
      exact h.2.symm
  · next hin =>
    refine Or.inr ⟨hin, ?_⟩
    simp only [Prog.bind_run] at h
    cases ha : Identity.acceptManifest cx
        (Identity.issueManifest cx seed (manifestState s)
          (body.activeCredentialHashes.filter (· ≠ d.credentialHash))
          (body.revokedCredentialHashes ++ [d.credentialHash])) (cx.publicKey seed) (manifestState s) with
    | error e => simp only [ha, liftIdentity_error, Prod.mk.injEq, reduceCtorEq, false_and] at h
    | ok p =>
      obtain ⟨mbody, state⟩ := p
      obtain rfl := (Identity.acceptManifest_ok ha).2.1
      refine ⟨mbody, ?_⟩
      simp only [ha, liftIdentity_ok, insertManifest_run] at h
      cases hi : s.manifest.insert ⟨mbody.identityId, mbody.manifestSequence.toInt64,
          Identity.issueManifest cx seed (manifestState s)
            (body.activeCredentialHashes.filter (· ≠ d.credentialHash))
            (body.revokedCredentialHashes ++ [d.credentialHash]),
          Identity.manifestHash cx (Identity.issueManifest cx seed (manifestState s)
            (body.activeCredentialHashes.filter (· ≠ d.credentialHash))
            (body.revokedCredentialHashes ++ [d.credentialHash]))⟩ with
      | none => simp only [hi, Prod.mk.injEq, reduceCtorEq, false_and] at h
      | some m =>
        obtain ⟨n, hn⟩ := peersMarkRevoked_run [d.credentialHash] { s with manifest := m }
        simp only [hi, hn, Prog.modify_run, Prog.pure_run, Prod.mk.injEq] at h
        exact ⟨m, ha, hi, h.2.symm⟩

theorem deviceRevoke_error {device : Bytes} {s s' : Store} {e : ClientError}
    (h : deviceRevoke cx device s = (.error e, s')) : s' = s := Prog.unitOfWork_error h

/-- Contacts that only had their roots noted: nobody new is verified or accepted. -/
def SeenOnly (t t' : Table ContactRow.identityId) : Prop :=
  ∀ c' ∈ t', (∃ c ∈ t, { c with rootPublic := c'.rootPublic } = c') ∨
    c' = ⟨c'.identityId, c'.rootPublic, none, false, none, false, none⟩

theorem SeenOnly.refl (t : Table ContactRow.identityId) : SeenOnly t t := fun c h => Or.inl ⟨c, h, rfl⟩

theorem SeenOnly.trans {t t' t'' : Table ContactRow.identityId} (h : SeenOnly t t') (h' : SeenOnly t' t'') :
    SeenOnly t t'' := by
  intro c'' hc''
  rcases h' c'' hc'' with ⟨c', hc', he'⟩ | hnew
  · rcases h c' hc' with ⟨c, hc, he⟩ | hnew
    · exact Or.inl ⟨c, hc, by rw [← he', ← he]⟩
    · exact Or.inr (by rw [← he', hnew])
  · exact Or.inr hnew

theorem contactSeen_run (identity root : Bytes) (s : Store) :
    ∃ r contacts, contactSeen identity root s = (r, { s with contacts := contacts }) ∧
      SeenOnly s.contacts contacts := by
  unfold contactSeen
  simp only [Prog.bind_run, Prog.read_run, contact]
  cases s.contacts.get? identity with
  | some c =>
    simp only
    split
    · exact ⟨_, s.contacts, rfl, SeenOnly.refl _⟩
    · split
      · exact ⟨_, s.contacts, rfl, SeenOnly.refl _⟩
      · refine ⟨_, _, rfl, ?_⟩
        intro c' hc'
        obtain ⟨c, hc, rfl⟩ := Table.mem_update.1 hc'
        refine Or.inl ⟨c, hc, ?_⟩
        split <;> rfl
  | none =>
    simp only [insertInto_run]
    cases hi : s.contacts.insert ⟨identity, root, none, false, none, false, none⟩ with
    | none => exact ⟨_, s.contacts, rfl, SeenOnly.refl _⟩
    | some t =>
      refine ⟨_, t, rfl, fun c' hc' => ?_⟩
      rcases (Table.mem_insert hi).1 hc' with h | rfl
      · exact Or.inl ⟨c', h, rfl⟩
      · exact Or.inr rfl

theorem forEach_contactSeen_run (own : Option Bytes) (ps : List Peer) (s : Store) :
    ∃ r contacts, Prog.forEach ps (fun p =>
        if !p.rootPublic.isEmpty && own ≠ some p.identity then contactSeen p.identity p.rootPublic else pure ()) s =
        (r, { s with contacts := contacts }) ∧ SeenOnly s.contacts contacts := by
  induction ps generalizing s with
  | nil => exact ⟨_, s.contacts, rfl, SeenOnly.refl _⟩
  | cons p ps ih =>
    simp only [Prog.forEach_cons, Prog.bind_run]
    by_cases hc : (!p.rootPublic.isEmpty && decide (own ≠ some p.identity)) = true
    · obtain ⟨r, ct, hrun, hseen⟩ := contactSeen_run p.identity p.rootPublic s
      rw [if_pos hc, hrun]
      cases r with
      | error e => exact ⟨_, ct, rfl, hseen⟩
      | ok u =>
        obtain ⟨r', ct', hrun', hseen'⟩ := ih { s with contacts := ct }
        exact ⟨r', ct', hrun', hseen.trans hseen'⟩
    · rw [if_neg hc]
      exact ih s

def savePeers (groupId : Bytes) (ps : List Peer) (s : Store) : Store :=
  ps.foldl (fun s p => savePeer groupId p s) s

theorem forEach_savePeer_run (groupId : Bytes) (ps : List Peer) (s : Store) :
    Prog.forEach ps (fun p => Prog.modify (savePeer groupId p)) s = (Except.ok (ε := ClientError) (),
      savePeers groupId ps s) := by
  induction ps generalizing s with
  | nil => rfl
  | cons p ps ih => exact ih (savePeer groupId p s)

/-- Saving a conversation notes the roots; if none contradicts a verified
contact, it writes the conversation's row and then its peers. -/
theorem conversationSave_cases (at_ : Int) (c : Conversation) (s : Store) :
    ∃ contacts, SeenOnly s.contacts contacts ∧
      ((∃ e, conversationSave at_ c s = (.error e, { s with contacts := contacts })) ∨
        conversationSave at_ c s =
          (.ok (), savePeers c.groupId c.peers
            (saveConversationRow at_ c.groupId c.creator { s with contacts := contacts }))) := by
  obtain ⟨r, ct, hrun, hseen⟩ := forEach_contactSeen_run (identityId s) c.peers s
  refine ⟨ct, hseen, ?_⟩
  unfold conversationSave
  simp only [Prog.bind_run, Prog.read_run, hrun]
  cases r with
  | error e => exact Or.inl ⟨e, rfl⟩
  | ok u => exact Or.inr (by simp only [Prog.modify_run, forEach_savePeer_run])

theorem savePeers_eq (groupId : Bytes) (ps : List Peer) (s : Store) :
    savePeers groupId ps s = { s with peers := (savePeers groupId ps s).peers } := by
  induction ps generalizing s with
  | nil => rfl
  | cons p ps ih => exact ih (savePeer groupId p s)

theorem mem_savePeer {groupId : Bytes} {q : Peer} {s : Store} {p' : PeerRow}
    (h : p' ∈ (savePeer groupId q s).peers) :
    (∃ p ∈ s.peers, p.groupId = groupId ∧ p.deviceId = q.deviceId ∧ p' = mergePeer p (peerRow groupId q)) ∨
      (p' ∈ s.peers ∧ (p'.groupId, p'.deviceId) ≠ (groupId, q.deviceId)) ∨
      (p' = peerRow groupId q ∧ ∀ p ∈ s.peers, (p.groupId, p.deviceId) ≠ (groupId, q.deviceId)) := by
  rcases Table.mem_upsert h with ⟨p, hp, hk, rfl⟩ | hold | hnew
  · exact Or.inl ⟨p, hp, (Prod.mk.inj hk).1, (Prod.mk.inj hk).2, rfl⟩
  · exact Or.inr (Or.inl hold)
  · exact Or.inr (Or.inr hnew)

theorem savePeer_keeps (groupId : Bytes) (q : Peer) {s : Store} {p : PeerRow} (h : p ∈ s.peers) :
    ∃ p' ∈ (savePeer groupId q s).peers, p'.origin = p.origin := by
  refine ⟨_, Table.mem_upsert_of_mem h, ?_⟩
  split <;> rfl

end Client

end Arveil

import Arveil.Proofs.Devices
import Arveil.Proofs.Enrolled
import Arveil.Spec.Approvals

/-! The manifests the profile signed, and when a grant is delivered. -/

namespace Arveil.Approvals

open Client Prog

variable {cx : Crypto} {items : CborItems} {seed : Bytes}

abbrev ownIdentity (cx : Crypto) (seed : Bytes) : Bytes := Identity.identityId cx (cx.publicKey seed)

def sequenceOf (r : Arveil.ManifestRow) : UInt64 := r.sequence.toUInt64

structure Holds (cx : Crypto) (seed : Bytes) (r : Arveil.ManifestRow) (body : DeviceManifest) : Prop where
  signed : r.signed = Identity.sign cx manifestContext (cx.encodeManifest body) seed
  version : body.version = manifestVersion
  identity : body.identityId = ownIdentity cx seed
  row : r.identityId = ownIdentity cx seed
  sequence : body.manifestSequence = sequenceOf r
  fits : body.manifestSequence.toNat < 2 ^ 63

/-- The profile holds the root, and every manifest it stored was signed by it. -/
structure Ledger (cx : Crypto) (seed : Bytes) (s : Store) : Prop where
  root : Devices.HoldsRoot cx seed s
  rows : ∀ r ∈ s.manifest, ∃ body, Holds cx seed r body

theorem holds_issued {previous : Option Identity.ManifestState} {active revoked : List Bytes} {hash : Bytes}
    (hfits : (Identity.issuedManifest cx seed previous active revoked).manifestSequence.toNat < 2 ^ 63) :
    Holds cx seed ⟨ownIdentity cx seed, (Identity.issuedManifest cx seed previous active revoked).manifestSequence.toInt64,
      Identity.issueManifest cx seed previous active revoked, hash⟩ (Identity.issuedManifest cx seed previous active revoked) :=
  ⟨rfl, rfl, rfl, rfl, by simp [sequenceOf], hfits⟩

theorem Holds.verified (hcx : cx.Lawful) {r : Arveil.ManifestRow} {body : DeviceManifest} (h : Holds cx seed r body) :
    Identity.verifyManifest cx r.signed (cx.publicKey seed) = .ok body := by
  rw [h.signed, Identity.verifyManifest, Identity.verify_sign hcx]
  simp [hcx.decode_manifest, h.version, h.identity]

theorem Holds.relay (hcx : cx.Lawful) (hitems : items.Reads cx) {r : Arveil.ManifestRow} {body : DeviceManifest}
    (h : Holds cx seed r body) : RelayIdentity.verifyManifest cx items r.signed (cx.publicKey seed) = .ok body := by
  rw [h.signed]
  exact RelayIdentity.verifyManifest_sign hcx hitems h.version h.identity

theorem Ledger.row_unique {s : Store} (h : Ledger cx seed s) {r r' : Arveil.ManifestRow} (hr : r ∈ s.manifest)
    (hr' : r' ∈ s.manifest) (hseq : sequenceOf r = sequenceOf r') : r = r' := by
  obtain ⟨body, hb⟩ := h.rows r hr
  obtain ⟨body', hb'⟩ := h.rows r' hr'
  refine Table.eq_of_key hr hr' (Prod.ext (hb.row.trans hb'.row.symm) ?_)
  have := congrArg UInt64.toInt64 hseq
  simpa [sequenceOf] using this

theorem Ledger.newest {s : Store} (h : Ledger cx seed s) {b : Arveil.ManifestRow} (hb : newestRow s.manifest.rows = some b) :
    ∀ r ∈ s.manifest, (sequenceOf r).toNat ≤ (sequenceOf b).toNat := by
  intro r hr
  obtain ⟨body, hbody⟩ := h.rows b (newestRow_mem hb)
  obtain ⟨body', hbody'⟩ := h.rows r hr
  have hle := newestRow_max hb r hr
  have hnot : ¬ (sequenceOf b).toInt64 < (sequenceOf r).toInt64 := by
    simpa [sequenceOf] using Int64.not_lt.2 hle
  rw [toInt64_lt (hbody.sequence ▸ hbody.fits) (hbody'.sequence ▸ hbody'.fits), UInt64.lt_iff_toNat_lt] at hnot
  omega

def Lists (cx : Crypto) (seed : Bytes) (r : Arveil.ManifestRow) (hash : Bytes) : Prop :=
  ∃ body, Holds cx seed r body ∧ hash ∈ body.activeCredentialHashes

/-- The profile went on: what it stored stays, and a manifest it signed meanwhile is newer
than all before it and lists every credential of `Kept` that the newest listed. -/
structure Grows (cx : Crypto) (seed : Bytes) (Kept : Bytes → Prop) (s s' : Store) : Prop where
  ledger : Ledger cx seed s'
  device : Client.device s' = Client.device s
  rows : ∀ r ∈ s.manifest, r ∈ s'.manifest
  new : ∀ r' ∈ s'.manifest, r' ∈ s.manifest ∨
    ((∀ r ∈ s.manifest, (sequenceOf r).toNat < (sequenceOf r').toNat) ∧
      ∀ b, newestRow s.manifest.rows = some b → ∀ hash, Kept hash → Lists cx seed b hash → Lists cx seed r' hash)

theorem Grows.same {Kept : Bytes → Prop} {s s' : Store} (h : Ledger cx seed s) (hm : s'.manifest = s.manifest)
    (hi : s'.identity = s.identity) (hd : s'.device = s.device) : Grows cx seed Kept s s' where
  ledger := ⟨by rw [Devices.HoldsRoot, hi]; exact h.root, by rw [hm]; exact h.rows⟩
  device := by rw [Client.device, hd, Client.device]
  rows _ hr := hm ▸ hr
  new _ hr := Or.inl (hm ▸ hr)

theorem Grows.issue {Kept : Bytes → Prop} {s s' : Store} (h : Ledger cx seed s) (hroom : Devices.Room s) {hash : Bytes}
    {active revoked : List Bytes} {t : Table fun r : Arveil.ManifestRow => (r.identityId, r.sequence)}
    (hins : s.manifest.insert ⟨ownIdentity cx seed, (Identity.issuedManifest cx seed (manifestState s) active revoked).manifestSequence.toInt64,
      Identity.issueManifest cx seed (manifestState s) active revoked, hash⟩ = some t)
    (hm : s'.manifest = t) (hi : s'.identity = s.identity) (hd : s'.device = s.device)
    (hkept : ∀ b body, newestRow s.manifest.rows = some b → Holds cx seed b body → ∀ x, Kept x → x ∈ body.activeCredentialHashes → x ∈ active) :
    Grows cx seed Kept s s' := by
  set body := Identity.issuedManifest cx seed (manifestState s) active revoked with hbody
  set row : Arveil.ManifestRow := ⟨ownIdentity cx seed, body.manifestSequence.toInt64,
    Identity.issueManifest cx seed (manifestState s) active revoked, hash⟩ with hrow
  -- one more than the newest, or the first
  have hnext : ∀ b, newestRow s.manifest.rows = some b → body.manifestSequence.toNat = (sequenceOf b).toNat + 1 := by
    intro b hb
    have hk := Devices.manifestState_some hb
    have hr := hroom _ hk
    simp only [hbody, Identity.issuedManifest, hk, Option.elim_some, UInt64.toNat_add, UInt64.reduceToNat]
    show (b.sequence.toUInt64.toNat + 1) % 2 ^ 64 = b.sequence.toUInt64.toNat + 1
    have hr : b.sequence.toUInt64.toNat + 1 < 2 ^ 63 := hr
    omega
  have hfits : body.manifestSequence.toNat < 2 ^ 63 := by
    cases hn : newestRow s.manifest.rows with
    | none => simp [hbody, Identity.issuedManifest, manifestState, hn]
    | some b =>
      rw [hnext b hn]
      exact hroom _ (Devices.manifestState_some hn)
  have hholds : Holds cx seed row body := holds_issued hfits
  refine ⟨⟨by rw [Devices.HoldsRoot, hi]; exact h.root, fun r hr => ?_⟩, by rw [Client.device, hd, Client.device],
    fun r hr => hm ▸ (Table.mem_insert hins).2 (Or.inl hr), fun r hr => ?_⟩
  · rcases (Table.mem_insert hins).1 (hm ▸ hr) with hr | rfl
    · exact h.rows r hr
    · exact ⟨body, hholds⟩
  · rcases (Table.mem_insert hins).1 (hm ▸ hr) with hr | rfl
    · exact Or.inl hr
    refine Or.inr ⟨fun r hr => ?_, fun b hb x hx hlist => ?_⟩
    · cases hn : newestRow s.manifest.rows with
      | none =>
        have hr : r ∈ s.manifest.rows := hr
        simp [newestRow_eq_none.1 hn] at hr
      | some b =>
        have hle := h.newest hn r hr
        have hseq := hnext b hn
        rw [hholds.sequence] at hseq
        omega
    · obtain ⟨body', hb', hmem⟩ := hlist
      exact ⟨body, hholds, hkept b body' hb hb' x hx hmem⟩

/-- What a link signed: the credential of its device, a manifest that is stored, and every
manifest since lists the credential. -/
structure SignedFor (cx : Crypto) (seed : Bytes) (s : Store) (r : Requested) (a : Authorization) : Prop where
  credential : a.credential = issuedCredential cx seed r.device a.signedAt
  row : ∃ row ∈ s.manifest, row.signed = a.manifest ∧ sequenceOf row = a.sequence
  listed : ∀ row ∈ s.manifest, a.sequence.toNat ≤ (sequenceOf row).toNat →
    Lists cx seed row (Identity.credentialHash cx a.credential)

theorem SignedFor.grows {Kept : Bytes → Prop} {s s' : Store} {r : Requested} {a : Authorization} (h : SignedFor cx seed s r a)
    (hl : Ledger cx seed s) (hg : Grows cx seed Kept s s') (hkept : Kept (Identity.credentialHash cx a.credential)) :
    SignedFor cx seed s' r a := by
  obtain ⟨row, hrow, hsigned, hseq⟩ := h.row
  refine ⟨h.credential, ⟨row, hg.rows row hrow, hsigned, hseq⟩, fun row' hrow' hle => ?_⟩
  rcases hg.new row' hrow' with hold | ⟨-, hlists⟩
  · exact h.listed row' hold hle
  · cases hb : newestRow s.manifest.rows with
    | none =>
      have hrow : row ∈ s.manifest.rows := hrow
      simp [newestRow_eq_none.1 hb] at hrow
    | some b =>
      have hnewest := hl.newest hb row hrow
      rw [hseq] at hnewest
      exact hlists b hb _ hkept (h.listed b (newestRow_mem hb) hnewest)

theorem rootOf_ledger {s : Store} (h : Ledger cx seed s) : Client.root s = some seed := Devices.root_of_holdsRoot h.root

theorem newestBody_ledger (hcx : cx.Lawful) {s : Store} (h : Ledger cx seed s) {b : Arveil.ManifestRow} {body : DeviceManifest}
    (hb : newestRow s.manifest.rows = some b) (hbody : Holds cx seed b body) : newestBody cx s = some body := by
  unfold newestBody
  rw [hb, Devices.rootPublic_of_holdsRoot h.root]
  simp [hbody.verified hcx, Except.toOption]

theorem Ledger.newest_insert {s s' : Store} (h : Ledger cx seed s') {row : Arveil.ManifestRow}
    (hins : s.manifest.insert row = some s'.manifest)
    (hlater : ∀ r ∈ s.manifest, (sequenceOf r).toNat < (sequenceOf row).toNat) : newestRow s'.manifest.rows = some row := by
  have hmem : row ∈ s'.manifest := (Table.mem_insert hins).2 (Or.inr rfl)
  cases hb : newestRow s'.manifest.rows with
  | none =>
    have hmem : row ∈ s'.manifest.rows := hmem
    simp [newestRow_eq_none.1 hb] at hmem
  | some b =>
    have hle := h.newest hb row hmem
    rcases (Table.mem_insert hins).1 (newestRow_mem hb) with hold | rfl
    · have := hlater b hold
      omega
    · rfl

/-- Authorizing signs a manifest that is newer than all and lists the new credential. -/
theorem deviceAuthorize_grows (hcx : cx.Lawful) {s s' : Store} (h : Ledger cx seed s) (hroom : Devices.Room s) {r : Requested}
    {now : UInt64} {credential manifest : Bytes}
    (hrun : deviceAuthorize cx r.device now s = (.ok (credential, manifest), s')) :
    Grows cx seed (fun _ => True) s s' ∧ SignedFor cx seed s' r ⟨credential, manifest, lastSequence s', now⟩ ∧
      ∀ row ∈ s.manifest, (sequenceOf row).toNat < (lastSequence s').toNat := by
  rcases deviceAuthorize_cases cx r.device now s with ⟨e, he⟩ | ⟨seed', mbody, t, hseed', -, ha, hi, hok⟩
  · rw [he] at hrun
    cases hrun
  obtain rfl := Option.some.inj ((rootOf_ledger h).symm.trans hseed')
  have hbody := (Identity.acceptManifest_ok ha).1
  rw [Identity.verifyManifest_issueManifest hcx] at hbody
  obtain rfl := Except.ok.inj hbody
  obtain ⟨hr, hs'⟩ := Prod.mk.inj (hok.symm.trans hrun)
  obtain ⟨rfl, hmanifest⟩ := Prod.mk.inj (Except.ok.inj hr)
  obtain rfl : s'.manifest = t := by rw [← hs']
  have hg : Grows cx seed (fun _ => True) s s' :=
    Grows.issue h hroom hi rfl (by rw [← hs']) (by rw [← hs']) fun b body hb hholds x _ hx => by
      rw [newestBody_ledger hcx h hb hholds]
      exact List.mem_append_left _ hx
  rw [hmanifest] at hi
  obtain ⟨row, hsigned, hins⟩ : ∃ row : Arveil.ManifestRow, row.signed = manifest ∧ s.manifest.insert row = some s'.manifest :=
    ⟨_, rfl, hi⟩
  have hmem : row ∈ s'.manifest := (Table.mem_insert hins).2 (Or.inr rfl)
  have hlater : ∀ r' ∈ s.manifest, (sequenceOf r').toNat < (sequenceOf row).toNat := by
    rcases hg.new row hmem with hold | ⟨hlt, -⟩
    · exact absurd rfl ((Table.insert_eq_some hins).2 row hold)
    · exact hlt
  have hstate : lastSequence s' = sequenceOf row := by
    rw [lastSequence, Devices.manifestState_some (hg.ledger.newest_insert hins hlater)]
    rfl
  rw [hstate]
  refine ⟨hg, ⟨rfl, ⟨row, hmem, hsigned, rfl⟩, fun row' hrow' hle => ?_⟩, hlater⟩
  rcases (Table.mem_insert hins).1 hrow' with hold | rfl
  · exact absurd hle (Nat.not_le.2 (hlater row' hold))
  · obtain ⟨body, hholds⟩ := hg.ledger.rows row' hmem
    refine ⟨body, hholds, ?_⟩
    have hv := hholds.verified hcx
    rw [hsigned, ← hmanifest, Identity.verifyManifest_issueManifest hcx] at hv
    rw [← Except.ok.inj hv]
    exact List.mem_append_right _ (List.mem_singleton.2 rfl)

theorem deviceRevoke_grows (hcx : cx.Lawful) {s s' : Store} (h : Ledger cx seed s) (hroom : Devices.Room s) {device : Bytes}
    {res : Except ClientError (Bytes × Bytes)} (hrun : deviceRevoke cx device s = (res, s')) :
    Grows cx seed (fun hash => ∀ d ∈ s.identityDevices, d.deviceId = device → d.credentialHash ≠ hash) s s' := by
  cases res with
  | error e =>
    obtain rfl := deviceRevoke_error cx hrun
    exact Grows.same h rfl rfl rfl
  | ok r =>
    obtain ⟨seed', root, d, row, body, hseed', hroot, hd, hdid, hrow, hv, hcase⟩ := deviceRevoke_ok cx hrun
    obtain rfl := Option.some.inj ((rootOf_ledger h).symm.trans hseed')
    rcases hcase with ⟨-, hs'⟩ | ⟨-, mbody, t, ha, hi, hs'⟩
    · rw [revocationStart_eq, markAll_eq] at hs'
      rw [hs']
      exact Grows.same h rfl rfl rfl
    · have hbody := (Identity.acceptManifest_ok ha).1
      rw [Identity.verifyManifest_issueManifest hcx] at hbody
      obtain rfl := Except.ok.inj hbody
      rw [revocationStart_eq, markAll_eq] at hs'
      refine Grows.issue h hroom hi (by rw [hs']) (by rw [hs']) (by rw [hs']) fun b body' hb hholds x hx hmem => ?_
      obtain rfl := Option.some.inj (hrow.symm.trans hb)
      obtain rfl := Option.some.inj ((Devices.rootPublic_of_holdsRoot h.root).symm.trans hroot)
      obtain rfl := Except.ok.inj ((hholds.verified hcx).symm.trans hv)
      refine List.mem_filter.2 ⟨hmem, ?_⟩
      simpa using fun heq => hx d hd hdid heq.symm

theorem manifestAcceptOwn_grows (hcx : cx.Lawful) {s : Store} (h : Ledger cx seed s) {signed : Bytes}
    (hstored : ∀ body, Identity.verifyManifest cx signed (cx.publicKey seed) = .ok body → ∃ r ∈ s.manifest, r.signed = signed) :
    Grows cx seed (fun _ => True) s (manifestAcceptOwn cx signed s).2 := by
  rcases manifestAcceptOwn_cases cx signed s with ⟨e, he⟩ | ⟨root, body, t, hroot, ha, ht, hrun⟩
  · rw [he]
    exact Grows.same h rfl rfl rfl
  obtain rfl := Option.some.inj ((Devices.rootPublic_of_holdsRoot h.root).symm.trans hroot)
  obtain ⟨hv, -, hle⟩ := Identity.acceptManifest_ok ha
  have hsame : t = s.manifest := by
    split at ht
    · next hnew =>
      -- it is among the stored rows, so it is no newer than the newest of them
      obtain ⟨r, hr, rfl⟩ := hstored body hv
      obtain ⟨body', hholds⟩ := h.rows r hr
      obtain rfl := Except.ok.inj (hv.symm.trans (hholds.verified hcx))
      cases hb : newestRow s.manifest.rows with
      | none =>
        have hr : r ∈ s.manifest.rows := hr
        simp [newestRow_eq_none.1 hb] at hr
      | some b =>
        have hk := Devices.manifestState_some hb
        have hmax := h.newest hb r hr
        have hmin : b.sequence.toUInt64.toNat ≤ body.manifestSequence.toNat := hle _ hk
        rw [hholds.sequence] at hmin
        refine absurd ?_ hnew
        rw [hk, hholds.sequence]
        exact congrArg some (UInt64.toNat_inj.1 (le_antisymm hmin hmax))
    · exact ht
  rw [hrun, markAll_eq, hsame]
  exact Grows.same h rfl rfl rfl

def Delivers : Rendezvous.Call → Rendezvous.Pairs → Prop
  | .pairExists id capHash now, p => Rendezvous.isOpen id capHash now p = true
  | .slotData id slot, p => p.slots.get? (id, slot) = none
  | .insertSlot row, p => (Rendezvous.addSlot row p).isSome = true
  | _, _ => True

instance (c : Rendezvous.Call) (p : Rendezvous.Pairs) : Decidable (Delivers c p) :=
  match c with
  | .pairExists id capHash now => inferInstanceAs (Decidable (Rendezvous.isOpen id capHash now p = true))
  | .slotData id slot => inferInstanceAs (Decidable (p.slots.get? (id, slot) = none))
  | .insertSlot row => inferInstanceAs (Decidable ((Rendezvous.addSlot row p).isSome = true))
  | .countOpen _ | .insertPair _ | .sweepPairs _ => .isTrue trivial

abbrev Delivered {α : Type} (Q : α → Prop) (h : Rendezvous.Handles α) (p : Rendezvous.Pairs) : Prop :=
  Handler.Sound (fun _ _ => True) (fun _ _ => True) Delivers (fun a _ => Q a) h p

theorem delivered_ask {α : Type} {Q : α → Prop} {c : Rendezvous.Call} {k : Except Rendezvous.PairError c.Result → Rendezvous.Handles α}
    {p : Rendezvous.Pairs} (h : ∀ p₁ r p₂, Delivers c p₁ → c.prog p₁ = (r, p₂) → Delivered Q (k r) p₂) :
    Delivered Q (Rendezvous.ask c >>= k) p :=
  Handler.sound_ask_bind fun p₁ _ => ⟨trivial, fun hd => h p₁ _ _ hd rfl⟩

theorem insertSlot_ok {row : Rendezvous.SlotRow} {p p' : Rendezvous.Pairs} {r : Except Rendezvous.PairError Unit}
    (hd : (Rendezvous.addSlot row p).isSome = true) (h : Rendezvous.insertInto Rendezvous.addSlot row p = (r, p')) : r = .ok () := by
  obtain ⟨p₁, hp₁⟩ := Option.isSome_iff_exists.1 hd
  have hok : Rendezvous.insertInto Rendezvous.addSlot row p = (.ok (), p₁) := by
    rw [Rendezvous.insertInto, tryModify_eq_ok, hp₁]
  exact (Prod.mk.inj (h.symm.trans hok)).1

theorem delivered_putSlot {r : Requested} {data : Bytes} (hdata : data ≠ [] ∧ data.length ≤ Rendezvous.maxPairData) (now : Int)
    (p : Rendezvous.Pairs) : Delivered (· = .ack) (putSlot cx r data now) p := by
  have hlength : data.length ≠ 0 := fun h => hdata.1 (List.length_eq_zero_iff.1 h)
  refine Handler.sound_bind (f := fun r => pure (Rendezvous.pairAnswer r)) ?_
  unfold Rendezvous.putPair
  rw [if_neg (by decide), if_neg (by rintro (h | h); exacts [hlength h, absurd hdata.2 (Nat.not_le.2 h)])]
  refine delivered_ask fun p₁ found p₂ hopen hcall => ?_
  have hread : (Rendezvous.Call.pairExists r.pairId (cx.sha256 r.capability) now).prog p₁ = (.ok true, p₁) :=
    read_eq_ok.2 ⟨hopen, rfl⟩
  obtain ⟨rfl, rfl⟩ := Prod.mk.inj (hread.symm.trans hcall)
  refine delivered_ask fun p₃ found p₄ hempty hcall => ?_
  have hempty : p₃.slots.get? (r.pairId, slotGrant) = none := hempty
  have hread : (Rendezvous.Call.slotData r.pairId slotGrant).prog p₃ = (.ok none, p₃) := by
    simp [Rendezvous.Call.prog, hempty]
  obtain ⟨rfl, rfl⟩ := Prod.mk.inj (hread.symm.trans hcall)
  refine fun p₅ _ => ⟨trivial, fun hadd => ?_⟩
  exact congrArg Rendezvous.pairAnswer (insertSlot_ok hadd rfl)

end Arveil.Approvals

import Arveil.Proofs.Notices

/-! A chain of manifests, and what each channel does with one of them: the realm's refresh for this
identity and for its peers, whatever came before. -/

namespace Arveil.Manifests

open Client Receive Prog Identity Notices

variable {pf : Platform} {s : Session} {cx : Crypto} {root : Bytes} {ms : List Bytes}

/-- Successive manifests of one identity, as its root signed them. -/
structure Chain (cx : Crypto) (root : Bytes) (ms : List Bytes) : Prop where
  genuine : ∀ i m, ms[i]? = some m → ∃ body, verifyManifest cx m root = .ok body ∧ body.manifestSequence.toNat = i + 1
  linked : ∀ i p m body, ms[i]? = some p → ms[i + 1]? = some m → verifyManifest cx m root = .ok body →
    body.previousManifestHash = manifestHash cx p
  -- as the column holds a sequence
  fits : ms.length < 2 ^ 63

def OnChain (cx : Crypto) (ms : List Bytes) (known : Option ManifestState) : Prop :=
  ∀ k, known = some k → ∃ j p, ms[j]? = some p ∧ k.sequence.toNat = j + 1 ∧ k.hash = manifestHash cx p

def NotOlder (known : Option ManifestState) (body : DeviceManifest) : Prop :=
  ∀ k, known = some k → k.sequence ≤ body.manifestSequence

theorem Chain.body (h : Chain cx root ms) {m : Bytes} (hm : m ∈ ms) :
    ∃ i body, ms[i]? = some m ∧ verifyManifest cx m root = .ok body ∧ body.manifestSequence.toNat = i + 1 := by
  obtain ⟨i, hi⟩ := List.mem_iff_getElem?.1 hm
  obtain ⟨body, hv, hseq⟩ := h.genuine i m hi
  exact ⟨i, body, hi, hv, hseq⟩

/-- A manifest of the chain is refused exactly when it is older than the recorded one. -/
theorem Chain.accepted_iff (h : Chain cx root ms) {known : Option ManifestState} (hk : OnChain cx ms known) {m : Bytes}
    (hm : m ∈ ms) {body : DeviceManifest} (hv : verifyManifest cx m root = .ok body) :
    (∃ r, acceptManifest cx m root known = .ok r) ↔ NotOlder known body := by
  constructor
  · rintro ⟨⟨body', state⟩, hr⟩
    obtain ⟨hv', -, hle⟩ := acceptManifest_ok hr
    obtain rfl := Except.ok.inj (hv.symm.trans hv')
    exact hle
  · intro hle
    obtain ⟨i, body', hi, hv', hseq⟩ := h.body hm
    obtain rfl := Except.ok.inj (hv.symm.trans hv')
    have hchain : ∃ state, checkChain body (manifestHash cx m) known = .ok state := by
      cases known with
      | none => exact ⟨_, rfl⟩
      | some k =>
        obtain ⟨j, p, hj, hkseq, hhash⟩ := hk k rfl
        have hji : k.sequence.toNat ≤ body.manifestSequence.toNat := UInt64.le_iff_toNat_le.1 (hle k rfl)
        simp only [checkChain]
        split
        next heq =>
          have hij : i = j := by
            have := congrArg UInt64.toNat heq
            omega
          subst hij
          obtain rfl := Option.some.inj (hi.symm.trans hj)
          rw [if_pos hhash.symm]
          exact ⟨_, rfl⟩
        next hne =>
          rw [if_neg (by rw [UInt64.lt_iff_toNat_lt]; omega)]
          split
          next hgap =>
            -- the successor of what is recorded links to it
            have hlt : k.sequence.toNat ≠ body.manifestSequence.toNat := fun he => hne (UInt64.toNat_inj.1 he).symm
            have hnat : body.manifestSequence.toNat = (k.sequence + 1).toNat := congrArg UInt64.toNat hgap.1
            have hlen : i < ms.length := (List.getElem?_eq_some_iff.1 hi).1
            have hfits := h.fits
            rw [UInt64.toNat_add, show (1 : UInt64).toNat = 1 from rfl, Nat.mod_eq_of_lt (by omega)] at hnat
            obtain rfl : i = j + 1 := by omega
            exact absurd ((h.linked j p m body hj hi hv).trans hhash.symm) hgap.2
          next => exact ⟨_, rfl⟩
    obtain ⟨state, hstate⟩ := hchain
    exact ⟨(body, state), by simp only [acceptManifest, hv, hstate]⟩

theorem insert_newest (cx : Crypto) {st : Store} (m : Bytes) {body : DeviceManifest} (hfits : body.manifestSequence.toNat < 2 ^ 63)
    (hknown : ∀ k, manifestState st = some k → k.sequence < body.manifestSequence) :
    ∃ t, st.manifest.insert ⟨body.identityId, body.manifestSequence.toInt64, m, manifestHash cx m⟩ = some t ∧
      (newestRow t.rows).map (fun r => (⟨r.sequence.toUInt64, r.hash⟩ : ManifestState)) =
        some ⟨body.manifestSequence, manifestHash cx m⟩ := by
  have hlater : ∀ b, newestRow st.manifest.rows = some b → b.sequence < body.manifestSequence.toInt64 := by
    intro b hb
    have hk : b.sequence.toUInt64 < body.manifestSequence :=
      hknown ⟨b.sequence.toUInt64, b.hash⟩ (by simp [manifestState, hb])
    have hsmall : b.sequence.toUInt64.toNat < 2 ^ 63 := by
      rw [UInt64.lt_iff_toNat_lt] at hk
      omega
    simpa using (toInt64_lt hsmall hfits).2 hk
  have hfree : ∀ r ∈ st.manifest, r.sequence ≠ body.manifestSequence.toInt64 := by
    intro r hr he
    cases hb : newestRow st.manifest.rows with
    | none =>
      have hr : r ∈ st.manifest.rows := hr
      simp [newestRow_eq_none.1 hb] at hr
    | some b =>
      have hle := newestRow_max hb r hr
      rw [he] at hle
      exact absurd (hlater b hb) (Int64.not_lt.2 hle)
  cases hi : st.manifest.insert ⟨body.identityId, body.manifestSequence.toInt64, m, manifestHash cx m⟩ with
  | none =>
    obtain ⟨r, hr, hk⟩ := Table.insert_eq_none.1 hi
    exact absurd (Prod.mk.inj hk).2 (hfree r hr)
  | some t =>
    refine ⟨t, rfl, ?_⟩
    rw [(Table.insert_eq_some hi).1, newestRow_append]
    cases hb : newestRow st.manifest.rows with
    | none => simp
    | some b => simp [hlater b hb]

theorem Chain.recorded_of_same (h : Chain cx root ms) {known : Option ManifestState} (hk : OnChain cx ms known) {m : Bytes}
    (hm : m ∈ ms) {body : DeviceManifest} (hv : verifyManifest cx m root = .ok body)
    (hsame : known.map (·.sequence) = some body.manifestSequence) :
    known = some ⟨body.manifestSequence, manifestHash cx m⟩ := by
  obtain ⟨k, rfl, hseq⟩ := Option.map_eq_some_iff.1 hsame
  obtain ⟨j, p, hj, hkseq, hhash⟩ := hk k rfl
  obtain ⟨i, body', hi, hv', hbody⟩ := h.body hm
  obtain rfl := Except.ok.inj (hv.symm.trans hv')
  obtain rfl : i = j := by
    have := congrArg UInt64.toNat hseq
    omega
  obtain rfl := Option.some.inj (hi.symm.trans hj)
  obtain ⟨sequence, hash⟩ := k
  simp only at hseq hhash
  rw [hseq, hhash]

theorem manifestState_markAll (hashes : List Bytes) (st : Store) : manifestState (markAll hashes st) = manifestState st := by
  rw [markAll_eq]
  rfl

theorem Chain.fits_body (h : Chain cx root ms) {m : Bytes} (hm : m ∈ ms) {body : DeviceManifest}
    (hv : verifyManifest cx m root = .ok body) : body.manifestSequence.toNat < 2 ^ 63 := by
  obtain ⟨i, body', hi, hv', hseq⟩ := h.body hm
  obtain rfl := Except.ok.inj (hv.symm.trans hv')
  have hlen : i < ms.length := (List.getElem?_eq_some_iff.1 hi).1
  have := h.fits
  omega

theorem newer_of_new {known : Option ManifestState} {body : DeviceManifest} (hle : NotOlder known body)
    (hnew : known.map (·.sequence) ≠ some body.manifestSequence) :
    ∀ k, known = some k → k.sequence < body.manifestSequence := by
  intro k hk
  refine UInt64.lt_of_le_of_ne (hle k hk) fun he => hnew ?_
  rw [hk, Option.map_some, he]

theorem Chain.own_iff (h : Chain cx root ms) {st : Store} (hroot : rootPublic st = some root)
    (hk : OnChain cx ms (manifestState st)) {m : Bytes} (hm : m ∈ ms) {body : DeviceManifest}
    (hv : verifyManifest cx m root = .ok body) :
    (∃ r st', manifestAcceptOwn cx m st = (.ok r, st')) ↔ NotOlder (manifestState st) body := by
  rw [← h.accepted_iff hk hm hv]
  constructor
  · rintro ⟨r, st', hr⟩
    rcases manifestAcceptOwn_cases cx m st with ⟨e, he⟩ | ⟨root', body', t, hroot', ha, -, -⟩
    · simp [he] at hr
    · obtain rfl := Option.some.inj (hroot.symm.trans hroot')
      exact ⟨_, ha⟩
  · rintro ⟨⟨body', state⟩, ha⟩
    obtain ⟨hv', rfl, hle⟩ := acceptManifest_ok ha
    obtain rfl := Except.ok.inj (hv.symm.trans hv')
    unfold manifestAcceptOwn
    simp only [bind_run, read_run, hroot, ofOption_some, ha, liftIdentity_ok, Prog.when]
    by_cases hnew : (manifestState st).map (·.sequence) ≠ some body.manifestSequence
    · obtain ⟨t, ht, -⟩ := insert_newest cx m (h.fits_body hm hv) (newer_of_new hle hnew)
      obtain ⟨n, hn⟩ := peersMarkRevoked_run body.revokedCredentialHashes { st with manifest := t }
      rw [if_pos hnew, insertManifest_run, ht]
      simp only [hn, pure_run]
      exact ⟨_, _, rfl⟩
    · obtain ⟨n, hn⟩ := peersMarkRevoked_run body.revokedCredentialHashes st
      rw [if_neg hnew]
      simp only [pure_run, hn]
      exact ⟨_, _, rfl⟩

theorem Chain.own_after (h : Chain cx root ms) {st st' : Store} (hroot : rootPublic st = some root)
    (hk : OnChain cx ms (manifestState st)) {m : Bytes} (hm : m ∈ ms) {body : DeviceManifest}
    (hv : verifyManifest cx m root = .ok body) {r : DeviceManifest × Bool}
    (hr : manifestAcceptOwn cx m st = (.ok r, st')) :
    manifestState st' = some ⟨body.manifestSequence, manifestHash cx m⟩ := by
  rcases manifestAcceptOwn_cases cx m st with ⟨e, he⟩ | ⟨root', body', t, hroot', ha, ht, hrun⟩
  · simp [he] at hr
  · obtain rfl := Option.some.inj (hroot.symm.trans hroot')
    obtain ⟨hv', -, hle⟩ := acceptManifest_ok ha
    obtain rfl := Except.ok.inj (hv.symm.trans hv')
    rw [hrun] at hr
    rw [← (Prod.mk.inj hr).2, manifestState_markAll]
    split at ht
    next hnew =>
      obtain ⟨t', ht', hstate⟩ := insert_newest cx m (h.fits_body hm hv) (newer_of_new hle hnew)
      obtain rfl := Option.some.inj (ht.symm.trans ht')
      exact hstate
    next hsame =>
      subst ht
      exact h.recorded_of_same hk hm hv (not_not.1 hsame)

/-- The ids of the notices tell the conversations apart, and no event stands under one. -/
def NoticesFit (pf : Platform) (st : Store) (id : Bytes) (body : DeviceManifest) : Prop :=
  ((toldGroups pf st id body).map (noticeId pf id body)).Nodup ∧ IdsFree pf st id body

theorem noticesFit_iff {st : Store} {id m : Bytes} {body : DeviceManifest} {carrier : Option Bytes} :
    (∃ st', forEach (toldGroups pf st id body) (fun g => record (notice pf st id body carrier g)) (taken pf id m body st) =
      (.ok (), st')) ↔ NoticesFit pf st id body := by
  have hrecord (hids : ((toldGroups pf st id body).map fun g => (notice pf st id body carrier g).eventId).Nodup) :
      (∃ st', forEach (toldGroups pf st id body) (fun g => record (notice pf st id body carrier g)) (taken pf id m body st) =
        (.ok (), st')) ↔ IdsFree pf st id body := by
    rw [forEach_record hids, taken_events]
    rfl
  constructor
  · rintro ⟨st', hrun⟩
    have hids : ((toldGroups pf st id body).map (noticeId pf id body)).Nodup := by
      obtain ⟨t, -, ht⟩ := forEach_recorded hrun
      have hn := t.nodup
      rw [ht, List.map_append, List.map_map] at hn
      exact (List.nodup_append.1 hn).2.1
    exact ⟨hids, (hrecord hids).1 ⟨st', hrun⟩⟩
  · rintro ⟨hids, hfree⟩
    exact (hrecord hids).2 hfree

theorem acceptUnit_same {st : Store} {id m : Bytes} {body : DeviceManifest} {carrier : Option Bytes} {state : ManifestState}
    (hroot : (peerRoot st id).bind (verifyingKey pf.crypto) = some root)
    (ha : acceptManifest pf.crypto m root (peerManifestState st id) = .ok (body, state))
    (hsame : (peerManifestState st id).map (·.sequence) = some body.manifestSequence) :
    acceptUnit pf id m carrier st = (.ok (body, false), markAll body.revokedCredentialHashes st) := by
  obtain ⟨bytes, hbytes, hkey⟩ := Option.bind_eq_some_iff.1 hroot
  obtain ⟨n, hmark⟩ := peersMarkRevoked_run body.revokedCredentialHashes st
  obtain rfl := (acceptManifest_ok ha).2.1
  have haccept : peerManifestAccept pf.crypto id m st =
      (.ok (body, false, ⟨0, 0⟩), markAll body.revokedCredentialHashes st) := by
    unfold peerManifestAccept
    simp only [bind_run, read_run, hbytes, ofOption_some, hkey, ha, liftIdentity_ok, hsame, ne_eq, not_true_eq_false,
      decide_false, Prog.when, if_false, pure_run, hmark]
  unfold acceptUnit
  rw [unitOfWork_eq_ok, bind_ok haccept]
  rfl

theorem Chain.peer_iff (h : Chain pf.crypto root ms) {st : Store} {id : Bytes}
    (hroot : (peerRoot st id).bind (verifyingKey pf.crypto) = some root)
    (hk : OnChain pf.crypto ms (peerManifestState st id)) {m : Bytes} (hm : m ∈ ms) {body : DeviceManifest}
    (hv : verifyManifest pf.crypto m root = .ok body) (carrier : Option Bytes) :
    (∃ r st', acceptUnit pf id m carrier st = (.ok r, st')) ↔ NotOlder (peerManifestState st id) body ∧
      ((peerManifestState st id).map (·.sequence) ≠ some body.manifestSequence → NoticesFit pf st id body) := by
  have haccepted := h.accepted_iff hk hm hv
  constructor
  · rintro ⟨r, st', hr⟩
    have hle : NotOlder (peerManifestState st id) body := by
      rw [← haccepted]
      unfold acceptUnit at hr
      rw [unitOfWork_eq_ok] at hr
      obtain ⟨⟨body', new, change⟩, st₁, hp, -⟩ := bind_eq_ok.1 hr
      obtain ⟨root', state, -, hroot', ha, -⟩ := peerManifestAccept_ok hp
      obtain rfl := Option.some.inj (hroot.symm.trans hroot')
      exact ⟨_, ha⟩
    refine ⟨hle, fun hnew => ?_⟩
    obtain ⟨⟨body', state⟩, ha⟩ := haccepted.2 hle
    obtain rfl := Except.ok.inj (hv.symm.trans (acceptManifest_ok ha).1)
    have hnewer : Newer pf.crypto st id m body := ⟨⟨root, state, hroot, ha⟩, newer_of_new hle hnew⟩
    exact noticesFit_iff.1 ⟨st', ((acceptUnit_newer hnewer r st').1 hr).2⟩
  · rintro ⟨hle, hfit⟩
    obtain ⟨⟨body', state⟩, ha⟩ := haccepted.2 hle
    obtain rfl := Except.ok.inj (hv.symm.trans (acceptManifest_ok ha).1)
    by_cases hnew : (peerManifestState st id).map (·.sequence) = some body.manifestSequence
    · exact ⟨_, _, acceptUnit_same hroot ha hnew⟩
    · have hnewer : Newer pf.crypto st id m body := ⟨⟨root, state, hroot, ha⟩, newer_of_new hle hnew⟩
      obtain ⟨st', hrun⟩ := noticesFit_iff.2 (hfit hnew)
      exact ⟨_, st', (acceptUnit_newer hnewer _ st').2 ⟨rfl, hrun⟩⟩

theorem peerManifestState_markAll (hashes : List Bytes) (st : Store) (id : Bytes) :
    peerManifestState (markAll hashes st) id = peerManifestState st id := by
  rw [markAll_eq]
  rfl

theorem Chain.peer_after (h : Chain pf.crypto root ms) {st st' : Store} {id : Bytes}
    (hroot : (peerRoot st id).bind (verifyingKey pf.crypto) = some root)
    (hk : OnChain pf.crypto ms (peerManifestState st id)) {m : Bytes} (hm : m ∈ ms) {body : DeviceManifest}
    (hv : verifyManifest pf.crypto m root = .ok body) {carrier : Option Bytes} {r : DeviceManifest × Bool}
    (hr : acceptUnit pf id m carrier st = (.ok r, st')) :
    peerManifestState st' id = some ⟨body.manifestSequence, manifestHash pf.crypto m⟩ := by
  obtain ⟨hle, -⟩ := (h.peer_iff hroot hk hm hv carrier).1 ⟨r, st', hr⟩
  obtain ⟨⟨body', state⟩, ha⟩ := (h.accepted_iff hk hm hv).2 hle
  obtain rfl := Except.ok.inj (hv.symm.trans (acceptManifest_ok ha).1)
  by_cases hnew : (peerManifestState st id).map (·.sequence) = some body.manifestSequence
  · rw [acceptUnit_same hroot ha hnew] at hr
    rw [← (Prod.mk.inj hr).2, peerManifestState_markAll]
    exact h.recorded_of_same hk hm hv hnew
  · have hnewer : Newer pf.crypto st id m body := ⟨⟨root, state, hroot, ha⟩, newer_of_new hle hnew⟩
    obtain ⟨t, rfl, -⟩ := forEach_recorded ((acceptUnit_newer hnewer r st').1 hr).2
    exact taken_state id m body st

def recorded (s : Session) (id : Bytes) (st : Store) : Option ManifestState :=
  if id = s.identityId then manifestState st else peerManifestState st id

def rootOf (cx : Crypto) (s : Session) (id : Bytes) (st : Store) : Option Bytes :=
  if id = s.identityId then rootPublic st else (peerRoot st id).bind (verifyingKey cx)

/-- A manifest of the identity on either channel; `carrier` is the device that sent it to a group. -/
def accept (pf : Platform) (s : Session) (id m : Bytes) (carrier : Option Bytes) : Client (DeviceManifest × Bool) :=
  if id = s.identityId then manifestAcceptOwn pf.crypto m else acceptUnit pf id m carrier

/-- The profile knows the root of the identity, and has recorded nothing but its chain. -/
structure Follows (pf : Platform) (s : Session) (root : Bytes) (ms : List Bytes) (st : Store) : Prop where
  rooted : rootOf pf.crypto s (Identity.identityId pf.crypto root) st = some root
  onChain : OnChain pf.crypto ms (recorded s (Identity.identityId pf.crypto root) st)

/-- The manifest is not older than the recorded one, and the notices of a newer one fit. -/
def InTurn (pf : Platform) (s : Session) (id : Bytes) (st : Store) (body : DeviceManifest) : Prop :=
  NotOlder (recorded s id st) body ∧
    (id ≠ s.identityId → (recorded s id st).map (·.sequence) ≠ some body.manifestSequence → NoticesFit pf st id body)

section channels

variable (h : Chain pf.crypto root ms) {st : Store} (hf : Follows pf s root ms st) {m : Bytes} (hm : m ∈ ms)
  {body : DeviceManifest} (hv : verifyManifest pf.crypto m root = .ok body)

include h hf hm hv

theorem accept_iff (carrier : Option Bytes) :
    (∃ r st', accept pf s (Identity.identityId pf.crypto root) m carrier st = (.ok r, st')) ↔
      InTurn pf s (Identity.identityId pf.crypto root) st body := by
  obtain ⟨hroot, hk⟩ := hf
  unfold accept InTurn
  unfold rootOf at hroot
  unfold recorded at hk ⊢
  by_cases hown : Identity.identityId pf.crypto root = s.identityId
  · rw [if_pos hown] at hroot hk
    rw [if_pos hown, if_pos hown, h.own_iff hroot hk hm hv]
    exact ⟨fun hle => ⟨hle, fun hne => absurd hown hne⟩, fun ht => ht.1⟩
  · rw [if_neg hown] at hroot hk
    rw [if_neg hown, if_neg hown, h.peer_iff hroot hk hm hv]
    exact ⟨fun ht => ⟨ht.1, fun _ => ht.2⟩, fun ht => ⟨ht.1, ht.2 hown⟩⟩

theorem accept_after {carrier : Option Bytes} {r : DeviceManifest × Bool} {st' : Store}
    (hr : accept pf s (Identity.identityId pf.crypto root) m carrier st = (.ok r, st')) :
    recorded s (Identity.identityId pf.crypto root) st' = some ⟨body.manifestSequence, manifestHash pf.crypto m⟩ := by
  obtain ⟨hroot, hk⟩ := hf
  unfold accept at hr
  unfold rootOf at hroot
  unfold recorded at hk ⊢
  by_cases hown : Identity.identityId pf.crypto root = s.identityId
  · rw [if_pos hown] at hroot hk hr ⊢
    exact h.own_after hroot hk hm hv hr
  · rw [if_neg hown] at hroot hk hr ⊢
    exact h.peer_after hroot hk hm hv hr

end channels

theorem peerRoot_markAll (hashes : List Bytes) (st : Store) (id : Bytes) : peerRoot (markAll hashes st) id = peerRoot st id := by
  unfold peerRoot
  rw [markAll_peers, List.find?_map, Option.map_map]
  have hsame : ∀ p : PeerRow, (if p.credentialHash ∈ hashes then { p with revoked := true } else p).peerIdentity =
      p.peerIdentity := by
    intro p
    split <;> rfl
  have hroots : ((·.rootPublic) ∘ fun p : PeerRow => if p.credentialHash ∈ hashes then { p with revoked := true } else p) =
      (·.rootPublic) := by
    funext p
    simp only [Function.comp]
    split <;> rfl
  rw [hroots]
  congr 1
  apply congrArg (st.peers.rows.find? ·)
  funext p
  simp only [Function.comp, hsame]

theorem accept_root {id m : Bytes} {carrier : Option Bytes} {r : DeviceManifest × Bool} {st st' : Store}
    (hr : accept pf s id m carrier st = (.ok r, st')) : rootOf pf.crypto s id st' = rootOf pf.crypto s id st := by
  unfold accept at hr
  unfold rootOf
  by_cases hown : id = s.identityId
  · rw [if_pos hown] at hr
    rw [if_pos hown, if_pos hown]
    have hrest := congrArg (·.identity) (manifestAcceptOwn_rest pf.crypto m st)
    rw [hr] at hrest
    exact congrArg (fun i => i.map (·.rootPublic)) hrest
  · rw [if_neg hown] at hr
    rw [if_neg hown, if_neg hown]
    unfold acceptUnit at hr
    rw [unitOfWork_eq_ok] at hr
    obtain ⟨⟨body, new, change⟩, st₁, hp, hr⟩ := bind_eq_ok.1 hr
    obtain ⟨_, st₂, hn, hr⟩ := bind_eq_ok.1 hr
    obtain rfl := (Prod.mk.inj hr).2
    obtain ⟨root, state, manifests, -, -, rfl⟩ := peerManifestAccept_ok hp
    have hnotices : ∃ t, st₂ = { markAll body.revokedCredentialHashes { st with peerManifests := manifests } with
        events := t } := by
      by_cases hnew : new = true
      · rw [when_pos hnew] at hn
        obtain ⟨t, rfl, -⟩ := recordDeviceNotices_ok hn
        exact ⟨t, rfl⟩
      · rw [when_neg hnew] at hn
        exact ⟨_, (Prod.mk.inj hn).2.symm⟩
    obtain ⟨t, rfl⟩ := hnotices
    exact congrArg (·.bind (verifyingKey pf.crypto))
      (peerRoot_markAll body.revokedCredentialHashes { st with peerManifests := manifests } id)

theorem accept_error {id m : Bytes} {carrier : Option Bytes} {e : ClientError} {st st' : Store}
    (hr : accept pf s id m carrier st = (.error e, st')) : st' = st := by
  unfold accept at hr
  split at hr
  · rcases manifestAcceptOwn_cases pf.crypto m st with ⟨e', he⟩ | ⟨_, _, _, _, _, _, hok⟩
    · rw [he] at hr
      exact (Prod.mk.inj hr).2.symm
    · rw [hok] at hr
      cases hr
  · exact unitOfWork_error hr

end Arveil.Manifests

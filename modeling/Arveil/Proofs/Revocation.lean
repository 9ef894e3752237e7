import Arveil.Proofs.Store
import Arveil.Sanity.Demo

/-! Who can revoke whom. A row of `peers` or of the own devices turns revoked
through a hash that some manifest lists; the rows are found by that hash alone,
over all conversations and identities. -/

namespace Arveil.Revocation

open Client

inductive Op where
  | conversationSave (at_ : Int) (c : Conversation)
  | peerManifestAccept (identity signed : Bytes)
  | manifestAcceptOwn (signed : Bytes)
  | deviceRevoke (device : Bytes)

variable (cx : Crypto)

def step (s : Store) : Op → Store
  | .conversationSave at_ c => (Client.conversationSave at_ c s).2
  | .peerManifestAccept identity signed => (Client.peerManifestAccept cx identity signed s).2
  | .manifestAcceptOwn signed => (Client.manifestAcceptOwn cx signed s).2
  | .deviceRevoke device => (Client.deviceRevoke cx device s).2

/-- A root this profile stores for an identity: its own, as a public key and on
the administration device as a seed; a peer's, on its first row. -/
def StoredRoot (s : Store) (identity root : Bytes) : Prop :=
  (identityId s = some identity ∧ (rootPublic s = some root ∨ (Client.root s).map cx.publicKey = some root)) ∨
    peerRoot s identity = some root

def Op.given : Op → Option Bytes
  | .peerManifestAccept _ signed => some signed
  | .manifestAcceptOwn signed => some signed
  | _ => none

def author (s : Store) : Op → Option Bytes
  | .conversationSave .. => none
  | .peerManifestAccept identity _ => some identity
  | .manifestAcceptOwn _ => identityId s
  | .deviceRevoke _ => identityId s

/-- The caller itself saved this device as revoked. -/
def SavedRevoked (group device : Bytes) : Op → Prop
  | .conversationSave _ c => c.groupId = group ∧ ∃ p ∈ c.peers, p.deviceId = device ∧ p.revoked = true
  | _ => False

/-- A manifest the operation was given, or that stands in the profile after it,
verifies under the root stored for `identity` and lists `hash` as revoked. -/
def ListedRevoked (identity hash : Bytes) (s : Store) (op : Op) : Prop :=
  ∃ signed root body, (op.given = some signed ∨ ∃ row ∈ (step cx s op).manifest, row.signed = signed) ∧
    StoredRoot cx s identity root ∧ Identity.verifyManifest cx signed root = .ok body ∧
    hash ∈ body.revokedCredentialHashes

/-- The rows still unrevoked that carry one of the hashes are of `identity`. -/
def OnlyOf (s : Store) (identity : Bytes) (hashes : List Bytes) : Prop :=
  (∀ p ∈ s.peers, p.credentialHash ∈ hashes → p.revoked = false → p.peerIdentity = identity) ∧
    ∀ d ∈ s.identityDevices, d.credentialHash ∈ hashes → d.revoked = false → identityId s = some identity

/-- What an operation revokes belongs to the identity whose manifest it is. -/
def Confined (s : Store) : Op → Prop
  | .conversationSave .. => True
  | .peerManifestAccept identity signed => ∀ root body state,
      (peerRoot s identity).bind (Identity.verifyingKey cx) = some root →
      Identity.acceptManifest cx signed root (peerManifestState s identity) = .ok (body, state) →
      OnlyOf s identity body.revokedCredentialHashes
  | .manifestAcceptOwn signed => ∀ own root body state, identityId s = some own → rootPublic s = some root →
      Identity.acceptManifest cx signed root (manifestState s) = .ok (body, state) →
      OnlyOf s own body.revokedCredentialHashes
  | .deviceRevoke device => ∀ own, identityId s = some own →
      ∀ d ∈ s.identityDevices, d.deviceId = device → OnlyOf s own [d.credentialHash]

def RevokedPeer (o : Bytes × Bytes × Bytes × Bytes × Bytes) (s : Store) : Prop :=
  ∃ p ∈ s.peers, p.origin = o ∧ p.revoked = true

def RevokedOwn (device hash : Bytes) (s : Store) : Prop :=
  ∃ d ∈ s.identityDevices, d.deviceId = device ∧ d.credentialHash = hash ∧ d.revoked = true

theorem savePeers_revoked {groupId : Bytes} {ps : List Peer} {s : Store} {p' : PeerRow}
    (h : p' ∈ (savePeers groupId ps s).peers) (hr : p'.revoked = true) :
    RevokedPeer p'.origin s ∨ (groupId = p'.groupId ∧ ∃ q ∈ ps, q.deviceId = p'.deviceId ∧ q.revoked = true) := by
  induction ps generalizing s with
  | nil => exact Or.inl ⟨p', h, rfl, hr⟩
  | cons q ps ih =>
    rcases ih (s := savePeer groupId q s) h with ⟨p₁, hp₁, ho, hr₁⟩ | ⟨hg, q', hq', hd, hr'⟩
    · rw [← ho]
      have hkey : p₁.groupId = p'.groupId ∧ p₁.deviceId = p'.deviceId :=
        ⟨congrArg (·.1) ho, congrArg (·.2.1) ho⟩
      rcases mem_savePeer hp₁ with ⟨p, hp, hg, hd, rfl⟩ | ⟨hp, -⟩ | ⟨rfl, -⟩
      · by_cases hpr : p.revoked = true
        · exact Or.inl ⟨p, hp, rfl, hpr⟩
        · refine Or.inr ⟨hg.symm.trans hkey.1, q, List.mem_cons_self, hd.symm.trans hkey.2, ?_⟩
          simpa [mergePeer, peerRow, hpr] using hr₁
      · exact Or.inl ⟨p₁, hp, rfl, hr₁⟩
      · exact Or.inr ⟨hkey.1, q, List.mem_cons_self, hkey.2, hr₁⟩
    · exact Or.inr ⟨hg, q', List.mem_cons_of_mem q hq', hd, hr'⟩

theorem markAll_revokedPeer {hashes : List Bytes} {s : Store} {o : Bytes × Bytes × Bytes × Bytes × Bytes}
    (h : RevokedPeer o (markAll hashes s)) :
    RevokedPeer o s ∨ ∃ p ∈ s.peers, p.origin = o ∧ p.credentialHash ∈ hashes ∧ p.revoked = false := by
  obtain ⟨p', hp', rfl, hr⟩ := h
  obtain ⟨p, hp, rfl⟩ := mem_markAll_peers.1 hp'
  by_cases hpr : p.revoked = true
  · refine Or.inl ⟨p, hp, ?_, hpr⟩
    split <;> rfl
  · refine Or.inr ⟨p, hp, ?_⟩
    split at hr
    · next hin => exact ⟨by rw [if_pos hin]; rfl, hin, by simpa using hpr⟩
    · exact absurd hr hpr

theorem markAll_revokedOwn {hashes : List Bytes} {s : Store} {device hash : Bytes}
    (h : RevokedOwn device hash (markAll hashes s)) :
    RevokedOwn device hash s ∨ ∃ d ∈ s.identityDevices, d.deviceId = device ∧ d.credentialHash = hash ∧
      hash ∈ hashes ∧ d.revoked = false := by
  obtain ⟨d', hd', hid, hh, hr⟩ := h
  obtain ⟨d, hd, rfl⟩ := mem_markAll_identityDevices.1 hd'
  have hsame : d.deviceId = device ∧ d.credentialHash = hash := by
    split at hid <;> split at hh <;> simp_all
  by_cases hdr : d.revoked = true
  · exact Or.inl ⟨d, hd, hsame.1, hsame.2, hdr⟩
  · refine Or.inr ⟨d, hd, hsame.1, hsame.2, ?_, by simpa using hdr⟩
    split at hr
    · next hin => rw [← hsame.2]; exact hin
    · exact absurd hr hdr

theorem peerRoot_of_verifyingKey {s : Store} {identity root : Bytes}
    (h : (peerRoot s identity).bind (Identity.verifyingKey cx) = some root) : peerRoot s identity = some root := by
  obtain ⟨r, hr, hk⟩ := Option.bind_eq_some_iff.1 h
  unfold Identity.verifyingKey at hk
  split at hk
  · rw [hr, Option.some.inj hk]
  · cases hk

theorem identityId_of_rootPublic {s : Store} {root : Bytes} (h : rootPublic s = some root) :
    ∃ own, identityId s = some own := by
  obtain ⟨row, hrow, -⟩ := Option.map_eq_some_iff.1 h
  exact ⟨row.identityId, by simp [identityId, hrow]⟩

/-- What an operation marks, and on whose word: either it marks nothing, or it
marks a list of hashes that a manifest under the stored root of one identity
revokes, and that identity owns every row the marking changes. -/
theorem step_marks (hcx : cx.Lawful) {s : Store} {op : Op} (hop : ∀ at_ c, op ≠ .conversationSave at_ c)
    (hc : Confined cx s op) :
    ((step cx s op).peers = s.peers ∧ (step cx s op).identityDevices = s.identityDevices) ∨
    ∃ identity hashes s₀, s₀.peers = s.peers ∧ s₀.identityDevices = s.identityDevices ∧
      (step cx s op).peers = (markAll hashes s₀).peers ∧
      (step cx s op).identityDevices = (markAll hashes s₀).identityDevices ∧ OnlyOf s identity hashes ∧
      (∀ h ∈ hashes, ListedRevoked cx identity h s op) ∧ author s op = some identity := by
  cases op with
  | conversationSave at_ c => exact absurd rfl (hop at_ c)
  | peerManifestAccept identity signed =>
    rcases peerManifestAccept_cases cx identity signed s with ⟨e, he⟩ | ⟨root, body, hroot, ha, hrun⟩
    · exact Or.inl (by simp [step, he])
    · have hstep : step cx s (.peerManifestAccept identity signed) = _ := congrArg Prod.snd hrun
      refine Or.inr ⟨identity, body.revokedCredentialHashes, _, ?_, ?_, congrArg (·.peers) hstep,
        congrArg (·.identityDevices) hstep, hc root body _ hroot ha, ?_, rfl⟩
      · split <;> rfl
      · split <;> rfl
      · intro h hh
        exact ⟨signed, root, body, Or.inl rfl, Or.inr (peerRoot_of_verifyingKey cx hroot),
          (Identity.acceptManifest_ok ha).1, hh⟩
  | manifestAcceptOwn signed =>
    rcases manifestAcceptOwn_cases cx signed s with ⟨e, he⟩ | ⟨root, body, m, hroot, ha, -, hrun⟩
    · exact Or.inl (by simp [step, he])
    · obtain ⟨own, hown⟩ := identityId_of_rootPublic hroot
      have hstep : step cx s (.manifestAcceptOwn signed) = _ := congrArg Prod.snd hrun
      refine Or.inr ⟨own, body.revokedCredentialHashes, { s with manifest := m }, rfl, rfl,
        congrArg (·.peers) hstep, congrArg (·.identityDevices) hstep, hc own root body _ hown hroot ha, ?_, hown⟩
      · intro h hh
        exact ⟨signed, root, body, Or.inl rfl, Or.inl ⟨hown, Or.inl hroot⟩,
          (Identity.acceptManifest_ok ha).1, hh⟩
  | deviceRevoke device =>
    rcases hrun : Client.deviceRevoke cx device s with ⟨r, s'⟩
    cases r with
    | error e =>
      have := deviceRevoke_error cx hrun
      exact Or.inl (by simp [step, hrun, this])
    | ok r =>
      obtain ⟨seed, root, d, row, body, hseed, hroot, hd, hdid, hrow, hv, hcase⟩ := deviceRevoke_ok cx hrun
      obtain ⟨own, hown⟩ := identityId_of_rootPublic hroot
      have honly := hc own hown d hd hdid
      refine Or.inr ⟨own, [d.credentialHash], ?_⟩
      rcases hcase with ⟨hin, hs'⟩ | ⟨-, mbody, m, ha, hi, hs'⟩
      · refine ⟨s, rfl, rfl, ?_, ?_, honly, ?_, hown⟩
        · rw [step, hrun, hs', revocationStart_eq]
        · rw [step, hrun, hs', revocationStart_eq]
        · intro h hh
          obtain rfl := List.mem_singleton.1 hh
          refine ⟨row.signed, root, body, Or.inr ⟨row, ?_, rfl⟩, Or.inl ⟨hown, Or.inl hroot⟩, hv, hin⟩
          rw [step, hrun, hs', revocationStart_eq, markAll_eq]
          exact newestRow_mem hrow
      · refine ⟨{ s with manifest := m }, rfl, rfl, ?_, ?_, honly, ?_, hown⟩
        · rw [step, hrun, hs', revocationStart_eq]
        · rw [step, hrun, hs', revocationStart_eq]
        · intro h hh
          obtain rfl := List.mem_singleton.1 hh
          have hm : (step cx s (.deviceRevoke device)).manifest = m := by
            rw [step, hrun, hs', revocationStart_eq, markAll_eq]
          have hstored := (Table.mem_insert hi).2 (Or.inr rfl)
          rw [← hm] at hstored
          refine ⟨_, cx.publicKey seed, _, Or.inr ⟨_, hstored, rfl⟩, Or.inl ⟨hown, Or.inr (by rw [hseed]; rfl)⟩,
            Identity.verifyManifest_issueManifest hcx .., ?_⟩
          simp [Identity.issuedManifest]

/-- What the run may rest on for a peer's row that turned revoked. -/
def Grounds (p : PeerRow) (s : Store) (op : Op) : Prop :=
  SavedRevoked p.groupId p.deviceId op ∨ ListedRevoked cx p.peerIdentity p.credentialHash s op

/-- And for an own device's. -/
def OwnGrounds (hash : Bytes) (s : Store) (op : Op) : Prop :=
  ∃ own, identityId s = some own ∧ ListedRevoked cx own hash s op

theorem step_revokedPeer (hcx : cx.Lawful) {s : Store} {op : Op} (hc : Confined cx s op) {p' : PeerRow}
    (h : RevokedPeer p'.origin (step cx s op)) : RevokedPeer p'.origin s ∨ Grounds cx p' s op := by
  by_cases hsave : ∃ at_ c, op = .conversationSave at_ c
  · obtain ⟨at_, c, rfl⟩ := hsave
    obtain ⟨ct, -, ⟨e, he⟩ | hok⟩ := conversationSave_cases at_ c s
    · rw [step, he] at h
      exact Or.inl h
    · rw [step, hok] at h
      obtain ⟨p, hp, ho, hr⟩ := h
      rcases savePeers_revoked hp hr with hold | ⟨hg, q, hq, hd, hqr⟩
      · exact Or.inl (by rw [← ho]; exact hold)
      · have hg' : p.groupId = p'.groupId := congrArg (·.1) ho
        have hd' : p.deviceId = p'.deviceId := congrArg (·.2.1) ho
        exact Or.inr (Or.inl ⟨hg.trans hg', q, hq, hd.trans hd', hqr⟩)
  · have hop : ∀ at_ c, op ≠ .conversationSave at_ c := fun at_ c he => hsave ⟨at_, c, he⟩
    rcases step_marks cx hcx hop hc with ⟨hp, -⟩ | ⟨identity, hashes, s₀, hp₀, -, hp, -, honly, hlisted, -⟩
    · exact Or.inl (by simpa [RevokedPeer, hp] using h)
    · unfold RevokedPeer at h
      rw [hp] at h
      rcases markAll_revokedPeer h with hold | ⟨p, hmem, ho, hin, hnot⟩
      · exact Or.inl (by simpa [RevokedPeer, hp₀] using hold)
      · rw [hp₀] at hmem
        have hi : p.peerIdentity = p'.peerIdentity := congrArg (·.2.2.1) ho
        have hh : p.credentialHash = p'.credentialHash := congrArg (·.2.2.2.1) ho
        refine Or.inr (Or.inr ?_)
        rw [← hi, ← hh, honly.1 p hmem hin hnot]
        exact hlisted _ hin

theorem step_revokedOwn (hcx : cx.Lawful) {s : Store} {op : Op} (hc : Confined cx s op) {device hash : Bytes}
    (h : RevokedOwn device hash (step cx s op)) : RevokedOwn device hash s ∨ OwnGrounds cx hash s op := by
  by_cases hsave : ∃ at_ c, op = .conversationSave at_ c
  · obtain ⟨at_, c, rfl⟩ := hsave
    refine Or.inl ?_
    obtain ⟨ct, -, ⟨e, he⟩ | hok⟩ := conversationSave_cases at_ c s
    · rw [step, he] at h
      exact h
    · rw [step, hok, savePeers_eq] at h
      exact h
  · have hop : ∀ at_ c, op ≠ .conversationSave at_ c := fun at_ c he => hsave ⟨at_, c, he⟩
    rcases step_marks cx hcx hop hc with ⟨-, hd⟩ | ⟨identity, hashes, s₀, -, hd₀, -, hd, honly, hlisted, -⟩
    · exact Or.inl (by simpa [RevokedOwn, hd] using h)
    · unfold RevokedOwn at h
      rw [hd] at h
      rcases markAll_revokedOwn h with hold | ⟨d, hmem, -, hh, hin, hnot⟩
      · exact Or.inl (by simpa [RevokedOwn, hd₀] using hold)
      · rw [hd₀] at hmem
        exact Or.inr ⟨identity, honly.2 d hmem (by rw [hh]; exact hin) hnot, hlisted _ hin⟩

theorem step_others (hcx : cx.Lawful) {s : Store} {op : Op} (hop : ∀ at_ c, op ≠ .conversationSave at_ c)
    (hc : Confined cx s op) {p : PeerRow} (hp : p ∈ s.peers) (hne : author s op ≠ some p.peerIdentity) :
    p ∈ (step cx s op).peers := by
  rcases step_marks cx hcx hop hc with ⟨h, -⟩ | ⟨identity, hashes, s₀, hp₀, -, h, -, honly, -, hid⟩
  · rw [h]; exact hp
  · rw [h]
    refine mem_markAll_peers.2 ⟨p, by rw [hp₀]; exact hp, ?_⟩
    split
    · next hin =>
      have hr : p.revoked = true := by
        by_contra hr
        exact hne (by rw [hid, honly.1 p hp hin (by simpa using hr)])
      cases p; simp_all
    · rfl

/-- In every run whose operations are confined, a device turns revoked only on
the word of its own identity: the caller saved it so, or a manifest verified
under the root stored for that identity lists its credential. -/
theorem revoked_only_by_own_identity (hcx : cx.Lawful) (s : Store) (ops : List Op)
    (hm : Trace.Meets (step cx) (Confined cx) s ops) :
    (∀ p ∈ (Trace.run (step cx) s ops).peers, p.revoked = true →
      RevokedPeer p.origin s ∨ Trace.Occurs (step cx) (Grounds cx p) s ops) ∧
    (∀ device, deviceRevoked (Trace.run (step cx) s ops) device = true →
      (∃ p ∈ (Trace.run (step cx) s ops).peers, p.deviceId = device ∧ p.revoked = true ∧
        (RevokedPeer p.origin s ∨ Trace.Occurs (step cx) (Grounds cx p) s ops)) ∨
      ∃ d ∈ (Trace.run (step cx) s ops).identityDevices, d.deviceId = device ∧ d.revoked = true ∧
        (RevokedOwn d.deviceId d.credentialHash s ∨
          Trace.Occurs (step cx) (OwnGrounds cx d.credentialHash) s ops)) ∧
    (∀ before op after, ops = before ++ op :: after → (∀ at_ c, op ≠ .conversationSave at_ c) →
      ∀ p ∈ (Trace.run (step cx) s before).peers, author (Trace.run (step cx) s before) op ≠ some p.peerIdentity →
        p ∈ (Trace.run (step cx) s (before ++ [op])).peers) := by
  have hpeers : ∀ p ∈ (Trace.run (step cx) s ops).peers, p.revoked = true →
      RevokedPeer p.origin s ∨ Trace.Occurs (step cx) (Grounds cx p) s ops := by
    intro p hp hr
    exact Trace.provenance (Q := RevokedPeer p.origin) (I := fun _ => True) (fun _ _ _ _ => trivial)
      (fun s op hc _ h => step_revokedPeer cx hcx hc h) hm trivial ⟨p, hp, rfl, hr⟩
  refine ⟨hpeers, ?_, ?_⟩
  · intro device h
    simp only [deviceRevoked, Bool.or_eq_true, List.any_eq_true, Bool.and_eq_true, decide_eq_true_eq] at h
    rcases h with ⟨p, hp, hd, hr⟩ | ⟨d, hd, hid, hr⟩
    · exact Or.inl ⟨p, hp, hd, hr, hpeers p hp hr⟩
    · refine Or.inr ⟨d, hd, hid, hr, ?_⟩
      exact Trace.provenance (Q := RevokedOwn d.deviceId d.credentialHash) (I := fun _ => True)
        (fun _ _ _ _ => trivial) (fun s op hc _ h => step_revokedOwn cx hcx hc h) hm trivial ⟨d, hd, rfl, rfl, hr⟩
  · intro before op after he hop p hp hne
    rw [Trace.run_append]
    exact step_others cx hcx hop (Trace.Meets.at hm he) hp hne

def demoStart : Store := (identityNew Demo.crypto [9] .empty).2

def demoConversation : Conversation where
  groupId := [7]
  creator := false
  peers := [⟨Demo.identityOf 1, [1], [11], Demo.publicKey [1], none, none, none, false⟩,
    ⟨Demo.identityOf 2, [2], [22], Demo.publicKey [2], none, none, none, false⟩]

/-- The run in which identity `n` presents a manifest that revokes hash `[22]`. -/
def demoRun (n : UInt8) : List Op :=
  [.conversationSave 0 demoConversation,
    .peerManifestAccept (Demo.identityOf n) (Identity.issueManifest Demo.crypto [n] none [] [[22]])]

def demoSaved : Store := step Demo.crypto demoStart (.conversationSave 0 demoConversation)

theorem demo_accepted {root : Bytes} {body : DeviceManifest} {state : Identity.ManifestState}
    (hroot : (peerRoot demoSaved (Demo.identityOf 2)).bind (Identity.verifyingKey Demo.crypto) = some root)
    (ha : Identity.acceptManifest Demo.crypto (Identity.issueManifest Demo.crypto [2] none [] [[22]]) root
      (peerManifestState demoSaved (Demo.identityOf 2)) = .ok (body, state)) :
    body.revokedCredentialHashes = [[22]] := by
  have hk : (peerRoot demoSaved (Demo.identityOf 2)).bind (Identity.verifyingKey Demo.crypto) =
      some (Demo.publicKey [2]) := by decide +kernel
  obtain rfl := Option.some.inj (hk.symm.trans hroot)
  have hv := (Identity.acceptManifest_ok ha).1
  have hi : Identity.verifyManifest Demo.crypto (Identity.issueManifest Demo.crypto [2] none [] [[22]])
      (Demo.publicKey [2]) = .ok (Identity.issuedManifest Demo.crypto [2] none [] [[22]]) :=
    Identity.verifyManifest_issueManifest Demo.crypto_lawful ..
  rw [hi] at hv
  rw [← Except.ok.inj hv]
  rfl

theorem demo_onlyOf : OnlyOf demoSaved (Demo.identityOf 2) [[22]] := by
  have hrows : (∀ p ∈ demoSaved.peers.rows, p.credentialHash ∈ [[22]] → p.revoked = false →
      p.peerIdentity = Demo.identityOf 2) ∧ ∀ d ∈ demoSaved.identityDevices.rows, d.credentialHash ∈ [[22]] →
      d.revoked = false → identityId demoSaved = some (Demo.identityOf 2) := by decide +kernel
  exact hrows

theorem revoked_by_its_own_manifest :
    ∃ p ∈ (Trace.run (step Demo.crypto) demoStart (demoRun 2)).peers, p.deviceId = [2] ∧ p.revoked = true ∧
      Trace.Occurs (step Demo.crypto) (Grounds Demo.crypto p) demoStart (demoRun 2) := by
  have hmeets : Trace.Meets (step Demo.crypto) (Confined Demo.crypto) demoStart (demoRun 2) := by
    refine ⟨trivial, ?_, trivial⟩
    intro root body state hroot ha
    rw [demo_accepted hroot ha]
    exact demo_onlyOf
  have hrow : ∃ p ∈ (Trace.run (step Demo.crypto) demoStart (demoRun 2)).peers.rows,
      p.deviceId = [2] ∧ p.revoked = true := by decide +kernel
  obtain ⟨p, hp, hd, hr⟩ := hrow
  refine ⟨p, hp, hd, hr, ?_⟩
  rcases (revoked_only_by_own_identity Demo.crypto Demo.crypto_lawful demoStart (demoRun 2) hmeets).1 p hp hr with
    ⟨q, hq, -⟩ | h
  · cases hq
  · exact h

theorem demo_no_manifest : demoSaved.manifest.rows = [] ∧
    (step Demo.crypto demoSaved (.peerManifestAccept (Demo.identityOf 1)
      (Identity.issueManifest Demo.crypto [1] none [] [[22]]))).manifest.rows = [] := by decide +kernel

theorem demo_save_no_grounds {p : PeerRow} :
    ¬ Grounds Demo.crypto p demoStart (.conversationSave 0 demoConversation) := by
  rintro (⟨-, q, hq, -, hr⟩ | ⟨signed, root, body, hg | ⟨row, hrow, -⟩, -⟩)
  · have hnone : ∀ q ∈ demoConversation.peers, q.revoked = false := by decide
    rw [hnone q hq] at hr
    cases hr
  · cases hg
  · rw [← demoSaved, Table.mem_def, demo_no_manifest.1] at hrow
    cases hrow

theorem demo_accept_no_grounds {p : PeerRow} (hi : p.peerIdentity = Demo.identityOf 2) :
    ¬ Grounds Demo.crypto p demoSaved (.peerManifestAccept (Demo.identityOf 1)
      (Identity.issueManifest Demo.crypto [1] none [] [[22]])) := by
  have hroots : identityId demoSaved ≠ some (Demo.identityOf 2) ∧
      peerRoot demoSaved (Demo.identityOf 2) = some (Demo.publicKey [2]) ∧
      (Identity.verifyManifest Demo.crypto (Identity.issueManifest Demo.crypto [1] none [] [[22]])
        (Demo.publicKey [2])).toOption = none := by decide +kernel
  rintro (hg | ⟨signed, root, body, hg | ⟨row, hrow, -⟩, hroot, hv, -⟩)
  · cases hg
  · obtain rfl := Option.some.inj hg
    rw [hi] at hroot
    rcases hroot with ⟨hown, -⟩ | hpeer
    · exact hroots.1 hown
    · obtain rfl := Option.some.inj (hroots.2.1.symm.trans hpeer)
      rw [hv] at hroots
      cases hroots.2.2
  · rw [Table.mem_def, demo_no_manifest.2] at hrow
    cases hrow

/-- Identity 1 revokes a device of identity 2: no manifest under the second root
was ever seen, and nobody saved the device as revoked. -/
theorem revoked_by_another_identity :
    ¬ ∀ p ∈ (Trace.run (step Demo.crypto) demoStart (demoRun 1)).peers, p.revoked = true →
      RevokedPeer p.origin demoStart ∨ Trace.Occurs (step Demo.crypto) (Grounds Demo.crypto p) demoStart (demoRun 1) := by
  intro h
  have hrow : ∃ p ∈ (Trace.run (step Demo.crypto) demoStart (demoRun 1)).peers.rows,
      p.peerIdentity = Demo.identityOf 2 ∧ p.revoked = true := by decide +kernel
  obtain ⟨p, hp, hi, hr⟩ := hrow
  rcases h p hp hr with ⟨q, hq, -⟩ | hg | hg | hf
  · cases hq
  · exact demo_save_no_grounds hg
  · exact demo_accept_no_grounds hi hg
  · exact hf

end Arveil.Revocation

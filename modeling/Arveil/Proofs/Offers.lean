import Mathlib.Data.Finset.Card
import Arveil.Proofs.Manifests

/-! Manifests offered one after another, in any order. What is recorded never goes back, no
two manifests of one sequence are both taken, and what is refused leaves no trace. The rows
hold a sequence as a signed number: a peer's row gives it back as it was, while the newest of
the own rows is found by its sign, so a manifest from 2^63 on may be taken and not be the newest. -/

namespace Arveil.Offers

open Client Identity Prog

variable {cx : Crypto} {α : Type}

theorem accepted_known {signed root : Bytes} {known : Option ManifestState} {body : DeviceManifest} {state : ManifestState}
    (h : acceptManifest cx signed root known = .ok (body, state)) {k : ManifestState} (hk : known = some k) :
    (body.manifestSequence = k.sequence ∧ manifestHash cx signed = k.hash) ∨
      (k.sequence < body.manifestSequence ∧
        (body.manifestSequence.toNat = k.sequence.toNat + 1 → body.previousManifestHash = k.hash)) := by
  subst hk
  unfold acceptManifest at h
  cases hv : verifyManifest cx signed root with
  | error e => simp [hv] at h
  | ok b =>
    simp only [hv] at h
    cases hc : checkChain b (manifestHash cx signed) (some k) with
    | error e => simp [hc] at h
    | ok st =>
      simp only [hc, Except.ok.injEq, Prod.mk.injEq] at h
      obtain ⟨rfl, -⟩ := h
      simp only [checkChain] at hc
      split at hc
      next hseq =>
        split at hc
        next hhash => exact Or.inl ⟨hseq, hhash⟩
        next => cases hc
      next hne =>
        split at hc
        next => cases hc
        next hle =>
          refine Or.inr ⟨UInt64.lt_of_le_of_ne (UInt64.not_lt.1 hle) fun he => hne he.symm, fun hnext => ?_⟩
          by_contra hlink
          have hsucc : b.manifestSequence = k.sequence + 1 := by
            have hlt := b.manifestSequence.toNat_lt
            apply UInt64.toNat_inj.1
            rw [UInt64.toNat_add, show (1 : UInt64).toNat = 1 from rfl, Nat.mod_eq_of_lt (by omega), hnext]
          rw [if_pos ⟨hsucc, hlink⟩] at hc
          cases hc

def offered (offer : Bytes → Client α) (s : Store) (ms : List Bytes) : Store := Trace.run (fun s m => (offer m s).2) s ms

theorem offered_append (offer : Bytes → Client α) (s : Store) (ms : List Bytes) (m : Bytes) (ms' : List Bytes) :
    offered offer s (ms ++ m :: ms') = offered offer (offer m (offered offer s ms)).2 ms' := Trace.run_append ..

/-- What is recorded over a list of offers, whatever the manifests are. `known` is the recorded sequence and hash, `stored` all that
is stored with them. -/
structure InOrder {β : Type} (cx : Crypto) (offer : Bytes → Client α) (body : α → DeviceManifest) (known : Store → Option ManifestState)
    (stored : Store → β) (s : Store) (ms : List Bytes) : Prop where
  /-- The recorded sequence never decreases. -/
  monotone : ∀ before m after, ms = before ++ m :: after → ∀ k, known (offered offer s before) = some k →
    ∃ k', known (offered offer s (before ++ [m])) = some k' ∧ k.sequence ≤ k'.sequence
  /-- Two manifests of one sequence are not both taken. -/
  unforked : ∀ before m between m' after a a', ms = before ++ m :: (between ++ m' :: after) →
    (offer m (offered offer s before)).1 = .ok a → (offer m' (offered offer s (before ++ m :: between))).1 = .ok a' →
    (body a).manifestSequence = (body a').manifestSequence → m = m'
  /-- The recorded manifest offered again changes nothing of what is stored. -/
  idempotent : ∀ before m after b, ms = before ++ m :: after → peekManifest cx m = some b →
    known (offered offer s before) = some ⟨b.manifestSequence, manifestHash cx m⟩ →
    stored (offered offer s (before ++ [m])) = stored (offered offer s before)
  linked : ∀ before m after a k, ms = before ++ m :: after → (offer m (offered offer s before)).1 = .ok a →
    known (offered offer s before) = some k → (body a).manifestSequence.toNat = k.sequence.toNat + 1 → (body a).previousManifestHash = k.hash
  refused : ∀ before m after e, ms = before ++ m :: after → (offer m (offered offer s before)).1 = .error e →
    offered offer s (before ++ [m]) = offered offer s before

section run

variable {β : Type} {offer : Bytes → Client α} {body : α → DeviceManifest} {known : Store → Option ManifestState} {stored : Store → β}

/-- What one offer may do. `Settled q h` says that the place of sequence `q` is taken by a manifest with hash `h`. -/
structure Rule (cx : Crypto) (offer : Bytes → Client α) (body : α → DeviceManifest) (known : Store → Option ManifestState) (stored : Store → β)
    (Settled : UInt64 → Bytes → Store → Prop) : Prop where
  refused : ∀ m s e s', offer m s = (.error e, s') → s' = s
  later : ∀ m s a s' k, offer m s = (.ok a, s') → known s = some k →
    ((body a).manifestSequence = k.sequence ∧ manifestHash cx m = k.hash) ∨
      (k.sequence < (body a).manifestSequence ∧
        ((body a).manifestSequence.toNat = k.sequence.toNat + 1 → (body a).previousManifestHash = k.hash))
  peeked : ∀ m s a s', offer m s = (.ok a, s') → peekManifest cx m = some (body a)
  same : ∀ m s a s' k, offer m s = (.ok a, s') → known s = some k → (body a).manifestSequence = k.sequence → stored s' = stored s
  keeps : ∀ m s k, known s = some k → ∃ k', known (offer m s).2 = some k' ∧ k.sequence ≤ k'.sequence
  settles : ∀ m s a s', offer m s = (.ok a, s') → Settled (body a).manifestSequence (manifestHash cx m) s'
  settled : ∀ q h m s, Settled q h s → Settled q h (offer m s).2
  taken : ∀ h m s a s', Settled (body a).manifestSequence h s → offer m s = (.ok a, s') → manifestHash cx m = h

variable {Settled : UInt64 → Bytes → Store → Prop}

theorem Rule.settled_offered (hr : Rule cx offer body known stored Settled) {q : UInt64} {h : Bytes} {s : Store} (hs : Settled q h s)
    (ms : List Bytes) : Settled q h (offered offer s ms) := by
  induction ms generalizing s with
  | nil => exact hs
  | cons m ms ih => exact ih (hr.settled q h m s hs)

theorem offered_snoc (offer : Bytes → Client α) (s : Store) (before : List Bytes) (m : Bytes) :
    offered offer s (before ++ [m]) = (offer m (offered offer s before)).2 := offered_append offer s before m []

theorem Rule.inOrder (hr : Rule cx offer body known stored Settled) (s : Store) {ms : List Bytes}
    (hms : ∀ m ∈ ms, ∀ m' ∈ ms, manifestHash cx m = manifestHash cx m' → m = m') : InOrder cx offer body known stored s ms where
  monotone := by
    intro before m after _ k hk
    rw [offered_snoc]
    exact hr.keeps m _ k hk
  unforked := by
    intro before m between m' after a a' hsplit ha ha' hseq
    have hm : m ∈ ms := by simp [hsplit]
    have hm' : m' ∈ ms := by simp [hsplit]
    rw [offered_append] at ha'
    have hset : Settled (body a).manifestSequence (manifestHash cx m) (offer m (offered offer s before)).2 :=
      hr.settles m _ a _ (Prod.ext ha rfl)
    rw [hseq] at hset
    exact (hms m' hm' m hm (hr.taken _ m' _ a' _ (hr.settled_offered hset between) (Prod.ext ha' rfl))).symm
  idempotent := by
    intro before m after b _ hb hk
    rw [offered_snoc]
    cases ha : (offer m (offered offer s before)).1 with
    | error e => exact congrArg stored (hr.refused m _ e _ (Prod.ext ha rfl))
    | ok a =>
      have hsame := (hr.peeked m _ a _ (Prod.ext ha rfl)).symm.trans hb
      exact hr.same m _ a _ _ (Prod.ext ha rfl) hk (by rw [Option.some.inj hsame])
  linked := by
    intro before m after a k _ ha hk hnext
    rcases hr.later m _ a _ k (Prod.ext ha rfl) hk with ⟨hsame, -⟩ | ⟨-, hlink⟩
    · rw [hsame] at hnext
      omega
    · exact hlink hnext
  refused := by
    intro before m after e _ ha
    rw [offered_snoc]
    exact hr.refused m _ e _ (Prod.ext ha rfl)

end run

section peer

variable {id : Bytes}

/-- A manifest of the sequence is recorded, or a later one. -/
def Passed (known : Store → Option ManifestState) (q : UInt64) (h : Bytes) (s : Store) : Prop :=
  ∃ k, known s = some k ∧ (q < k.sequence ∨ q = k.sequence ∧ h = k.hash)

/-- The device list stored with the recorded manifest. -/
def listed (cx : Crypto) (s : Store) (id : Bytes) : Option (List Bytes) :=
  ((s.peerManifests.get? id).bind (·.active)).bind fun b => (cx.decodeHashes b).toOption

theorem peerManifests_markAll (hashes : List Bytes) (s : Store) : (markAll hashes s).peerManifests = s.peerManifests := by
  rw [markAll_eq]

theorem recordedPeerManifest_row (signed : Bytes) (body : DeviceManifest) (s : Store) :
    ∃ r, (recordedPeerManifest cx id signed body s).peerManifests.get? id = some r ∧
      r.sequence = body.manifestSequence.toInt64 ∧ r.hash = manifestHash cx signed ∧
      r.active = some (cx.encodeHashes body.activeCredentialHashes) := by
  simp only [recordedPeerManifest, savePeerManifest]
  rw [Table.get?_upsert]
  cases s.peerManifests.get? id with
  | none => exact ⟨_, if_pos rfl, rfl, rfl, rfl⟩
  | some r => exact ⟨_, if_pos rfl, rfl, rfl, rfl⟩

theorem peer_cases (cx : Crypto) (id m : Bytes) (s : Store) :
    (∃ e, peerManifestAccept cx id m s = (.error e, s)) ∨
    ∃ body new change s', peerManifestAccept cx id m s = (.ok (body, new, change), s') ∧ peekManifest cx m = some body ∧
      (∀ k, peerManifestState s id = some k →
        (body.manifestSequence = k.sequence ∧ manifestHash cx m = k.hash) ∨
          (k.sequence < body.manifestSequence ∧
            (body.manifestSequence.toNat = k.sequence.toNat + 1 → body.previousManifestHash = k.hash))) ∧
      change = announcedChange cx id body s ∧
      ((new = false ∧ peerManifestState s id = some ⟨body.manifestSequence, manifestHash cx m⟩ ∧
          s'.peerManifests.get? id = s.peerManifests.get? id) ∨
        (new = true ∧ (∀ k, peerManifestState s id = some k → k.sequence < body.manifestSequence) ∧
          ∃ r, s'.peerManifests.get? id = some r ∧ r.sequence = body.manifestSequence.toInt64 ∧ r.hash = manifestHash cx m ∧
            r.active = some (cx.encodeHashes body.activeCredentialHashes))) := by
  rcases peerManifestAccept_cases cx id m s with h | ⟨root, body, -, ha, hrun⟩
  · exact Or.inl h
  · have hknown := fun k hk => accepted_known ha (k := k) hk
    refine Or.inr ⟨body, _, _, _, hrun, (peekManifest_of_verify (acceptManifest_ok ha).1).1, hknown, rfl, ?_⟩
    by_cases hnew : (peerManifestState s id).map (·.sequence) ≠ some body.manifestSequence
    · refine Or.inr ⟨decide_eq_true hnew, Manifests.newer_of_new (acceptManifest_ok ha).2.2 hnew, ?_⟩
      rw [if_pos hnew, peerManifests_markAll]
      exact recordedPeerManifest_row m body s
    · refine Or.inl ⟨decide_eq_false hnew, ?_, ?_⟩
      · obtain ⟨k, hk, hseq⟩ := Option.map_eq_some_iff.1 (not_not.1 hnew)
        rcases hknown k hk with ⟨hs, hh⟩ | ⟨hlt, -⟩
        · rw [hk, hs, hh]
        · exact absurd (hseq ▸ hlt) (UInt64.lt_irrefl _)
      · rw [if_neg hnew, peerManifests_markAll]

theorem peerManifestState_of_row {s : Store} {r : PeerManifestRow} {body : DeviceManifest} (h : s.peerManifests.get? id = some r)
    (hseq : r.sequence = body.manifestSequence.toInt64) : peerManifestState s id = some ⟨body.manifestSequence, r.hash⟩ := by
  rw [peerManifestState, h, Option.map_some, hseq, UInt64.toUInt64_toInt64]

theorem peer_after {m : Bytes} {s s' : Store} {a : DeviceManifest × Bool × DeviceChange} (h : peerManifestAccept cx id m s = (.ok a, s')) :
    peerManifestState s' id = some ⟨a.1.manifestSequence, manifestHash cx m⟩ := by
  rcases peer_cases cx id m s with ⟨e, he⟩ | ⟨body, new, change, s₁, hrun, -, -, -, hnew⟩
  · cases he.symm.trans h
  · obtain ⟨hok, rfl⟩ := Prod.mk.inj (hrun.symm.trans h)
    obtain rfl := Except.ok.inj hok
    rcases hnew with ⟨-, hstate, hrow⟩ | ⟨-, -, r, hrow, hseq, hhash, -⟩
    · rw [peerManifestState, hrow]
      exact hstate
    · rw [peerManifestState_of_row hrow hseq, hhash]

theorem passed_mono {known : Store → Option ManifestState} {q : UInt64} {h : Bytes} {s s' : Store} (hp : Passed known q h s)
    (hk : ∀ k, known s = some k → ∃ k', known s' = some k' ∧ (k.sequence < k'.sequence ∨ k' = k)) : Passed known q h s' := by
  obtain ⟨k, hks, hq⟩ := hp
  obtain ⟨k', hk', hlt | rfl⟩ := hk k hks
  · refine ⟨k', hk', Or.inl ?_⟩
    rcases hq with hq | ⟨rfl, -⟩
    · exact UInt64.lt_trans hq hlt
    · exact hlt
  · exact ⟨k', hk', hq⟩

/-- Where a sequence is passed, only the recorded manifest is taken under it. -/
theorem passed_hash {known : Store → Option ManifestState} {q : UInt64} {h hash : Bytes} {s : Store} {P : ManifestState → Prop}
    (hp : Passed known q h s) (hk : ∀ k, known s = some k → (q = k.sequence ∧ hash = k.hash) ∨ (k.sequence < q ∧ P k)) : hash = h := by
  obtain ⟨k, hks, hq⟩ := hp
  rcases hk k hks with ⟨hseq, hhash⟩ | ⟨hlt, -⟩
  · rcases hq with hq | ⟨-, hq⟩
    · exact absurd hq (by rw [hseq]; exact UInt64.lt_irrefl _)
    · rw [hhash, hq]
  · rcases hq with hq | ⟨hq, -⟩
    · exact absurd (UInt64.lt_trans hq hlt) (UInt64.lt_irrefl _)
    · exact absurd hlt (by rw [hq]; exact UInt64.lt_irrefl _)

theorem peer_moves (cx : Crypto) (id m : Bytes) (s : Store) {k : ManifestState} (hk : peerManifestState s id = some k) :
    ∃ k', peerManifestState (peerManifestAccept cx id m s).2 id = some k' ∧ (k.sequence < k'.sequence ∨ k' = k) := by
  rcases peer_cases cx id m s with ⟨e, he⟩ | ⟨body, new, change, s', hrun, -, hknown, -, -⟩
  · rw [he]
    exact ⟨k, hk, Or.inr rfl⟩
  · have hafter := peer_after hrun
    rw [hrun]
    refine ⟨_, hafter, ?_⟩
    rcases hknown k hk with ⟨hseq, hhash⟩ | ⟨hlt, -⟩
    · exact Or.inr (by rw [hseq, hhash])
    · exact Or.inl hlt

theorem peer_rule (cx : Crypto) (id : Bytes) :
    Rule cx (peerManifestAccept cx id) (·.1) (peerManifestState · id) (·.peerManifests.get? id) (Passed (peerManifestState · id)) where
  refused := by
    intro m s e s' h
    rcases peer_cases cx id m s with ⟨e', he⟩ | ⟨body, new, change, s₁, hrun, -⟩
    · exact (Prod.mk.inj (he.symm.trans h)).2.symm
    · cases hrun.symm.trans h
  later := by
    intro m s a s' k h hk
    rcases peer_cases cx id m s with ⟨e', he⟩ | ⟨body, new, change, s₁, hrun, -, hknown, -⟩
    · cases he.symm.trans h
    · obtain rfl := Except.ok.inj (Prod.mk.inj (hrun.symm.trans h)).1
      exact hknown k hk
  peeked := by
    intro m s a s' h
    rcases peer_cases cx id m s with ⟨e', he⟩ | ⟨body, new, change, s₁, hrun, hpeek, -⟩
    · cases he.symm.trans h
    · obtain rfl := Except.ok.inj (Prod.mk.inj (hrun.symm.trans h)).1
      exact hpeek
  same := by
    intro m s a s' k h hk hseq
    rcases peer_cases cx id m s with ⟨e', he⟩ | ⟨body, new, change, s₁, hrun, -, -, -, hnew⟩
    · cases he.symm.trans h
    · obtain ⟨hok, rfl⟩ := Prod.mk.inj (hrun.symm.trans h)
      obtain rfl := Except.ok.inj hok
      rcases hnew with ⟨-, -, hrow⟩ | ⟨-, hlt, -⟩
      · exact hrow
      · exact absurd (hlt k hk) (by rw [hseq]; exact UInt64.lt_irrefl _)
  keeps := by
    intro m s k hk
    obtain ⟨k', hk', hlt | rfl⟩ := peer_moves cx id m s hk
    · exact ⟨k', hk', UInt64.le_of_lt hlt⟩
    · exact ⟨k', hk', UInt64.le_refl _⟩
  settles := by
    intro m s a s' h
    exact ⟨_, peer_after h, Or.inr ⟨rfl, rfl⟩⟩
  settled := fun q h m s hp => passed_mono hp fun k hk => peer_moves cx id m s hk
  taken := by
    intro h m s a s' hp hrun
    rcases peer_cases cx id m s with ⟨e', he⟩ | ⟨body, new, change, s₁, hrun', -, hknown, -⟩
    · cases he.symm.trans hrun
    · obtain rfl := Except.ok.inj (Prod.mk.inj (hrun'.symm.trans hrun)).1
      exact passed_hash hp hknown

end peer

section own

/-- The sequence is passed, or its place in the table is taken and what is recorded as the newest is older. -/
def OwnSettled (cx : Crypto) (q : UInt64) (h : Bytes) (s : Store) : Prop :=
  Passed manifestState q h s ∨
    ((∃ root, rootPublic s = some root ∧ ∃ r, r ∈ s.manifest ∧ r.identityId = identityId cx root ∧ r.sequence = q.toInt64) ∧
      ∃ k, manifestState s = some k ∧ k.sequence < q)

theorem rootPublic_markAll (hashes : List Bytes) (s : Store) : rootPublic (markAll hashes s) = rootPublic s := by
  rw [markAll_eq]
  rfl

theorem manifest_markAll (hashes : List Bytes) (s : Store) : (markAll hashes s).manifest = s.manifest := by
  rw [markAll_eq]

theorem own_cases (cx : Crypto) (m : Bytes) (s : Store) :
    (∃ e, manifestAcceptOwn cx m s = (.error e, s)) ∨
    ∃ body new s' root, manifestAcceptOwn cx m s = (.ok (body, new), s') ∧ peekManifest cx m = some body ∧
      rootPublic s = some root ∧ rootPublic s' = some root ∧ body.identityId = identityId cx root ∧
      (∀ k, manifestState s = some k →
        (body.manifestSequence = k.sequence ∧ manifestHash cx m = k.hash) ∨
          (k.sequence < body.manifestSequence ∧
            (body.manifestSequence.toNat = k.sequence.toNat + 1 → body.previousManifestHash = k.hash))) ∧
      ((manifestState s = some ⟨body.manifestSequence, manifestHash cx m⟩ ∧ s'.manifest = s.manifest) ∨
        ((∀ k, manifestState s = some k → k.sequence < body.manifestSequence) ∧
          s.manifest.insert ⟨body.identityId, body.manifestSequence.toInt64, m, manifestHash cx m⟩ = some s'.manifest ∧
          (manifestState s' = some ⟨body.manifestSequence, manifestHash cx m⟩ ∨
            ∃ k, manifestState s = some k ∧ manifestState s' = some k))) := by
  rcases manifestAcceptOwn_cases cx m s with h | ⟨root, body, t, hroot, ha, ht, hrun⟩
  · exact Or.inl h
  · have hknown := fun k hk => accepted_known ha (k := k) hk
    obtain ⟨hpeek, hid⟩ := peekManifest_of_verify (acceptManifest_ok ha).1
    refine Or.inr ⟨body, _, _, root, hrun, hpeek, hroot, ?_, hid, hknown, ?_⟩
    · rw [rootPublic_markAll]
      exact hroot
    rw [manifest_markAll, Manifests.manifestState_markAll]
    split at ht
    next hnew =>
      refine Or.inr ⟨Manifests.newer_of_new (acceptManifest_ok ha).2.2 hnew, ht, ?_⟩
      simp only [manifestState]
      rw [(Table.insert_eq_some ht).1, newestRow_append]
      cases hb : newestRow s.manifest.rows with
      | none => exact Or.inl (by simp)
      | some b =>
        dsimp only
        split
        · exact Or.inl (by simp)
        · exact Or.inr ⟨_, rfl, rfl⟩
    next hsame =>
      subst ht
      refine Or.inl ⟨?_, rfl⟩
      obtain ⟨k, hk, hseq⟩ := Option.map_eq_some_iff.1 (not_not.1 hsame)
      rcases hknown k hk with ⟨hs, hh⟩ | ⟨hlt, -⟩
      · rw [hk, hs, hh]
      · exact absurd (hseq ▸ hlt) (UInt64.lt_irrefl _)

theorem own_moves (cx : Crypto) (m : Bytes) (s : Store) {k : ManifestState} (hk : manifestState s = some k) :
    ∃ k', manifestState (manifestAcceptOwn cx m s).2 = some k' ∧ (k.sequence < k'.sequence ∨ k' = k) := by
  rcases own_cases cx m s with ⟨e, he⟩ | ⟨body, new, s', root, hrun, -, -, -, -, -, ⟨-, htable⟩ | ⟨hlt, -, hstate | ⟨k₀, hk₀, hk'⟩⟩⟩
  · rw [he]
    exact ⟨k, hk, Or.inr rfl⟩
  · rw [hrun]
    refine ⟨k, ?_, Or.inr rfl⟩
    rw [manifestState, htable]
    exact hk
  · rw [hrun]
    exact ⟨_, hstate, Or.inl (hlt k hk)⟩
  · rw [hrun]
    obtain rfl := Option.some.inj (hk.symm.trans hk₀)
    exact ⟨k, hk', Or.inr rfl⟩

theorem own_grows (cx : Crypto) (m : Bytes) (s : Store) :
    rootPublic (manifestAcceptOwn cx m s).2 = rootPublic s ∧ ∀ r ∈ s.manifest, r ∈ (manifestAcceptOwn cx m s).2.manifest := by
  rcases own_cases cx m s with ⟨e, he⟩ | ⟨body, new, s', root, hrun, -, hroot, hroot', -, -, ⟨-, htable⟩ | ⟨-, hinsert, -⟩⟩
  · rw [he]
    exact ⟨rfl, fun _ hr => hr⟩
  · rw [hrun]
    refine ⟨hroot'.trans hroot.symm, fun r hr => ?_⟩
    rw [htable]
    exact hr
  · rw [hrun]
    exact ⟨hroot'.trans hroot.symm, fun r hr => (Table.mem_insert hinsert).2 (Or.inl hr)⟩

theorem own_rule (cx : Crypto) : Rule cx (manifestAcceptOwn cx) (·.1) manifestState (·.manifest) (OwnSettled cx) where
  refused := by
    intro m s e s' h
    rcases own_cases cx m s with ⟨e', he⟩ | ⟨body, new, s₁, root, hrun, -⟩
    · exact (Prod.mk.inj (he.symm.trans h)).2.symm
    · cases hrun.symm.trans h
  later := by
    intro m s a s' k h hk
    rcases own_cases cx m s with ⟨e', he⟩ | ⟨body, new, s₁, root, hrun, -, -, -, -, hknown, -⟩
    · cases he.symm.trans h
    · obtain rfl := Except.ok.inj (Prod.mk.inj (hrun.symm.trans h)).1
      exact hknown k hk
  peeked := by
    intro m s a s' h
    rcases own_cases cx m s with ⟨e', he⟩ | ⟨body, new, s₁, root, hrun, hpeek, -⟩
    · cases he.symm.trans h
    · obtain rfl := Except.ok.inj (Prod.mk.inj (hrun.symm.trans h)).1
      exact hpeek
  same := by
    intro m s a s' k h hk hseq
    rcases own_cases cx m s with ⟨e', he⟩ | ⟨body, new, s₁, root, hrun, -, -, -, -, -, ⟨-, htable⟩ | ⟨hlt, -⟩⟩
    · cases he.symm.trans h
    · rw [← (Prod.mk.inj (hrun.symm.trans h)).2]
      exact htable
    · obtain rfl := Except.ok.inj (Prod.mk.inj (hrun.symm.trans h)).1
      exact absurd (hlt k hk) (by rw [hseq]; exact UInt64.lt_irrefl _)
  keeps := by
    intro m s k hk
    obtain ⟨k', hk', hlt | rfl⟩ := own_moves cx m s hk
    · exact ⟨k', hk', UInt64.le_of_lt hlt⟩
    · exact ⟨k', hk', UInt64.le_refl _⟩
  settles := by
    intro m s a s' h
    rcases own_cases cx m s with ⟨e', he⟩ | ⟨body, new, s₁, root, hrun, -, -, hroot, hid, -, hnew⟩
    · cases he.symm.trans h
    obtain ⟨hok, rfl⟩ := Prod.mk.inj (hrun.symm.trans h)
    obtain rfl := Except.ok.inj hok
    rcases hnew with ⟨hstate, htable⟩ | ⟨hlt, hinsert, hstate | ⟨k, hk, hk'⟩⟩
    · refine Or.inl ⟨⟨body.manifestSequence, manifestHash cx m⟩, ?_, Or.inr ⟨rfl, rfl⟩⟩
      rw [manifestState, htable]
      exact hstate
    · exact Or.inl ⟨_, hstate, Or.inr ⟨rfl, rfl⟩⟩
    · exact Or.inr ⟨⟨root, hroot, _, (Table.mem_insert hinsert).2 (Or.inr rfl), hid, rfl⟩, k, hk', hlt k hk⟩
  settled := by
    intro q h m s hs
    rcases hs with hp | ⟨⟨root, hroot, r, hr, hid, hseq⟩, k, hk, hlt⟩
    · exact Or.inl (passed_mono hp fun k hk => own_moves cx m s hk)
    · obtain ⟨hroot', hrows⟩ := own_grows cx m s
      obtain ⟨k', hk', hmove⟩ := own_moves cx m s hk
      have hplace : ∃ root, rootPublic (manifestAcceptOwn cx m s).2 = some root ∧
          ∃ r, r ∈ (manifestAcceptOwn cx m s).2.manifest ∧ r.identityId = identityId cx root ∧ r.sequence = q.toInt64 :=
        ⟨root, hroot'.trans hroot, r, hrows r hr, hid, hseq⟩
      rcases UInt64.lt_or_le k'.sequence q with hless | hle
      · exact Or.inr ⟨hplace, k', hk', hless⟩
      rcases UInt64.lt_or_eq_of_le hle with hless | rfl
      · exact Or.inl ⟨k', hk', Or.inl hless⟩
      -- a manifest of that sequence finds its place taken
      exfalso
      rcases own_cases cx m s with ⟨e, he⟩ | ⟨body, new, s', root', hrun, -, hroot₀, -, hid', hknown, ⟨hstate, htable⟩ | ⟨-, hinsert, hstate | ⟨k₀, hk₀, hk₁⟩⟩⟩
      · rw [he, hk] at hk'
        exact absurd hlt (by rw [Option.some.inj hk']; exact UInt64.lt_irrefl _)
      · rw [hrun, manifestState, htable, ← manifestState, hk] at hk'
        exact absurd hlt (by rw [Option.some.inj hk']; exact UInt64.lt_irrefl _)
      · rw [hrun, hstate] at hk'
        obtain rfl := Option.some.inj hk'
        obtain rfl := Option.some.inj (hroot.symm.trans hroot₀)
        have hnone : s.manifest.insert ⟨body.identityId, body.manifestSequence.toInt64, m, manifestHash cx m⟩ = none :=
          Table.insert_eq_none.2 ⟨r, hr, Prod.ext (hid.trans hid'.symm) hseq⟩
        cases hnone.symm.trans hinsert
      · rw [hrun, hk₁, ← hk₀, hk] at hk'
        exact absurd hlt (by rw [Option.some.inj hk']; exact UInt64.lt_irrefl _)
  taken := by
    intro h m s a s' hs hrun
    rcases own_cases cx m s with ⟨e', he⟩ | ⟨body, new, s₁, root, hrun', -, hroot₀, -, hid', hknown, hnew⟩
    · cases he.symm.trans hrun
    obtain rfl := Except.ok.inj (Prod.mk.inj (hrun'.symm.trans hrun)).1
    rcases hs with hp | ⟨⟨root', hroot, r, hr, hid, hseq⟩, k, hk, hlt⟩
    · exact passed_hash hp hknown
    · rcases hnew with ⟨hstate, -⟩ | ⟨-, hinsert, -⟩
      · rw [hk] at hstate
        exact absurd hlt (by rw [Option.some.inj hstate]; exact UInt64.lt_irrefl _)
      · obtain rfl := Option.some.inj (hroot.symm.trans hroot₀)
        have hnone : s.manifest.insert ⟨body.identityId, body.manifestSequence.toInt64, m, manifestHash cx m⟩ = none :=
          Table.insert_eq_none.2 ⟨r, hr, Prod.ext (hid.trans hid'.symm) hseq⟩
        cases hnone.symm.trans hinsert

end own

section counts

variable {id : Bytes}

/-- The devices in one list and not in the other, and the other way round. -/
def differences (active previous : List Bytes) : DeviceChange :=
  ⟨(active.toFinset \ previous.toFinset).card.toUInt32, (previous.toFinset \ active.toFinset).card.toUInt32⟩

theorem deviceChange_eq (active previous : List Bytes) : deviceChange active previous = differences active previous := by
  have hside : ∀ xs ys : List Bytes, (xs.dedup.filter (· ∉ ys)).length = (xs.toFinset \ ys.toFinset).card := by
    intro xs ys
    rw [← List.toFinset_card_of_nodup (xs.nodup_dedup.filter _)]
    congr 1
    ext x
    simp
  rw [deviceChange, differences, hside, hside]

theorem peer_counts (hcx : cx.Lawful) {m : Bytes} {s s' : Store} {p : DeviceManifest} {new : Bool} {c : DeviceChange}
    (h : peerManifestAccept cx id m s = (.ok (p, new, c), s')) :
    (new = true → c = (listed cx s id).elim ⟨0, 0⟩ (differences p.activeCredentialHashes)) ∧
      listed cx s' id = if new then some p.activeCredentialHashes else listed cx s id := by
  rcases peer_cases cx id m s with ⟨e, he⟩ | ⟨body, new', change, s₁, hrun, -, -, hchange, hnew⟩
  · cases he.symm.trans h
  obtain ⟨hok, rfl⟩ := Prod.mk.inj (hrun.symm.trans h)
  obtain ⟨rfl, rfl, rfl⟩ : body = p ∧ new' = new ∧ change = c := by simpa using hok
  rcases hnew with ⟨rfl, -, hrow⟩ | ⟨rfl, hlt, r, hrow, -, -, hactive⟩
  · refine ⟨nofun, ?_⟩
    rw [listed, hrow]
    rfl
  · refine ⟨fun _ => ?_, ?_⟩
    · have hne : (peerManifestState s id).map (·.sequence) ≠ some body.manifestSequence := by
        intro he
        obtain ⟨k, hk, hseq⟩ := Option.map_eq_some_iff.1 he
        exact absurd (hlt k hk) (by rw [hseq]; exact UInt64.lt_irrefl _)
      rw [hchange, announcedChange, if_pos hne, ← listed, show deviceChange body.activeCredentialHashes = differences body.activeCredentialHashes
        from funext (deviceChange_eq _)]
    · rw [listed, hrow, Option.bind_some, hactive, Option.bind_some, hcx.decode_hashes]
      rfl

def NoneNew (cx : Crypto) (id : Bytes) (s : Store) (ms : List Bytes) : Prop :=
  ∀ before m after, ms = before ++ m :: after → ∀ p c, (peerManifestAccept cx id m (offered (peerManifestAccept cx id) s before)).1 ≠ .ok (p, true, c)

theorem listed_offered (hcx : cx.Lawful) {s : Store} {ms : List Bytes} (h : NoneNew cx id s ms) :
    listed cx (offered (peerManifestAccept cx id) s ms) id = listed cx s id := by
  induction ms generalizing s with
  | nil => rfl
  | cons m ms ih =>
    have hstep : listed cx (peerManifestAccept cx id m s).2 id = listed cx s id := by
      cases hr : (peerManifestAccept cx id m s).1 with
      | error e => exact congrArg (listed cx · id) ((peer_rule cx id).refused m s e _ (Prod.ext hr rfl))
      | ok a =>
        obtain ⟨p, new, c⟩ := a
        have hnot : new = false := by
          cases new with
          | false => rfl
          | true => exact absurd hr (h [] m ms rfl p c)
        rw [(peer_counts hcx (Prod.ext hr rfl)).2, hnot]
        rfl
    refine (ih fun before m' after hsplit => ?_).trans hstep
    exact h (m :: before) m' after (by rw [hsplit]; rfl)

/-- The counts reported over a list of offers. -/
structure Counted (cx : Crypto) (id : Bytes) (s : Store) (ms : List Bytes) : Prop where
  /-- Against the manifest taken before it. -/
  against : ∀ before m between m' after p c p' c', ms = before ++ m :: (between ++ m' :: after) →
    (peerManifestAccept cx id m (offered (peerManifestAccept cx id) s before)).1 = .ok (p, true, c) →
    NoneNew cx id (offered (peerManifestAccept cx id) s (before ++ [m])) between →
    (peerManifestAccept cx id m' (offered (peerManifestAccept cx id) s (before ++ m :: between))).1 = .ok (p', true, c') →
    c' = differences p'.activeCredentialHashes p.activeCredentialHashes
  /-- The first against the list stored at the start, and nothing where there is none. -/
  first : ∀ before m after p c, ms = before ++ m :: after → NoneNew cx id s before →
    (peerManifestAccept cx id m (offered (peerManifestAccept cx id) s before)).1 = .ok (p, true, c) →
    c = (listed cx s id).elim ⟨0, 0⟩ (differences p.activeCredentialHashes)

theorem counted (hcx : cx.Lawful) (id : Bytes) (s : Store) (ms : List Bytes) : Counted cx id s ms where
  against := by
    intro before m between m' after p c p' c' _ h hnone h'
    have hstored := (peer_counts hcx (Prod.ext h rfl)).2
    have hcount := (peer_counts hcx (Prod.ext h' rfl)).1 rfl
    rw [offered_append, ← offered_snoc] at hcount
    rw [listed_offered hcx hnone, offered_snoc, hstored] at hcount
    exact hcount
  first := by
    intro before m after p c _ hnone h
    have hcount := (peer_counts hcx (Prod.ext h rfl)).1 rfl
    rw [listed_offered hcx hnone] at hcount
    exact hcount

end counts

/-- Whatever is offered, in whatever order, and whatever was stored before. -/
theorem manifests_offered_in_any_order (cx : Crypto) (hcx : cx.Lawful) (s : Store) (ms : List Bytes)
    (hms : ∀ m ∈ ms, ∀ m' ∈ ms, manifestHash cx m = manifestHash cx m' → m = m') :
    InOrder cx (manifestAcceptOwn cx) (·.1) manifestState (·.manifest) s ms ∧
    ∀ id, InOrder cx (peerManifestAccept cx id) (·.1) (peerManifestState · id) (·.peerManifests.get? id) s ms ∧ Counted cx id s ms :=
  ⟨(own_rule cx).inOrder s hms, fun id => ⟨(peer_rule cx id).inOrder s hms, counted hcx id s ms⟩⟩

section demo

open Demo Notices

def demoFork : Bytes := issueManifest crypto [2] none [[4]] []

theorem demo_distinct : ∀ m ∈ [demoFirst, demoSecond, demoFork], ∀ m' ∈ [demoFirst, demoSecond, demoFork],
    manifestHash crypto m = manifestHash crypto m' → m = m' := by
  decide +kernel

theorem three_manifests_offered :
    InOrder crypto (peerManifestAccept crypto (identityOf 2)) (·.1) (peerManifestState · (identityOf 2))
      (·.peerManifests.get? (identityOf 2)) demoWorld.store [demoFirst, demoSecond, demoFork] ∧
    Counted crypto (identityOf 2) demoWorld.store [demoFirst, demoSecond, demoFork] :=
  (manifests_offered_in_any_order crypto crypto_lawful demoWorld.store [demoFirst, demoSecond, demoFork] demo_distinct).2 (identityOf 2)

/-- A profile of the version before the device lists: the column is there, and empty. -/
def withoutLists (s : Store) : Store :=
  { s with peerManifests := s.peerManifests.update (fun _ => true) ({ · with active := none }) fun _ => rfl }

/-- The first manifest was taken before the lists were kept: the next one drops its only device and reports no change. -/
theorem unlisted_manifest_counts_nothing :
    peerManifestState (withoutLists demoWorld.store) (identityOf 2) = some ⟨1, manifestHash crypto demoFirst⟩ ∧
    (peekManifest crypto demoFirst).map (·.activeCredentialHashes) = some [[2, 3]] ∧
    (peerManifestAccept crypto (identityOf 2) demoSecond (withoutLists demoWorld.store)).1.toOption = some (Notices.demoBody, true, ⟨0, 0⟩) ∧
    differences Notices.demoBody.activeCredentialHashes [[2, 3]] = ⟨0, 1⟩ := by
  decide +kernel

end demo

end Arveil.Offers

import Arveil.Proofs.Revocation

/-! Learning a device and learning that it was revoked, in both orders. A manifest
marks the rows that stand when it is accepted and its list is not kept, so a device
that a roster brings afterwards is stored as the roster has it. -/

namespace Arveil.Learning

open Client

variable (cx : Crypto)

section saving

variable {groupId d : Bytes} {ps : List Peer} {s : Store}

def calledRevoked (d : Bytes) (ps : List Peer) : Bool := ps.any fun q => q.deviceId = d && q.revoked

theorem calledRevoked_cons (q : Peer) : calledRevoked d (q :: ps) = (decide (q.deviceId = d) && q.revoked || calledRevoked d ps) := rfl

theorem get?_savePeer (q : Peer) (k : Bytes × Bytes) :
    (savePeer groupId q s).peers.get? k =
      if (groupId, q.deviceId) = k then
        some ((s.peers.get? k).elim (peerRow groupId q) (mergePeer · (peerRow groupId q)))
      else s.peers.get? k :=
  Table.get?_upsert s.peers (peerRow groupId q) k

theorem get?_savePeers_some {r : PeerRow} (h : s.peers.get? (groupId, d) = some r) :
    ∃ r', (savePeers groupId ps s).peers.get? (groupId, d) = some r' ∧ r'.origin = r.origin ∧
      r'.revoked = (r.revoked || calledRevoked d ps) := by
  induction ps generalizing s r with
  | nil => exact ⟨r, h, rfl, by simp [calledRevoked]⟩
  | cons q ps ih =>
    have hget : (savePeer groupId q s).peers.get? (groupId, d) =
        if q.deviceId = d then some (mergePeer r (peerRow groupId q)) else some r := by
      rw [get?_savePeer, h]
      simp only [Prod.mk.injEq, true_and, Option.elim]
    by_cases hd : q.deviceId = d
    · rw [if_pos hd] at hget
      obtain ⟨r', hr', ho, hv⟩ := ih hget
      refine ⟨r', hr', ho, ?_⟩
      rw [hv, calledRevoked_cons, decide_eq_true hd, Bool.true_and]
      simp [mergePeer, peerRow, Bool.or_assoc]
    · rw [if_neg hd] at hget
      obtain ⟨r', hr', ho, hv⟩ := ih hget
      exact ⟨r', hr', ho, by rw [hv, calledRevoked_cons, decide_eq_false hd, Bool.false_and, Bool.false_or]⟩

theorem get?_savePeers_none (h : s.peers.get? (groupId, d) = none) :
    match ps.find? fun q => q.deviceId = d with
    | none => (savePeers groupId ps s).peers.get? (groupId, d) = none
    | some p => ∃ r', (savePeers groupId ps s).peers.get? (groupId, d) = some r' ∧
        r'.origin = (peerRow groupId p).origin ∧ r'.revoked = calledRevoked d ps := by
  induction ps generalizing s with
  | nil => exact h
  | cons q ps ih =>
    have hget : (savePeer groupId q s).peers.get? (groupId, d) =
        if q.deviceId = d then some (peerRow groupId q) else none := by
      rw [get?_savePeer, h]
      simp only [Prod.mk.injEq, true_and, Option.elim]
    by_cases hd : q.deviceId = d
    · rw [if_pos hd] at hget
      obtain ⟨r', hr', ho, hv⟩ := get?_savePeers_some hget
      rw [List.find?_cons_of_pos (by simpa using hd)]
      exact ⟨r', hr', ho, by rw [hv, calledRevoked_cons, decide_eq_true hd, Bool.true_and]; rfl⟩
    · rw [if_neg hd] at hget
      rw [List.find?_cons_of_neg (by simpa using hd), calledRevoked_cons, decide_eq_false hd, Bool.false_and, Bool.false_or]
      exact ih hget

theorem get?_savePeers_elsewhere {k : Bytes × Bytes} (hk : k.1 ≠ groupId) :
    (savePeers groupId ps s).peers.get? k = s.peers.get? k := by
  induction ps generalizing s with
  | nil => rfl
  | cons q ps ih =>
    have hne : (groupId, q.deviceId) ≠ k := fun he => hk (by rw [← he])
    have hget : (savePeer groupId q s).peers.get? k = s.peers.get? k := by
      rw [get?_savePeer, if_neg hne]
    exact (@ih (savePeer groupId q s)).trans hget

end saving

/-- A device the profile has no row for yet, by its first entry. -/
def Unknown (s : Store) (c : Conversation) (p : Peer) : Prop :=
  c.peers.find? (fun q => q.deviceId = p.deviceId) = some p ∧ s.peers.get? (c.groupId, p.deviceId) = none

instance (s : Store) (c : Conversation) (p : Peer) : Decidable (Unknown s c p) :=
  inferInstanceAs (Decidable (_ ∧ _))

/-- Every device the conversation brings whose credential is in the list for its
identity is itself brought as revoked. -/
def Told (listed : Bytes → List Bytes) (s : Store) (c : Conversation) : Prop :=
  ∀ p ∈ c.peers, Unknown s c p → p.credentialHash ∈ listed p.identity → calledRevoked p.deviceId c.peers = true

theorem new_row {groupId : Bytes} {ps : List Peer} {s : Store} {r : PeerRow}
    (hr : r ∈ (savePeers groupId ps s).peers) (hnew : s.peers.get? (r.groupId, r.deviceId) = none) :
    r.groupId = groupId ∧ ∃ p ∈ ps, ps.find? (fun q => q.deviceId = r.deviceId) = some p ∧
      r.origin = (peerRow groupId p).origin ∧ r.revoked = calledRevoked r.deviceId ps := by
  have hget : (savePeers groupId ps s).peers.get? (r.groupId, r.deviceId) = some r := Table.get?_eq_some.2 ⟨hr, rfl⟩
  by_cases hg : r.groupId = groupId
  · refine ⟨hg, ?_⟩
    rw [hg] at hnew hget
    have hspec := @get?_savePeers_none groupId r.deviceId ps s hnew
    cases hf : ps.find? fun q => q.deviceId = r.deviceId with
    | none =>
      rw [hf] at hspec
      rw [hspec] at hget
      cases hget
    | some p =>
      rw [hf] at hspec
      obtain ⟨r', hr', ho, hv⟩ := hspec
      obtain rfl := Option.some.inj (hr'.symm.trans hget)
      exact ⟨p, List.mem_of_find?_eq_some hf, rfl, ho, hv⟩
  · have hsame := @get?_savePeers_elsewhere groupId ps s (r.groupId, r.deviceId) hg
    rw [hget, hnew] at hsame
    cases hsame

theorem old_row {groupId : Bytes} {ps : List Peer} {s : Store} {r r₀ : PeerRow}
    (hr : r ∈ (savePeers groupId ps s).peers) (hold : s.peers.get? (r.groupId, r.deviceId) = some r₀) :
    r.origin = r₀.origin ∧ (r₀.revoked = true → r.revoked = true) := by
  have hget : (savePeers groupId ps s).peers.get? (r.groupId, r.deviceId) = some r := Table.get?_eq_some.2 ⟨hr, rfl⟩
  by_cases hg : r.groupId = groupId
  · rw [hg] at hold hget
    obtain ⟨r', hr', ho, hv⟩ := @get?_savePeers_some groupId r.deviceId ps s r₀ hold
    obtain rfl := Option.some.inj (hr'.symm.trans hget)
    exact ⟨ho, fun h => by rw [hv, h, Bool.true_or]⟩
  · rw [@get?_savePeers_elsewhere groupId ps s (r.groupId, r.deviceId) hg, hold] at hget
    obtain rfl := Option.some.inj hget
    exact ⟨rfl, id⟩

def mark (hashes : List Bytes) (p : PeerRow) : PeerRow :=
  if p.credentialHash ∈ hashes then { p with revoked := true } else p

theorem mark_key (hashes : List Bytes) (p : PeerRow) :
    (mark hashes p).groupId = p.groupId ∧ (mark hashes p).deviceId = p.deviceId := by
  unfold mark
  split <;> exact ⟨rfl, rfl⟩

theorem mark_merge (hashes : List Bytes) (p new : PeerRow) :
    mergePeer (mark hashes p) new = mark hashes (mergePeer p new) := by
  unfold mark mergePeer
  dsimp only
  split <;> simp

theorem mark_eq_self {hashes : List Bytes} {p : PeerRow} :
    mark hashes p = p ↔ (p.credentialHash ∈ hashes → p.revoked = true) := by
  unfold mark
  split
  · next h =>
    refine ⟨fun he _ => by rw [← he], fun hr => ?_⟩
    rw [← hr h]
  · next h => exact ⟨fun _ hin => absurd hin h, fun _ => rfl⟩

theorem get?_markAll (hashes : List Bytes) (s : Store) (k : Bytes × Bytes) :
    (markAll hashes s).peers.get? k = (s.peers.get? k).map (mark hashes) := by
  unfold Table.get?
  rw [markAll_peers, List.find?_map]
  refine congrArg (Option.map (mark hashes)) (congrArg (s.peers.rows.find? ·) (funext fun p => ?_))
  obtain ⟨hg, hd⟩ := mark_key hashes p
  show decide (((mark hashes p).groupId, (mark hashes p).deviceId) = k) = _
  rw [hg, hd]

section orders

variable {groupId : Bytes} {ps : List Peer} {s u : Store} {k : Bytes × Bytes}

theorem get?_savePeers_congr (h : u.peers.get? k = s.peers.get? k) :
    (savePeers groupId ps u).peers.get? k = (savePeers groupId ps s).peers.get? k := by
  induction ps generalizing s u with
  | nil => exact h
  | cons q ps ih =>
    refine @ih (savePeer groupId q s) (savePeer groupId q u) ?_
    rw [get?_savePeer, get?_savePeer, h]

theorem get?_savePeers_mark {hashes : List Bytes} {r : PeerRow} (hs : s.peers.get? k = some r)
    (hu : u.peers.get? k = some (mark hashes r)) :
    (savePeers groupId ps u).peers.get? k = ((savePeers groupId ps s).peers.get? k).map (mark hashes) := by
  induction ps generalizing s u r with
  | nil => exact hu.trans (congrArg (Option.map (mark hashes)) hs).symm
  | cons q ps ih =>
    by_cases hk : (groupId, q.deviceId) = k
    · refine @ih (savePeer groupId q s) (savePeer groupId q u) (mergePeer r (peerRow groupId q)) ?_ ?_
      · rw [get?_savePeer, if_pos hk, hs]
        rfl
      · rw [get?_savePeer, if_pos hk, hu, ← mark_merge]
        rfl
    · refine @ih (savePeer groupId q s) (savePeer groupId q u) r ?_ ?_
      · rw [get?_savePeer, if_neg hk, hs]
      · rw [get?_savePeer, if_neg hk, hu]

end orders

/-- Two tables with the same rows. -/
def SameRows (s u : Store) : Prop := ∀ r, r ∈ s.peers ↔ r ∈ u.peers

theorem sameRows_iff {s u : Store} : SameRows s u ↔ ∀ k, s.peers.get? k = u.peers.get? k := by
  constructor
  · intro h k
    cases hu : u.peers.get? k with
    | none =>
      rw [Table.get?_eq_none] at hu ⊢
      exact fun r hr => hu r ((h r).1 hr)
    | some r =>
      rw [Table.get?_eq_some] at hu ⊢
      exact ⟨(h r).2 hu.1, hu.2⟩
  · intro h r
    have hself {t : Store} : r ∈ t.peers ↔ t.peers.get? (r.groupId, r.deviceId) = some r :=
      ⟨fun hr => Table.get?_eq_some.2 ⟨hr, rfl⟩, fun hr => (Table.get?_eq_some.1 hr).1⟩
    rw [hself, hself, h]

def AllMarked (hashes : List Bytes) (s : Store) : Prop := ∀ r ∈ s.peers, r.credentialHash ∈ hashes → r.revoked = true

theorem allMarked_markAll (hashes : List Bytes) (s : Store) : AllMarked hashes (markAll hashes s) := by
  intro r hr hin
  obtain ⟨p, -, rfl⟩ := mem_markAll_peers.1 hr
  split at hin <;> simp_all

/-- The two orders on the rows alone: they agree, and leave no listed device
unrevoked, exactly where every new listed device is brought as revoked. -/
theorem savePeers_markAll_iff {hashes : List Bytes} {s : Store} {c : Conversation} :
    (SameRows (markAll hashes (savePeers c.groupId c.peers s)) (savePeers c.groupId c.peers (markAll hashes s)) ∧
      AllMarked hashes (savePeers c.groupId c.peers (markAll hashes s))) ↔
    Told (fun _ => hashes) s c := by
  constructor
  · rintro ⟨-, hall⟩ p hp hnew hin
    have hspec := @get?_savePeers_none c.groupId p.deviceId c.peers (markAll hashes s)
      (by rw [get?_markAll, hnew.2]; rfl)
    rw [hnew.1] at hspec
    obtain ⟨r, hr, ho, hv⟩ := hspec
    rw [← hv]
    refine hall r (Table.get?_eq_some.1 hr).1 ?_
    rw [show r.credentialHash = p.credentialHash from congrArg (·.2.2.2.1) ho]
    exact hin
  · intro htold
    have hsame : SameRows (markAll hashes (savePeers c.groupId c.peers s))
        (savePeers c.groupId c.peers (markAll hashes s)) := by
      rw [sameRows_iff]
      intro k
      rw [get?_markAll]
      cases hs : s.peers.get? k with
      | some r => exact (get?_savePeers_mark hs (by rw [get?_markAll, hs]; rfl)).symm
      | none =>
        rw [@get?_savePeers_congr _ _ s (markAll hashes s) k (by rw [get?_markAll, hs]; rfl)]
        cases hr : (savePeers c.groupId c.peers s).peers.get? k with
        | none => rfl
        | some r =>
          obtain ⟨hmem, rfl⟩ := Table.get?_eq_some.1 hr
          obtain ⟨hg, p, hp, hfind, ho, hv⟩ := new_row hmem hs
          have hd : r.deviceId = p.deviceId := congrArg (·.2.1) ho
          have hh : r.credentialHash = p.credentialHash := congrArg (·.2.2.2.1) ho
          refine congrArg some (mark_eq_self.2 fun hin => ?_)
          rw [hv, hd]
          refine htold p hp ⟨by rw [← hd]; exact hfind, by rw [← hg, ← hd]; exact hs⟩ ?_
          rw [← hh]
          exact hin
    exact ⟨hsame, fun r hr => allMarked_markAll hashes _ r ((hsame r).2 hr)⟩

theorem savePeers_congr {groupId : Bytes} {ps : List Peer} {s u : Store} (h : u.peers = s.peers) :
    (savePeers groupId ps u).peers = (savePeers groupId ps s).peers := by
  induction ps generalizing s u with
  | nil => exact h
  | cons q ps ih =>
    refine @ih (savePeer groupId q s) (savePeer groupId q u) ?_
    exact congrArg (fun t => Table.upsert mergePeer (fun _ _ => rfl) t (peerRow groupId q)) h

theorem markAll_congr {hashes : List Bytes} {s u : Store} (h : u.peers = s.peers) :
    (markAll hashes u).peers = (markAll hashes s).peers := by
  induction hashes generalizing s u with
  | nil => exact h
  | cons x hashes ih =>
    refine @ih (markRevoked x s) (markRevoked x u) ?_
    exact congrArg (Table.update (fun p => p.credentialHash = x && !p.revoked) ({ · with revoked := true })
      fun _ => rfl) h

/-- The contact of an identity was verified with another root. -/
def Clash (t : Table ContactRow.identityId) (identity root : Bytes) : Prop :=
  ∃ row ∈ t, row.identityId = identity ∧ row.verified = true ∧ row.rootPublic ≠ root

theorem clash_iff {t : Table ContactRow.identityId} {identity root : Bytes} :
    Clash t identity root ↔ ∃ row, t.get? identity = some row ∧ row.verified = true ∧ row.rootPublic ≠ root := by
  constructor
  · rintro ⟨row, hrow, hid, hv⟩
    exact ⟨row, Table.get?_eq_some.2 ⟨hrow, hid⟩, hv⟩
  · rintro ⟨row, hrow, hv⟩
    obtain ⟨hmem, hid⟩ := Table.get?_eq_some.1 hrow
    exact ⟨row, hmem, hid, hv⟩

theorem contactSeen_clash (identity root : Bytes) (s : Store) :
    (Clash s.contacts identity root ∧ ∃ e, contactSeen identity root s = (.error e, s)) ∨
    (¬ Clash s.contacts identity root ∧ ∃ ct, contactSeen identity root s = (.ok (), { s with contacts := ct }) ∧
      ∀ i r, Clash ct i r ↔ Clash s.contacts i r) := by
  unfold contactSeen
  simp only [Prog.bind_run, Prog.read_run, contact, clash_iff]
  cases hc : s.contacts.get? identity with
  | some c =>
    dsimp only
    by_cases hroot : c.rootPublic = root
    · rw [if_pos hroot]
      exact Or.inr ⟨by simp [hroot], s.contacts, rfl, fun _ _ => Iff.rfl⟩
    · rw [if_neg hroot]
      by_cases hv : c.verified = true
      · rw [if_pos hv]
        exact Or.inl ⟨⟨c, rfl, hv, hroot⟩, _, rfl⟩
      · rw [if_neg hv]
        refine Or.inr ⟨by simp [hv], _, rfl, fun i r => ?_⟩
        rw [Table.get?_update]
        by_cases hi : i = identity
        · -- the row that changes is unverified, before and after
          subst hi
          have hid := (Table.get?_eq_some.1 hc).2
          simp [hc, hv, hid]
        · cases hg : s.contacts.get? i with
          | none => simp
          | some row =>
            have hid : row.identityId ≠ identity := fun he => hi ((Table.get?_eq_some.1 hg).2.symm.trans he)
            simp [hid]
  | none =>
    dsimp only
    rw [insertInto_run]
    cases hins : s.contacts.insert ⟨identity, root, none, false, none, false, none⟩ with
    | none =>
      obtain ⟨row, hrow, hid⟩ := Table.insert_eq_none.1 hins
      exact absurd hid (Table.get?_eq_none.1 hc row hrow)
    | some ct =>
      refine Or.inr ⟨by simp, ct, rfl, fun i r => ?_⟩
      rw [Table.get?_insert hins]
      by_cases hi : identity = i
      · subst hi
        simp [hc]
      · rw [if_neg hi]

/-- A route with another root than the one its identity was verified with. -/
def Contradicts (own : Option Bytes) (t : Table ContactRow.identityId) (p : Peer) : Prop :=
  p.rootPublic ≠ [] ∧ own ≠ some p.identity ∧ Clash t p.identity p.rootPublic

theorem forEach_contactSeen_clash (own : Option Bytes) (ps : List Peer) (s : Store) :
    ∃ r ct, Prog.forEach ps (fun p =>
        if !p.rootPublic.isEmpty && own ≠ some p.identity then contactSeen p.identity p.rootPublic else pure ()) s =
        (r, { s with contacts := ct }) ∧ ((∃ e, r = .error e) ↔ ∃ p ∈ ps, Contradicts own s.contacts p) := by
  induction ps generalizing s with
  | nil => exact ⟨_, s.contacts, rfl, by simp⟩
  | cons p ps ih =>
    simp only [Prog.forEach_cons, Prog.bind_run, List.mem_cons, exists_eq_or_imp]
    by_cases hc : (!p.rootPublic.isEmpty && decide (own ≠ some p.identity)) = true
    · have hsees : p.rootPublic ≠ [] ∧ own ≠ some p.identity := by simpa using hc
      rw [if_pos hc]
      rcases contactSeen_clash p.identity p.rootPublic s with ⟨hclash, e, he⟩ | ⟨hclear, ct, hrun, hsame⟩
      · rw [he]
        exact ⟨_, s.contacts, rfl, iff_of_true ⟨e, rfl⟩ (Or.inl ⟨hsees.1, hsees.2, hclash⟩)⟩
      · rw [hrun]
        obtain ⟨r, ct', hrun', hiff⟩ := ih { s with contacts := ct }
        refine ⟨r, ct', hrun', hiff.trans ?_⟩
        have hp : ¬ Contradicts own s.contacts p := fun h => hclear h.2.2
        have hct : ∀ q, Contradicts own ct q ↔ Contradicts own s.contacts q := fun q => by
          simp only [Contradicts, hsame]
        simp only [hp, false_or, hct]
    · rw [if_neg hc]
      have hp : ¬ Contradicts own s.contacts p := by
        rintro ⟨hroot, hown, -⟩
        exact hc (by simpa using ⟨hroot, hown⟩)
      obtain ⟨r, ct, hrun, hiff⟩ := ih s
      refine ⟨r, ct, hrun, hiff.trans ?_⟩
      simp only [hp, false_or]

def Refused (s : Store) (c : Conversation) : Prop := ∃ p ∈ c.peers, Contradicts (identityId s) s.contacts p

theorem conversationSave_outcome (at_ : Int) (c : Conversation) (s : Store) :
    (Refused s c ∧ ∃ e ct, conversationSave at_ c s = (.error e, { s with contacts := ct })) ∨
    (¬ Refused s c ∧ ∃ ct, conversationSave at_ c s = (.ok (), savePeers c.groupId c.peers
      (saveConversationRow at_ c.groupId c.creator { s with contacts := ct }))) := by
  obtain ⟨r, ct, hrun, hiff⟩ := forEach_contactSeen_clash (identityId s) c.peers s
  unfold conversationSave
  simp only [Prog.bind_run, Prog.read_run, hrun]
  cases r with
  | error e => exact Or.inl ⟨hiff.1 ⟨e, rfl⟩, e, ct, rfl⟩
  | ok u =>
    refine Or.inr ⟨fun h => ?_, ct, by simp only [Prog.modify_run, forEach_savePeer_run]⟩
    obtain ⟨e, he⟩ := hiff.2 h
    cases he

theorem conversationSave_peers {at_ : Int} {c : Conversation} {s : Store} (h : ¬ Refused s c) :
    (conversationSave at_ c s).2.peers = (savePeers c.groupId c.peers s).peers := by
  rcases conversationSave_outcome at_ c s with ⟨href, -⟩ | ⟨-, ct, hrun⟩
  · exact absurd href h
  · rw [hrun]
    exact savePeers_congr rfl

theorem conversationSave_refused {at_ : Int} {c : Conversation} {s : Store} (h : Refused s c) :
    (conversationSave at_ c s).2.peers = s.peers := by
  rcases conversationSave_outcome at_ c s with ⟨-, e, ct, hrun⟩ | ⟨hok, -⟩
  · rw [hrun]
  · exact absurd h hok

/-- What acceptance of a peer's manifest looks at. -/
def Accepted (s : Store) (identity signed : Bytes) (body : DeviceManifest) : Prop :=
  ∃ root state, (peerRoot s identity).bind (Identity.verifyingKey cx) = some root ∧
    Identity.acceptManifest cx signed root (peerManifestState s identity) = .ok (body, state)

theorem peerManifestAccept_accepted {s : Store} {identity signed : Bytes} {body : DeviceManifest}
    (h : Accepted cx s identity signed body) :
    ∃ new change s₀, peerManifestAccept cx identity signed s =
        (.ok (body, new, change), markAll body.revokedCredentialHashes s₀) ∧
      s₀.peers = s.peers ∧ s₀.contacts = s.contacts ∧ s₀.identity = s.identity := by
  obtain ⟨root, state, hroot, ha⟩ := h
  have hok : ∃ r, (peerManifestAccept cx identity signed s).1 = .ok r := by
    obtain ⟨rootBytes, hr, hk⟩ := Option.bind_eq_some_iff.1 hroot
    unfold peerManifestAccept
    simp only [Prog.bind_run, Prog.read_run, hr, Prog.ofOption_some, hk, ha, liftIdentity_ok, Prog.when]
    by_cases hnew : (peerManifestState s identity).map (·.sequence) ≠ some state.sequence
    · obtain ⟨n, hn⟩ := peersMarkRevoked_run body.revokedCredentialHashes (savePeerManifest
        ⟨identity, state.sequence.toInt64, state.hash, some (cx.encodeHashes body.activeCredentialHashes)⟩ s)
      simp only [if_pos hnew, Prog.modify_run, hn, Prog.pure_run]
      exact ⟨_, rfl⟩
    · obtain ⟨n, hn⟩ := peersMarkRevoked_run body.revokedCredentialHashes s
      simp only [if_neg hnew, Prog.pure_run, hn]
      exact ⟨_, rfl⟩
  rcases peerManifestAccept_cases cx identity signed s with ⟨e, he⟩ | ⟨root', body', hroot', ha', hrun⟩
  · obtain ⟨r, hr⟩ := hok
    rw [he] at hr
    cases hr
  · obtain rfl := Option.some.inj (hroot'.symm.trans hroot)
    rw [ha'] at ha
    obtain ⟨rfl, -⟩ := Prod.mk.inj (Except.ok.inj ha)
    refine ⟨_, _, _, hrun, ?_, ?_, ?_⟩ <;> split <;> rfl

theorem accepted_of_ok {s : Store} {identity signed : Bytes} {body : DeviceManifest} {new : Bool} {change : DeviceChange}
    (h : (peerManifestAccept cx identity signed s).1 = .ok (body, new, change)) : Accepted cx s identity signed body := by
  rcases peerManifestAccept_cases cx identity signed s with ⟨e, he⟩ | ⟨root, body', hroot, ha, hrun⟩
  · rw [he] at h
    cases h
  · rw [hrun] at h
    obtain ⟨rfl, -⟩ := Prod.mk.inj (Except.ok.inj h)
    exact ⟨root, _, hroot, ha⟩

theorem peerRoot_savePeers {groupId identity root : Bytes} {ps : List Peer} {s : Store}
    (h : peerRoot s identity = some root) : peerRoot (savePeers groupId ps s) identity = some root := by
  induction ps generalizing s with
  | nil => exact h
  | cons q ps ih =>
    refine @ih (savePeer groupId q s) ?_
    unfold peerRoot savePeer Table.upsert at *
    dsimp only
    cases hins : s.peers.insert (peerRow groupId q) with
    | some t =>
      dsimp only
      rw [(Table.insert_eq_some hins).1, List.find?_append]
      obtain ⟨p, hp, hr⟩ := Option.map_eq_some_iff.1 h
      rw [hp]
      exact congrArg some hr
    | none =>
      dsimp only [Table.update]
      have hkeep : ∀ p : PeerRow, ∀ b : Bool,
          (if b then mergePeer p (peerRow groupId q) else p).peerIdentity = p.peerIdentity ∧
          (if b then mergePeer p (peerRow groupId q) else p).rootPublic = p.rootPublic := by
        intro p b
        cases b <;> exact ⟨rfl, rfl⟩
      rw [List.find?_map, Option.map_map]
      obtain ⟨p, hp, hr⟩ := Option.map_eq_some_iff.1 h
      have hfind : s.peers.rows.find? ((fun p => decide (p.peerIdentity = identity)) ∘ fun r =>
          if (decide ((r.groupId, r.deviceId) = ((peerRow groupId q).groupId, (peerRow groupId q).deviceId))) = true then
            mergePeer r (peerRow groupId q) else r) = some p := by
        rw [← hp]
        refine congrArg (s.peers.rows.find? ·) (funext fun r => ?_)
        show decide (_ = identity) = _
        rw [(hkeep r _).1]
      rw [hfind]
      exact congrArg some ((hkeep p _).2.trans hr)

def learnThenRevoke (at_ : Int) (c : Conversation) (identity signed : Bytes) (s : Store) : Store :=
  (peerManifestAccept cx identity signed (conversationSave at_ c s).2).2

def revokeThenLearn (at_ : Int) (c : Conversation) (identity signed : Bytes) (s : Store) : Store :=
  (conversationSave at_ c (peerManifestAccept cx identity signed s).2).2

/-- Both orders leave the same rows, and no device the manifest lists unrevoked. -/
def Commute (s : Store) (at_ : Int) (c : Conversation) (identity signed : Bytes) (body : DeviceManifest) : Prop :=
  SameRows (learnThenRevoke cx at_ c identity signed s) (revokeThenLearn cx at_ c identity signed s) ∧
    AllMarked body.revokedCredentialHashes (learnThenRevoke cx at_ c identity signed s) ∧
    AllMarked body.revokedCredentialHashes (revokeThenLearn cx at_ c identity signed s)

theorem accepted_after_save {s : Store} {identity signed : Bytes} {body : DeviceManifest} (at_ : Int) (c : Conversation)
    (h : Accepted cx s identity signed body) : Accepted cx (conversationSave at_ c s).2 identity signed body := by
  obtain ⟨root, state, hroot, ha⟩ := h
  obtain ⟨rootBytes, hr, hk⟩ := Option.bind_eq_some_iff.1 hroot
  rcases conversationSave_outcome at_ c s with ⟨-, e, ct, hrun⟩ | ⟨-, ct, hrun⟩
  · rw [hrun]
    exact ⟨root, state, hroot, ha⟩
  · rw [hrun]
    refine ⟨root, state, Option.bind_eq_some_iff.2 ⟨rootBytes, peerRoot_savePeers hr, hk⟩, ?_⟩
    rw [savePeers_eq]
    exact ha

theorem learnThenRevoke_peers {s : Store} {identity signed : Bytes} {body : DeviceManifest} (at_ : Int) (c : Conversation)
    (h : Accepted cx s identity signed body) :
    (learnThenRevoke cx at_ c identity signed s).peers =
      (markAll body.revokedCredentialHashes (conversationSave at_ c s).2).peers := by
  obtain ⟨new, change, s₀, hrun, hp, -⟩ := peerManifestAccept_accepted cx (accepted_after_save cx at_ c h)
  unfold learnThenRevoke
  rw [hrun]
  exact markAll_congr hp

theorem revoked_before {s : Store} {identity signed : Bytes} {body : DeviceManifest} (c : Conversation)
    (h : Accepted cx s identity signed body) :
    (peerManifestAccept cx identity signed s).2.peers = (markAll body.revokedCredentialHashes s).peers ∧
      (Refused (peerManifestAccept cx identity signed s).2 c ↔ Refused s c) := by
  obtain ⟨new, change, s₀, hrun, hp, hct, hid⟩ := peerManifestAccept_accepted cx h
  rw [hrun]
  refine ⟨markAll_congr hp, ?_⟩
  rw [markAll_eq]
  unfold Refused identityId
  simp only [hct, hid]

/-- The two orders agree exactly where the save is refused or brings every new device
that the manifest lists as revoked. -/
theorem commute_iff {s : Store} {identity signed : Bytes} {body : DeviceManifest} (at_ : Int) (c : Conversation)
    (h : Accepted cx s identity signed body) :
    Commute cx s at_ c identity signed body ↔ Refused s c ∨ Told (fun _ => body.revokedCredentialHashes) s c := by
  obtain ⟨hmarked, hrefused⟩ := revoked_before cx c h
  have hlearn := learnThenRevoke_peers cx at_ c h
  have hrevoke : ¬ Refused s c → (revokeThenLearn cx at_ c identity signed s).peers =
      (savePeers c.groupId c.peers (markAll body.revokedCredentialHashes s)).peers := fun hr =>
    (conversationSave_peers (mt hrefused.1 hr)).trans (savePeers_congr hmarked)
  have hall : AllMarked body.revokedCredentialHashes (learnThenRevoke cx at_ c identity signed s) := by
    unfold AllMarked
    rw [hlearn]
    exact allMarked_markAll _ _
  unfold Commute
  by_cases hr : Refused s c
  · refine iff_of_true ?_ (Or.inl hr)
    have hsame : (learnThenRevoke cx at_ c identity signed s).peers = (revokeThenLearn cx at_ c identity signed s).peers := by
      rw [hlearn, markAll_congr (conversationSave_refused hr), revokeThenLearn,
        conversationSave_refused (hrefused.2 hr), hmarked]
    refine ⟨fun r => by rw [hsame], hall, ?_⟩
    unfold AllMarked at hall ⊢
    rw [← hsame]
    exact hall
  · have hiff := @savePeers_markAll_iff body.revokedCredentialHashes s c
    have hsaved : (markAll body.revokedCredentialHashes (conversationSave at_ c s).2).peers =
        (markAll body.revokedCredentialHashes (savePeers c.groupId c.peers s)).peers :=
      markAll_congr (conversationSave_peers hr)
    unfold SameRows AllMarked at hiff ⊢
    unfold AllMarked at hall
    rw [hlearn, hsaved] at hall ⊢
    rw [hrevoke hr]
    constructor
    · rintro ⟨hs, -, hm⟩
      exact Or.inr (hiff.1 ⟨hs, hm⟩)
    · rintro (h' | htold)
      · exact absurd h' hr
      · obtain ⟨hs, hm⟩ := hiff.2 htold
        exact ⟨hs, hall, hm⟩

/-- A profile, and the revoked list of the newest manifest accepted for each identity,
which the profile itself does not keep. -/
structure World where
  store : Store
  listed : Bytes → List Bytes

def start (s : Store) : World := ⟨s, fun _ => []⟩

def listedAfter (w : World) : Revocation.Op → Bytes → List Bytes
  | .peerManifestAccept identity signed =>
      match (peerManifestAccept cx identity signed w.store).1 with
      | .ok (body, _, _) => fun i => if i = identity then body.revokedCredentialHashes else w.listed i
      | .error _ => w.listed
  | _ => w.listed

def step (w : World) (op : Revocation.Op) : World := ⟨Revocation.step cx w.store op, listedAfter cx w op⟩

/-- A save is refused, or brings as revoked every new device that the newest manifest of
its identity lists. -/
def SavesTold (w : World) : Revocation.Op → Prop
  | .conversationSave _ c => Refused w.store c ∨ Told w.listed w.store c
  | _ => True

/-- No device that the newest manifest of its identity lists stands unrevoked. -/
def ListedRevoked (w : World) : Prop :=
  ∀ r ∈ w.store.peers, r.credentialHash ∈ w.listed r.peerIdentity → r.revoked = true

theorem listed_markAll {hashes : List Bytes} {s s' : Store} {listed : Bytes → List Bytes}
    (hp : s'.peers = (markAll hashes s).peers)
    (h : ∀ r ∈ s.peers, r.credentialHash ∈ listed r.peerIdentity → r.revoked = true ∨ r.credentialHash ∈ hashes) :
    ∀ r ∈ s'.peers, r.credentialHash ∈ listed r.peerIdentity → r.revoked = true := by
  intro r hr hin
  rw [hp] at hr
  obtain ⟨p, hp, rfl⟩ := mem_markAll_peers.1 hr
  by_cases hh : p.credentialHash ∈ hashes
  · rw [if_pos hh]
  · rw [if_neg hh] at hin ⊢
    exact (h p hp hin).resolve_right hh

theorem listed_save {w : World} {at_ : Int} {c : Conversation} (hc : SavesTold w (.conversationSave at_ c))
    (h : ListedRevoked w) : ListedRevoked (step cx w (.conversationSave at_ c)) := by
  intro r hr hin
  by_cases href : Refused w.store c
  · exact h r (by rw [← conversationSave_refused href]; exact hr) hin
  · have hr : r ∈ (savePeers c.groupId c.peers w.store).peers := by
      rw [← conversationSave_peers href]
      exact hr
    cases hold : w.store.peers.get? (r.groupId, r.deviceId) with
    | some r₀ =>
      obtain ⟨ho, hkeep⟩ := old_row hr hold
      have hid : r.peerIdentity = r₀.peerIdentity := congrArg (·.2.2.1) ho
      have hh : r.credentialHash = r₀.credentialHash := congrArg (·.2.2.2.1) ho
      refine hkeep (h r₀ (Table.get?_eq_some.1 hold).1 ?_)
      rw [← hid, ← hh]
      exact hin
    | none =>
      obtain ⟨hg, p, hp, hfind, ho, hv⟩ := new_row hr hold
      have hd : r.deviceId = p.deviceId := congrArg (·.2.1) ho
      have hid : r.peerIdentity = p.identity := congrArg (·.2.2.1) ho
      have hh : r.credentialHash = p.credentialHash := congrArg (·.2.2.2.1) ho
      rw [hv, hd]
      refine hc.resolve_left href p hp ⟨by rw [← hd]; exact hfind, by rw [← hg, ← hd]; exact hold⟩ ?_
      rw [← hid, ← hh]
      exact hin

theorem listed_accept {w : World} {identity signed : Bytes} (h : ListedRevoked w) :
    ListedRevoked (step cx w (.peerManifestAccept identity signed)) := by
  rcases peerManifestAccept_cases cx identity signed w.store with ⟨e, he⟩ | ⟨root, body, hroot, ha, hrun⟩
  · have hw : step cx w (.peerManifestAccept identity signed) = w := by
      simp only [step, Revocation.step, listedAfter, he]
    rw [hw]
    exact h
  · obtain ⟨new, change, s₀, hrun, hp, -⟩ := peerManifestAccept_accepted cx ⟨root, _, hroot, ha⟩
    refine @listed_markAll body.revokedCredentialHashes w.store _ _ ?_ fun r hr hin => ?_
    · simp only [step, Revocation.step, hrun]
      exact markAll_congr hp
    · simp only [step, listedAfter, hrun] at hin
      split at hin
      · exact Or.inr hin
      · exact Or.inl (h r hr hin)

theorem listed_step {w : World} {op : Revocation.Op} (hc : SavesTold w op) (h : ListedRevoked w) :
    ListedRevoked (step cx w op) := by
  cases op with
  | conversationSave at_ c => exact listed_save cx hc h
  | peerManifestAccept identity signed => exact listed_accept cx h
  | manifestAcceptOwn signed =>
    rcases manifestAcceptOwn_cases cx signed w.store with ⟨e, he⟩ | ⟨root, body, m, -, -, -, hrun⟩
    · intro r hr hin
      simp only [step, Revocation.step, he] at hr
      exact h r hr hin
    · refine @listed_markAll body.revokedCredentialHashes w.store _ _ ?_ fun r hr hin => Or.inl (h r hr hin)
      simp only [step, Revocation.step, hrun]
      exact markAll_congr rfl
  | deviceRevoke device =>
    rcases hrun : Client.deviceRevoke cx device w.store with ⟨r, s'⟩
    cases r with
    | error e =>
      intro r hr hin
      simp only [step, Revocation.step, hrun, deviceRevoke_error cx hrun] at hr
      exact h r hr hin
    | ok r =>
      obtain ⟨seed, root, d, row, body, -, -, -, -, -, -, hcase⟩ := deviceRevoke_ok cx hrun
      refine @listed_markAll [d.credentialHash] w.store _ _ ?_ fun r hr hin => Or.inl (h r hr hin)
      simp only [step, Revocation.step, hrun]
      rcases hcase with ⟨-, rfl⟩ | ⟨-, mbody, m, -, -, rfl⟩
      · rw [revocationStart_eq]
      · rw [revocationStart_eq]
        exact markAll_congr rfl

/-- Learning a device and learning that it was revoked commute exactly where every new
device that the manifest lists is brought as revoked; and in every run whose saves bring
the listed devices so, no listed device ever stands unrevoked. -/
theorem learning_commutes_iff :
    (∀ s identity signed body new change, (peerManifestAccept cx identity signed s).1 = .ok (body, new, change) →
      ∀ at_ c, Commute cx s at_ c identity signed body ↔
        Refused s c ∨ Told (fun _ => body.revokedCredentialHashes) s c) ∧
    ∀ s ops, Trace.Meets (step cx) SavesTold (start s) ops → ListedRevoked (Trace.run (step cx) (start s) ops) := by
  refine ⟨fun s identity signed body new change h at_ c => commute_iff cx at_ c (accepted_of_ok cx h), ?_⟩
  intro s ops hm
  refine Trace.invariant (fun w op hc h => listed_step cx hc h) hm fun r hr hin => ?_
  exact absurd hin List.not_mem_nil

instance (listed : Bytes → List Bytes) (s : Store) (c : Conversation) : Decidable (Told listed s c) :=
  inferInstanceAs (Decidable (∀ p ∈ c.peers, _))

def demoManifest : Bytes := Identity.issueManifest Demo.crypto [2] none [] [[33]]

def demoRoster (revoked : Bool) : Conversation where
  groupId := [8]
  creator := false
  peers := [⟨Demo.identityOf 2, [3], [33], Demo.publicKey [2], none, none, none, revoked⟩]

theorem demo_runs :
    ((peerManifestAccept Demo.crypto (Demo.identityOf 2) demoManifest Revocation.demoSaved).1.toOption.map
        (·.1.revokedCredentialHashes) = some [[33]]) ∧
      (∃ r ∈ (revokeThenLearn Demo.crypto 0 (demoRoster false) (Demo.identityOf 2) demoManifest
        Revocation.demoSaved).peers.rows, r.credentialHash = [33] ∧ r.revoked = false) ∧
      Told (fun _ => [[33]]) Revocation.demoSaved (demoRoster true) ∧
      Told (step Demo.crypto (start Revocation.demoSaved) (.peerManifestAccept (Demo.identityOf 2) demoManifest)).listed
        (step Demo.crypto (start Revocation.demoSaved) (.peerManifestAccept (Demo.identityOf 2) demoManifest)).store
        (demoRoster true) := by decide +kernel

theorem demo_accepts : ∃ body new change,
    (peerManifestAccept Demo.crypto (Demo.identityOf 2) demoManifest Revocation.demoSaved).1 = .ok (body, new, change) ∧
      body.revokedCredentialHashes = [[33]] := by
  have h := demo_runs.1
  rcases hr : (peerManifestAccept Demo.crypto (Demo.identityOf 2) demoManifest Revocation.demoSaved).1 with
    e | ⟨body, new, change⟩
  · rw [hr] at h
    cases h
  · rw [hr] at h
    exact ⟨body, new, change, rfl, Option.some.inj h⟩

theorem revoked_device_is_met_unrevoked :
    ∃ body new change, (peerManifestAccept Demo.crypto (Demo.identityOf 2) demoManifest Revocation.demoSaved).1 =
        .ok (body, new, change) ∧
      ¬ Commute Demo.crypto Revocation.demoSaved 0 (demoRoster false) (Demo.identityOf 2) demoManifest body := by
  obtain ⟨body, new, change, hok, hlist⟩ := demo_accepts
  refine ⟨body, new, change, hok, fun ⟨_, _, hall⟩ => ?_⟩
  obtain ⟨r, hr, hh, hv⟩ := demo_runs.2.1
  have hmarked := hall r hr (by rw [hlist, hh]; exact List.mem_singleton_self _)
  rw [hv] at hmarked
  cases hmarked

theorem told_device_commutes :
    (∃ body new change, (peerManifestAccept Demo.crypto (Demo.identityOf 2) demoManifest Revocation.demoSaved).1 =
        .ok (body, new, change) ∧
      Commute Demo.crypto Revocation.demoSaved 0 (demoRoster true) (Demo.identityOf 2) demoManifest body) ∧
    ListedRevoked (Trace.run (step Demo.crypto) (start Revocation.demoSaved)
      [.peerManifestAccept (Demo.identityOf 2) demoManifest, .conversationSave 0 (demoRoster true)]) := by
  obtain ⟨body, new, change, hok, hlist⟩ := demo_accepts
  refine ⟨⟨body, new, change, hok, ?_⟩, ?_⟩
  · refine ((learning_commutes_iff Demo.crypto).1 _ _ _ body new change hok 0 (demoRoster true)).2 (Or.inr ?_)
    rw [hlist]
    exact demo_runs.2.2.1
  · exact (learning_commutes_iff Demo.crypto).2 _ _ ⟨trivial, Or.inr demo_runs.2.2.2, trivial⟩

end Arveil.Learning

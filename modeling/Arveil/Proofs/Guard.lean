import Arveil.Proofs.Revocation
import Arveil.Proofs.Committer
import Arveil.Proofs.Redirects

/-! The guard before a message. `guard_revoked` reads the devices of one
conversation, and a revocation is a flag on every row that carries its hash, in
all conversations and among the own devices. The guard answers for a group as
long as every device that is revoked and holds a leaf there has its flag in that
very conversation. -/

namespace Arveil.Guard

open Client Delivery Send Prog

variable {pf : Platform} {s : Session}

def Leaf (pf : Platform) (st : Store) (gid d : Bytes) : Prop :=
  ∃ row ∈ st.mlsGroups, row.groupId = gid ∧ ∃ m ∈ pf.mlsRoster row.state, m.deviceId = some d

def RevokedIn (st : Store) (gid d : Bytes) : Prop :=
  ∃ p ∈ st.peers, p.groupId = gid ∧ p.deviceId = d ∧ p.revoked = true

/-- Nothing is sent to a group with a device that is known to be revoked. -/
def Guarded (pf : Platform) (st : Store) : Prop :=
  ∀ conv ∈ conversations st, ∀ row, st.mlsGroups.get? conv.groupId = some row →
    guardRevoked pf conv row.state st = (.ok (), st) →
      ∀ m ∈ pf.mlsRoster row.state, ∀ d, m.deviceId = some d → deviceRevoked st d = false

/-- Every revoked device with a leaf is flagged in the conversation of that group;
a group is stored under its own id. -/
structure InStep (pf : Platform) (st : Store) : Prop where
  flagged : ∀ gid d, Leaf pf st gid d → deviceRevoked st d = true → RevokedIn st gid d
  filed : ∀ row ∈ st.mlsGroups, row.groupId = pf.mlsGroupId row.state

theorem deviceRevoked_iff {st : Store} {d : Bytes} :
    deviceRevoked st d = true ↔ (∃ p ∈ st.peers, p.deviceId = d ∧ p.revoked = true) ∨
      ∃ o ∈ st.identityDevices, o.deviceId = d ∧ o.revoked = true := by
  simp [deviceRevoked, Table.mem_def]

theorem mem_peersOf_of_mem {st : Store} {p : PeerRow} (h : p ∈ st.peers) : peerOfRow p ∈ peersOf st p.groupId := by
  refine List.mem_map_of_mem ?_
  rw [(List.perm_insertionSort _ _).mem_iff, List.mem_filter]
  exact ⟨h, by simp⟩

theorem guarded_of_inStep {st : Store} (h : InStep pf st) : Guarded pf st := by
  intro conv hconv row hrow hguard m hm d hd
  by_contra hrev
  obtain ⟨hmem, hgid⟩ := Table.get?_eq_some.1 hrow
  obtain ⟨p, hp, hpg, hpd, hpr⟩ :=
    h.flagged conv.groupId d ⟨row, hmem, hgid, m, hm, hd⟩ (by simpa using hrev)
  have hpeers : conv.peers = peersOf st conv.groupId := by
    obtain ⟨r, -, hr⟩ := List.mem_filterMap.1 hconv
    obtain ⟨r', -, rfl⟩ := Option.map_eq_some_iff.1 hr
    rfl
  have hstuck : d ∈ revokedLeaves pf conv row.state := by
    refine List.mem_map.2 ⟨peerOfRow p, List.mem_filter.2 ⟨?_, ?_⟩, hpd⟩
    · rw [hpeers, ← hpg]
      exact mem_peersOf_of_mem hp
    · simp only [peerOfRow, hpr, Bool.true_and, List.any_eq_true, decide_eq_true_eq]
      exact ⟨m, hm, by rw [hd, hpd]⟩
  unfold guardRevoked at hguard
  split at hguard
  · next hempty => rw [List.isEmpty_iff.1 hempty] at hstuck; cases hstuck
  · cases hguard

def standing (st : Store) :
    Table (fun r : PeerRow => (r.groupId, r.deviceId)) × Table OwnDevice.deviceId × Table MlsGroupRow.groupId :=
  (st.peers, st.identityDevices, st.mlsGroups)

theorem InStep.congr {st st' : Store} (h : InStep pf st) (hs : standing st' = standing st) : InStep pf st' := by
  have hp : st'.peers = st.peers := congrArg (·.1) hs
  have hi : st'.identityDevices = st.identityDevices := congrArg (·.2.1) hs
  have hg : st'.mlsGroups = st.mlsGroups := congrArg (·.2.2) hs
  constructor
  · intro gid d hl hr
    unfold Leaf at hl
    unfold RevokedIn
    rw [hg] at hl
    rw [hp]
    refine h.flagged gid d hl ?_
    unfold deviceRevoked at hr ⊢
    rwa [hp, hi] at hr
  · rw [hg]
    exact h.filed

/-- Every revoked leaf of a group state is flagged in the conversation it belongs to. -/
def Covers (pf : Platform) (st : Store) (group : Bytes) : Prop :=
  ∀ m ∈ pf.mlsRoster group, ∀ d, m.deviceId = some d → deviceRevoked st d = true → RevokedIn st (pf.mlsGroupId group) d

theorem mem_writeGroup {st : Store} {group : Bytes} {used : Option Bytes} {row : MlsGroupRow}
    (h : row ∈ (pf.writeGroup group used st).mlsGroups) : row ∈ st.mlsGroups ∨ row = ⟨pf.mlsGroupId group, group⟩ := by
  rcases Table.mem_upsert h with ⟨r, hr, hk, rfl⟩ | ⟨hold, -⟩ | ⟨rfl, -⟩
  · exact Or.inr (by simp only [hk])
  · exact Or.inl hold
  · exact Or.inr rfl

theorem inStep_writeGroup {st : Store} {group : Bytes} {used : Option Bytes} (h : InStep pf st)
    (hc : Covers pf st group) : InStep pf (pf.writeGroup group used st) := by
  constructor
  · rintro gid d ⟨row, hrow, hgid, m, hm, hd⟩ hr
    rcases mem_writeGroup hrow with hold | rfl
    · exact h.flagged gid d ⟨row, hold, hgid, m, hm, hd⟩ hr
    · rw [← hgid]
      exact hc m hm d hd hr
  · intro row hrow
    rcases mem_writeGroup hrow with hold | rfl
    · exact h.filed row hold
    · rfl

/-- The group is still the same one, and no device came to it. -/
def NoNewcomer (pf : Platform) (group group' : Bytes) : Prop :=
  pf.mlsGroupId group' = pf.mlsGroupId group ∧
    ∀ m ∈ pf.mlsRoster group', ∃ m' ∈ pf.mlsRoster group, m'.deviceId = m.deviceId

theorem NoNewcomer.refl (group : Bytes) : NoNewcomer pf group group := ⟨rfl, fun m hm => ⟨m, hm, rfl⟩⟩

theorem NoNewcomer.trans {g g' g'' : Bytes} (h : NoNewcomer pf g g') (h' : NoNewcomer pf g' g'') :
    NoNewcomer pf g g'' := by
  refine ⟨h'.1.trans h.1, fun m hm => ?_⟩
  obtain ⟨m', hm', hd'⟩ := h'.2 m hm
  obtain ⟨m'', hm'', hd''⟩ := h.2 m' hm'
  exact ⟨m'', hm'', hd''.trans hd'⟩

/-- A group made from a stored one without new members. -/
def Derived (pf : Platform) (st : Store) (group : Bytes) : Prop :=
  ∃ row ∈ st.mlsGroups, NoNewcomer pf row.state group

theorem covers_of_derived {st : Store} {group : Bytes} (h : InStep pf st) (hd : Derived pf st group) :
    Covers pf st group := by
  obtain ⟨row, hrow, hid, hsub⟩ := hd
  intro m hm d hdev hr
  obtain ⟨m', hm', hd'⟩ := hsub m hm
  rw [hid, ← h.filed row hrow]
  exact h.flagged _ d ⟨row, hrow, rfl, m', hm', hd'.trans hdev⟩ hr

theorem leaf_writeGroup {st : Store} {group gid d : Bytes} {used : Option Bytes} (h : InStep pf st)
    (hd : Derived pf st group) (hl : Leaf pf (pf.writeGroup group used st) gid d) : Leaf pf st gid d := by
  obtain ⟨row, hrow, hgid, m, hm, hdev⟩ := hl
  rcases mem_writeGroup hrow with hold | rfl
  · exact ⟨row, hold, hgid, m, hm, hdev⟩
  · obtain ⟨old, hold, hid, hsub⟩ := hd
    obtain ⟨m', hm', hd'⟩ := hsub m hm
    exact ⟨old, hold, (h.filed old hold).trans (hid.symm.trans hgid), m', hm', hd'.trans hdev⟩

/-- The hash of a manifest that revokes reaches the row of its device in every
conversation in which the device holds a leaf. -/
def MarksCovered (pf : Platform) (st : Store) (hashes : List Bytes) : Prop :=
  ∀ gid d, Leaf pf st gid d →
    ((∃ p ∈ st.peers, p.deviceId = d ∧ p.credentialHash ∈ hashes) ∨
      ∃ o ∈ st.identityDevices, o.deviceId = d ∧ o.credentialHash ∈ hashes) →
    ∃ p ∈ st.peers, p.groupId = gid ∧ p.deviceId = d ∧ (p.revoked = true ∨ p.credentialHash ∈ hashes)

theorem markAll_flags {st : Store} {hashes : List Bytes} {p : PeerRow} (hp : p ∈ st.peers)
    (h : p.revoked = true ∨ p.credentialHash ∈ hashes) : RevokedIn (markAll hashes st) p.groupId p.deviceId := by
  refine ⟨_, mem_markAll_peers.2 ⟨p, hp, rfl⟩, ?_⟩
  by_cases hc : p.credentialHash ∈ hashes
  · simp [hc]
  · simp [hc, h.resolve_right hc]

theorem leaf_markAll {st : Store} {hashes : List Bytes} {gid d : Bytes} :
    Leaf pf (markAll hashes st) gid d ↔ Leaf pf st gid d := by
  rw [markAll_eq]
  rfl

theorem inStep_markAll {st : Store} {hashes : List Bytes} (h : InStep pf st) (hc : MarksCovered pf st hashes) :
    InStep pf (markAll hashes st) := by
  constructor
  · intro gid d hl hr
    rw [leaf_markAll] at hl
    -- the flag is an old one, or the marks set it
    have hwhy : deviceRevoked st d = true ∨ (∃ p ∈ st.peers, p.deviceId = d ∧ p.credentialHash ∈ hashes) ∨
        ∃ o ∈ st.identityDevices, o.deviceId = d ∧ o.credentialHash ∈ hashes := by
      rw [deviceRevoked_iff] at hr
      rcases hr with ⟨p', hp', hpd, hpr⟩ | ⟨o', ho', hod, hor⟩
      · obtain ⟨p, hp, rfl⟩ := mem_markAll_peers.1 hp'
        by_cases hin : p.credentialHash ∈ hashes
        · exact Or.inr (Or.inl ⟨p, hp, by simpa [hin] using hpd, hin⟩)
        · rw [if_neg hin] at hpd hpr
          exact Or.inl (deviceRevoked_iff.2 (Or.inl ⟨p, hp, hpd, hpr⟩))
      · obtain ⟨o, ho, rfl⟩ := mem_markAll_identityDevices.1 ho'
        by_cases hin : o.credentialHash ∈ hashes
        · exact Or.inr (Or.inr ⟨o, ho, by simpa [hin] using hod, hin⟩)
        · rw [if_neg hin] at hod hor
          exact Or.inl (deviceRevoked_iff.2 (Or.inr ⟨o, ho, hod, hor⟩))
    rcases hwhy with hold | hnew
    · obtain ⟨p, hp, rfl, rfl, hpr⟩ := h.flagged gid d hl hold
      exact markAll_flags hp (Or.inl hpr)
    · obtain ⟨p, hp, rfl, rfl, hflag⟩ := hc gid d hl hnew
      exact markAll_flags hp hflag
  · rw [markAll_eq]
    exact h.filed

theorem savePeers_flags {st : Store} {gid g d : Bytes} {ps : List Peer} (h : RevokedIn st g d) :
    RevokedIn (savePeers gid ps st) g d := by
  induction ps generalizing st with
  | nil => exact h
  | cons q ps ih =>
    show RevokedIn (savePeers gid ps (savePeer gid q st)) g d
    apply ih
    obtain ⟨p, hp, hg, hd, hr⟩ := h
    refine ⟨_, Table.mem_upsert_of_mem hp, ?_⟩
    split
    · exact ⟨hg, hd, by simp [mergePeer, hr]⟩
    · exact ⟨hg, hd, hr⟩

/-- Who is handed in as revoked is so in this conversation already. -/
def SavesNoNews (st : Store) (gid : Bytes) (ps : List Peer) : Prop :=
  ∀ q ∈ ps, q.revoked = true → RevokedIn st gid q.deviceId

theorem inStep_savePeers {st : Store} {gid : Bytes} {ps : List Peer} (h : InStep pf st) (hn : SavesNoNews st gid ps) :
    InStep pf (savePeers gid ps st) := by
  constructor
  · intro g d hl hr
    rw [savePeers_eq] at hl
    refine savePeers_flags (h.flagged g d hl ?_)
    rw [deviceRevoked_iff] at hr ⊢
    rcases hr with ⟨p', hp', hpd, hpr⟩ | hown
    · rcases Revocation.savePeers_revoked hp' hpr with ⟨p, hp, ho, hr⟩ | ⟨-, q, hq, hqd, hqr⟩
      · exact Or.inl ⟨p, hp, (congrArg (·.2.1) ho).trans hpd, hr⟩
      · obtain ⟨p, hp, -, hd, hr⟩ := hn q hq hqr
        exact Or.inl ⟨p, hp, hd.trans (hqd.trans hpd), hr⟩
    · rw [savePeers_eq] at hown
      exact Or.inr hown
  · rw [savePeers_eq]
    exact h.filed

/-- What MLS keeps of a group: encrypting and reading a message change neither its
id nor its members, and a commit without additions brings nobody in. -/
structure MlsLaws (pf : Platform) : Prop where
  encrypt : ∀ {entropy group data group' mls}, pf.mlsEncrypt entropy group data = .ok (group', mls) →
    NoNewcomer pf group group'
  application : ∀ {revoked group msg group' leaf data},
    pf.mlsProcess revoked group msg = .ok (group', .applicationMessage leaf data) → NoNewcomer pf group group'
  removal : ∀ {entropy group removes pending out group'}, pf.mlsBuild entropy group ⟨[], removes⟩ = .ok (pending, out) →
    pf.mlsApply pending = .ok group' → NoNewcomer pf group group'

variable (laws : MlsLaws pf)

theorem loadGroup_derived {gid group group' : Bytes} {st st' : Store} (h : pf.loadGroup gid st = (.ok group, st'))
    (hn : NoNewcomer pf group group') : st' = st ∧ Derived pf st group' := by
  obtain ⟨rfl, row, hrow, rfl⟩ := Receive.loadGroup_ok h
  exact ⟨rfl, row, (Table.get?_eq_some.1 hrow).1, hn⟩

/-- A group derived from the stored ones is stored, and the rest of the unit writes
neither devices nor groups. -/
theorem inStep_store {α ε : Type} {group : Bytes} {st : Store} {rest : Prog Store ε α} (h : InStep pf st)
    (hd : Derived pf st group) (hrest : Fixes standing rest) :
    InStep pf ((Prog.modify (pf.writeGroup group none) >>= fun _ => rest) st).2 := by
  rw [bind_ok (modify_run _ st)]
  exact (inStep_writeGroup h (covers_of_derived h hd)).congr (hrest _)

include laws in
theorem queueText_inStep {c : Conversation} {text eventId entropy : Bytes} {order : Nat → UInt64} {draws : Nat → Draw}
    {st : Store} (h : InStep pf st) : InStep pf (queueText pf s c text eventId entropy order draws st).2 := by
  unfold queueText
  refine bind_snd (fun e st' he => ?_) fun group st' hload => ?_
  · obtain rfl := ends_unchanged (fixes_loadGroup _) he
    exact h
  obtain rfl := ends_unchanged (fixes_loadGroup _) hload
  refine bind_snd (fun e st' he => ?_) fun _ st' hguard => ?_
  · obtain rfl := ends_unchanged (fixes_guardRevoked _ _) he
    exact h
  obtain rfl := ends_unchanged (fixes_guardRevoked _ _) hguard
  rw [delivery, mapError_snd]
  refine unitOfWork_snd h (bind_snd (fun e st' he => ?_) fun sealed st' hseal => ?_)
  · obtain rfl := ends_unchanged (fixes_invalidQuery _) he
    exact h
  obtain rfl := ends_unchanged (fixes_invalidQuery _) hseal
  have henc := (ofExcept_eq_ok.1 (mapError_eq_ok.1 hseal)).1
  refine inStep_store h (loadGroup_derived hload (laws.encrypt henc)).2 ?_
  exact fixes_bind (fixes_sqlInsert fun _ _ => rfl) fun _ => (fixes_enqueueForAll _ _ _ _ _).map standing

theorem commit_ok {what : String} {p : Proposals} {entropy group group' : Bytes} {out : CommitOutput} {st st' : Store}
    (h : Groups.commit pf what p entropy group st = (.ok (group', out), st')) :
    ∃ pending, pf.mlsBuild entropy group p = .ok (pending, out) ∧ pf.mlsApply pending = .ok group' := by
  unfold Groups.commit at h
  obtain ⟨_, st₁, -, h⟩ := bind_eq_ok.1 h
  obtain ⟨verdict, st₂, -, h⟩ := bind_eq_ok.1 h
  obtain ⟨_, st₃, -, h⟩ := bind_eq_ok.1 h
  obtain ⟨⟨pending, out'⟩, st₄, hb, h⟩ := bind_eq_ok.1 h
  obtain ⟨group'', st₅, ha, h⟩ := bind_eq_ok.1 h
  obtain ⟨rfl, rfl⟩ := Prod.mk.inj (Except.ok.inj (Prod.mk.inj h).1)
  exact ⟨pending, (ofExcept_eq_ok.1 (mapError_eq_ok.1 hb)).1, (Receive.liftProtocol_eq_ok.1 ha).1⟩

include laws in
theorem removalCommit_noNewcomer {missing : CliError} {device entropy group group' bytes : Bytes} {leaf : UInt32}
    {st st' : Store} (h : Groups.removalCommit pf missing device entropy group st = (.ok (group', leaf, bytes), st')) :
    NoNewcomer pf group group' := by
  unfold Groups.removalCommit at h
  obtain ⟨index, st₁, -, h⟩ := bind_eq_ok.1 h
  obtain ⟨⟨group'', out⟩, st₂, hc, h⟩ := bind_eq_ok.1 h
  obtain ⟨bytes', st₃, -, h⟩ := bind_eq_ok.1 h
  obtain ⟨rfl, -⟩ := Prod.mk.inj (Except.ok.inj (Prod.mk.inj h).1)
  obtain ⟨pending, hb, ha⟩ := commit_ok hc
  exact laws.removal hb ha

include laws in
theorem remove_inStep {c : Conversation} {device : Bytes} {chance : Groups.Chance} {st : Store} (h : InStep pf st) :
    InStep pf (Groups.remove pf s c device chance st).2 := by
  unfold Groups.remove
  split
  · refine bind_snd (fun e st' he => ?_) fun group st' hload => ?_
    · obtain rfl := ends_unchanged (fixes_loadGroup _) he
      exact h
    obtain rfl := ends_unchanged (fixes_loadGroup _) hload
    refine bind_snd (fun e st' he => ?_) fun made st' hmade => ?_
    · obtain rfl := ends_unchanged (fixes_removalCommit _ _ _ _) he
      exact h
    obtain rfl := ends_unchanged (fixes_removalCommit _ _ _ _) hmade
    obtain ⟨group', leaf, bytes⟩ := made
    simp only [delivery, mapError_snd]
    refine unitOfWork_snd h (inStep_store h (loadGroup_derived hload (removalCommit_noNewcomer laws hmade)).2 ?_)
    exact (fixes_enqueueForAll _ _ _ _ _).map standing
  · exact h

theorem fixes_announce {γ : Type} {f : Store → γ} (c : Groups.Chance) (queued : Bool) (group manifest : Bytes) :
    Fixes f (Groups.announce pf c queued group manifest) := by
  unfold Groups.announce
  split
  · exact fixes_pure _
  · exact fixes_bind (fixes_mapError _ (fixes_ofExcept _)) fun _ => fixes_pure _

theorem fixes_enact {γ : Type} {f : Store → γ} (c : Groups.Chance) (remove : Bool) (device group : Bytes) :
    Fixes f (Groups.enact pf c remove device group) := by
  unfold Groups.enact
  split
  · exact fixes_bind (fixes_removalCommit _ _ _ _) fun _ => fixes_pure _
  · exact fixes_pure _

include laws in
theorem announce_noNewcomer {c : Groups.Chance} {queued : Bool} {group manifest group' : Bytes}
    {event : List (Bytes × Groups.Chance)} {st st' : Store}
    (h : Groups.announce pf c queued group manifest st = (.ok (group', event), st')) : NoNewcomer pf group group' := by
  unfold Groups.announce at h
  split at h
  · obtain ⟨rfl, -⟩ := Prod.mk.inj (Except.ok.inj (Prod.mk.inj h).1)
    exact .refl _
  · obtain ⟨⟨group'', bytes⟩, st₁, hm, h⟩ := bind_eq_ok.1 h
    obtain ⟨rfl, -⟩ := Prod.mk.inj (Except.ok.inj (Prod.mk.inj h).1)
    exact laws.encrypt (Receive.liftProtocol_eq_ok.1 hm).1

include laws in
theorem enact_noNewcomer {c : Groups.Chance} {remove : Bool} {device group group' : Bytes}
    {removal : List (Bytes × Groups.Chance)} {st st' : Store}
    (h : Groups.enact pf c remove device group st = (.ok (group', removal), st')) : NoNewcomer pf group group' := by
  unfold Groups.enact at h
  split at h
  · obtain ⟨⟨group'', leaf, bytes⟩, st₁, hc, h⟩ := bind_eq_ok.1 h
    obtain ⟨rfl, -⟩ := Prod.mk.inj (Except.ok.inj (Prod.mk.inj h).1)
    exact removalCommit_noNewcomer laws hc
  · obtain ⟨rfl, -⟩ := Prod.mk.inj (Except.ok.inj (Prod.mk.inj h).1)
    exact .refl _

include laws in
theorem prepareGroup_inStep {chance : Bool → Groups.Chance} {r : Revocation} {manifest : Bytes} {conv : Conversation}
    {st : Store} (h : InStep pf st) : InStep pf (Groups.prepareGroup pf s chance r manifest conv st).2 := by
  unfold Groups.prepareGroup
  rw [bind_ok (read_run _ st)]
  refine bind_snd (fun e st' he => ?_) fun group st' hload => ?_
  · obtain rfl := ends_unchanged (fixes_loadGroup _) he
    exact h
  obtain rfl := ends_unchanged (fixes_loadGroup _) hload
  rw [bind_ok (read_run _ st')]
  simp only
  split
  · exact h
  refine bind_snd (fun e st'' he => ?_) fun announced st'' hann => ?_
  · obtain rfl := ends_unchanged (fixes_announce _ _ _ _) he
    exact h
  obtain rfl := ends_unchanged (fixes_announce _ _ _ _) hann
  refine bind_snd (fun e st' he => ?_) fun enacted st' hen => ?_
  · obtain rfl := ends_unchanged (fixes_enact _ _ _ _) he
    exact h
  obtain rfl := ends_unchanged (fixes_enact _ _ _ _) hen
  have hnew := (announce_noNewcomer laws hann).trans (enact_noNewcomer laws hen)
  simp only [delivery, mapError_snd]
  refine unitOfWork_snd h (inStep_store h (loadGroup_derived hload hnew).2 ?_)
  exact fixes_bind ((fixes_enqueueNotices _ _ _).map standing) fun _ => fixes_modify fun _ => rfl

include laws in
theorem prepare_inStep (chance : (device group : Bytes) → Bool → Groups.Chance) :
    Prog.Keeps (fun st st' => InStep pf st → InStep pf st') (Groups.prepare pf s chance) := by
  have htrans : ∀ a b c : Store, (InStep pf a → InStep pf b) → (InStep pf b → InStep pf c) → InStep pf a → InStep pf c :=
    fun _ _ _ hab hbc ha => hbc (hab ha)
  refine keeps_bind htrans (keeps_read (fun _ => id) _) fun revs => keeps_forEach (fun _ => id) htrans _ fun r _ => ?_
  refine keeps_bind htrans (keeps_read (fun _ => id) _) fun _ => keeps_bind htrans (keeps_ofOption (fun _ => id) _ _)
    fun manifest => keeps_bind htrans (keeps_read (fun _ => id) _) fun convs =>
    keeps_forEach (fun _ => id) htrans _ fun conv _ => ?_
  exact fun st h => prepareGroup_inStep laws h

/-- A group that a message brings: the one a Welcome lets this device join, or one
after a handshake. -/
def BroughtBy (pf : Platform) (msg : MlsMessage) (st : Store) (group : Bytes) : Prop :=
  (msg.wireFormat = .welcome ∧ ∃ used, pf.mlsJoin st.mlsKeyPackages.rows msg = .ok (group, used)) ∨
    ∃ gid received, Receive.Opened pf msg st gid group received ∧
      ∀ leaf data, received ≠ .applicationMessage leaf data

def Accepts (cx : Crypto) (st : Store) (signed : Bytes) (body : DeviceManifest) : Prop :=
  ∃ root known state, Identity.acceptManifest cx signed root known = .ok (body, state) ∧
    ((rootPublic st = some root ∧ known = manifestState st) ∨
      ∃ id, (peerRoot st id).bind (Identity.verifyingKey cx) = some root ∧ known = peerManifestState st id)

theorem inStep_peerAccepted {id signed : Bytes} {carrier : Option Bytes} {st st' : Store}
    (ha : Receive.PeerAccepted pf.crypto id signed carrier st st') (h : InStep pf st)
    (hm : ∀ body, Accepts pf.crypto st signed body → MarksCovered pf st body.revokedCredentialHashes) :
    InStep pf st' := by
  obtain ⟨root, body, state, manifests, t, hroot, hacc, -, rfl⟩ := ha
  have hsaved : InStep pf { st with peerManifests := manifests } := h.congr rfl
  exact (inStep_markAll hsaved (hm body ⟨root, _, state, hacc, Or.inr ⟨id, hroot, rfl⟩⟩)).congr rfl

theorem inStep_manifestAcceptOwn {signed : Bytes} {st : Store} (h : InStep pf st)
    (hm : ∀ body, Accepts pf.crypto st signed body → MarksCovered pf st body.revokedCredentialHashes) :
    InStep pf (manifestAcceptOwn pf.crypto signed st).2 := by
  rcases manifestAcceptOwn_cases pf.crypto signed st with ⟨e, he⟩ | ⟨root, body, m, hroot, hacc, -, hrun⟩
  · rw [he]
    exact h
  · rw [hrun]
    have hsaved : InStep pf { st with manifest := m } := h.congr rfl
    exact inStep_markAll hsaved (hm body ⟨root, _, _, hacc, Or.inl ⟨hroot, rfl⟩⟩)

theorem sentBy_derived (laws : MlsLaws pf) {msg : MlsMessage} {st : Store} {gid group : Bytes} {leaf : UInt32}
    {ev : AppEvent} (h : Receive.SentBy pf msg st gid group leaf ev) : Derived pf st group := by
  obtain ⟨data, ⟨-, -, -, row, hrow, hproc⟩, -⟩ := h
  exact ⟨row, (Table.get?_eq_some.1 hrow).1, laws.application hproc⟩

theorem sentBy_inStep (laws : MlsLaws pf) {msg : MlsMessage} {st : Store} {gid group : Bytes} {leaf : UInt32}
    {ev : AppEvent} (hs : Receive.SentBy pf msg st gid group leaf ev) (h : InStep pf st) :
    InStep pf (pf.writeGroup group none st) := inStep_writeGroup h (covers_of_derived h (sentBy_derived laws hs))

theorem rosterPeers_noNews {lines : List Bytes} {ps : List Peer} (h : Receive.rosterPeers pf s lines = .ok ps)
    (st : Store) (gid : Bytes) : SavesNoNews st gid ps := by
  intro q hq hr
  obtain ⟨line, -, r, -, rfl⟩ := Receive.rosterPeers_mem h hq
  cases hr

/-- What a manifest in a message revokes is covered. -/
def ManifestCovered (pf : Platform) (msg : MlsMessage) (st : Store) : Prop :=
  ∀ gid group leaf ev body, Receive.SentBy pf msg st gid group leaf ev → Receive.appKind ev.kind = .manifest →
    Accepts pf.crypto st ev.body body → MarksCovered pf st body.revokedCredentialHashes

theorem effect_inStep (laws : MlsLaws pf) {now : Int} {msg : MlsMessage} {deliveryId : Bytes} {st st' : Store}
    (he : Receive.Effect pf s now msg deliveryId st st') (h : InStep pf st)
    (hg : ∀ group, BroughtBy pf msg st group → Covers pf st group) (hm : ManifestCovered pf msg st) : InStep pf st' := by
  cases he with
  | @joined group used hw hj =>
    have hwritten : InStep pf (pf.writeGroup group used st) := inStep_writeGroup h (hg group (Or.inl ⟨hw, used, hj⟩))
    exact hwritten.congr rfl
  | dropped hf hgid hd => exact h
  | @handshake gid group received ho hn => exact inStep_writeGroup h (hg group (Or.inr ⟨gid, received, ho, hn⟩))
  | unknown hs hk => exact sentBy_inStep laws hs h
  | @roster gid group leaf ev ch st' hs hk hr =>
    obtain ⟨peers, contacts, hp, -, rfl⟩ := Receive.handleRoster_ok hr
    have hwritten := sentBy_inStep laws hs h
    have hsaved : InStep pf (savePeers gid peers (saveConversationRow now gid false
        { pf.writeGroup group none st with contacts := contacts })) :=
      inStep_savePeers (hwritten.congr rfl) (rosterPeers_noNews hp _ _)
    refine hsaved.congr ?_
    unfold Receive.classified
    split
    · split
      · rfl
      · split <;> rfl
    · rfl
  | @manifest gid group leaf ev ch st' hs hk hr =>
    have hd := sentBy_derived laws hs
    have hwritten := sentBy_inStep laws hs h
    have hmarks : ∀ body, Accepts pf.crypto (pf.writeGroup group none st) ev.body body →
        MarksCovered pf (pf.writeGroup group none st) body.revokedCredentialHashes :=
      fun body hacc gid' d hl hin => hm gid group leaf ev body hs hk hacc gid' d (leaf_writeGroup h hd hl) hin
    rcases Receive.handleManifest_ok hr with ⟨id, -, -, ha⟩ | ⟨r, ha⟩
    · exact inStep_peerAccepted ha hwritten hmarks
    · have := inStep_manifestAcceptOwn hwritten hmarks
      rwa [ha] at this
  | text hs hk hr =>
    obtain ⟨t, -, rfl⟩ := Receive.handleText_ok hr
    exact (sentBy_inStep laws hs h).congr rfl
  | file hs hk hr =>
    obtain ⟨t, -, rfl⟩ := Receive.handleFile_ok hr
    exact (sentBy_inStep laws hs h).congr rfl
  | hello hs hk hr =>
    have hwritten := sentBy_inStep laws hs h
    unfold Receive.handleHello at hr
    rw [bind_ok (Receive.eventSender_run ..)] at hr
    obtain ⟨hello, -, ⟨-, rfl⟩ | ⟨-, hellos, name, rfl | ⟨k, c, -, -, -, rfl⟩⟩⟩ := Receive.receiveHello_ok hr
    all_goals exact hwritten.congr rfl

/-- A step keeps the conversations in step: a group that comes in has no leaf whose
revocation its own conversation does not know, a revocation reaches the device in
every conversation it holds a leaf in, and nobody is saved as revoked who was not. -/
def KeepsStep (pf : Platform) (s : Session) (w : World) : Act → Prop
  | .receive _ mailbox item => ∀ msg, Receive.openedMessage pf s mailbox item = .ok msg →
      (∀ group, BroughtBy pf msg w.store group → Covers pf w.store group) ∧ ManifestCovered pf msg w.store
  | .refresh _ signed => ∀ body, Accepts pf.crypto w.store signed body →
      MarksCovered pf w.store body.revokedCredentialHashes
  | .deviceRevoke device => ∀ d ∈ w.store.identityDevices, d.deviceId = device →
      MarksCovered pf w.store [d.credentialHash]
  | .storeGroup group => Covers pf w.store group
  | .saveConversation _ c => SavesNoNews w.store c.groupId c.peers
  | _ => True

theorem inStep_deviceAuthorize {device : DevicePublicKeys} {now : UInt64} {st : Store} (h : InStep pf st) :
    InStep pf (Client.deviceAuthorize pf.crypto device now st).2 := by
  rcases deviceAuthorize_cases pf.crypto device now st with ⟨e, he⟩ | ⟨seed, body, m, -, -, -, -, hrun⟩
  · rw [he]
    exact h
  · rw [hrun]
    refine ⟨fun gid d hl hr => h.flagged gid d hl ?_, h.filed⟩
    rw [deviceRevoked_iff] at hr ⊢
    refine hr.imp_right fun ⟨o, ho, hod, hor⟩ => ?_
    rcases Table.mem_replace.1 ho with ⟨hold, -⟩ | rfl
    · exact ⟨o, hold, hod, hor⟩
    · cases hor

def quiet : Act → Bool
  | .settleInPerson .. | .settle .. | .publish .. | .acknowledge .. | .setCursor .. | .ask .. | .answer ..
  | .cardCreate .. | .cardRevoke .. | .contactVerified .. | .contactRouteSave .. | .contactRename ..
  | .invitationOperationSave .. => true
  | _ => false

theorem standing_contactBlind : ContactBlind standing := fun _ _ _ => rfl

theorem step_quiet {a : Act} (hq : quiet a = true) (w : World) :
    standing (Act.step pf s w a).store = standing w.store := by
  cases a <;> try cases hq
  case settleInPerson relay now =>
    have := congrArg standing (@step_settling pf s _ (Or.inl ⟨relay, now, rfl⟩) w)
    exact this
  case settle relay now =>
    have := congrArg standing (@step_settling pf s _ (Or.inr (Or.inl ⟨relay, now, rfl⟩)) w)
    exact this
  case answer gid accept =>
    have := congrArg standing (@step_settling pf s _ (Or.inr (Or.inr ⟨gid, accept, rfl⟩)) w)
    exact this
  case publish relay expiry =>
    exact fixes_bind ((fixes_publishPending relay expiry).map standing) (fun _ => fixes_pure _) w
  case acknowledge relay m => exact (fixes_acknowledge relay m).map standing w
  case setCursor mailbox cursor => rfl
  case ask relay payload => exact fixes_bind (fixes_request relay payload) (fun _ => fixes_pure _) w
  case cardCreate kind secret now =>
    have hcard : Fixes standing (Client.cardCreate kind secret now) := (fixes_cardCreate kind secret now).map standing
    exact fixes_bind (fixes_onStore (fixes_storage hcard)) (fun _ => fixes_pure _) w
  case cardRevoke secret =>
    have hcard : Fixes standing (Client.cardRevoke secret) := (fixes_cardRevoke secret).map standing
    exact fixes_bind (fixes_onStore (fixes_storage hcard)) (fun _ => fixes_pure _) w
  case contactVerified identity how now => exact fixes_storage (fixes_updateKnownContact standing_contactBlind) w.store
  case contactRouteSave identity device route =>
    exact fixes_storage (fixes_contactRouteSave standing_contactBlind identity device route) w.store
  case contactRename identity name =>
    exact fixes_storage (fixes_contactRename standing_contactBlind identity name) w.store
  case invitationOperationSave operation => rfl

theorem inStep_deviceRevoke {device : Bytes} {st : Store} (h : InStep pf st)
    (hm : ∀ d ∈ st.identityDevices, d.deviceId = device → MarksCovered pf st [d.credentialHash]) :
    InStep pf (Client.deviceRevoke pf.crypto device st).2 := by
  rcases hrun : Client.deviceRevoke pf.crypto device st with ⟨r, st'⟩
  cases r with
  | error e =>
    rw [deviceRevoke_error _ hrun]
    exact h
  | ok r =>
    obtain ⟨seed, root, d, row, body, -, -, hd, hdev, -, -, ⟨-, rfl⟩ | ⟨-, mbody, m, -, -, rfl⟩⟩ :=
      deviceRevoke_ok _ hrun
    · rw [revocationStart_eq]
      exact (inStep_markAll h (hm d hd hdev)).congr rfl
    · rw [revocationStart_eq]
      have hsaved : InStep pf { st with manifest := m } := h.congr rfl
      exact (inStep_markAll hsaved (hm d hd hdev)).congr rfl

theorem step_inStep (laws : MlsLaws pf) {w : World} {a : Act} (hk : KeepsStep pf s w a) (h : InStep pf w.store) :
    InStep pf (Act.step pf s w a).store := by
  by_cases hq : quiet a = true
  · exact h.congr (step_quiet hq w)
  cases a <;> try exact absurd rfl hq
  case receive now mailbox item =>
    rw [step_receive]
    rcases Receive.receiveUnit_cases pf s now mailbox item w.store with
      ⟨e, he⟩ | ⟨-, hdup⟩ | ⟨t, msg, ch, st', hi, hmsg, heff, hrun⟩
    · rw [he]
      exact h
    · rw [hdup]
      exact h
    · rw [hrun]
      obtain ⟨hg, hm⟩ := hk msg hmsg
      refine effect_inStep laws heff (h.congr rfl) (fun group hb => hg group ?_) fun gid group leaf ev body hs => ?_
      · rcases hb with hw | ⟨gid, received, ⟨hf, hgid, ht, hp⟩, hn⟩
        · exact Or.inl hw
        · exact Or.inr ⟨gid, received, ⟨hf, hgid, ht, hp⟩, hn⟩
      · exact hm gid group leaf ev body (sentBy_inbox hs)
  case refresh identity signed =>
    rw [step_refresh]
    by_cases hown : identity = s.identityId
    · rw [if_pos hown]
      exact inStep_manifestAcceptOwn h hk
    · rw [if_neg hown]
      rcases hrun : Sync.refreshPeer pf identity signed w.store with ⟨r, st'⟩
      cases r with
      | ok r => exact inStep_peerAccepted (Receive.refreshPeer_ok hrun) h hk
      | error e =>
        rw [unitOfWork_error hrun]
        exact h
  case saveConversation createdAt c =>
    rw [step_saveConversation]
    obtain ⟨ct, -, ⟨e, he⟩ | hok⟩ := conversationSave_cases createdAt c w.store
    · rw [he]
      exact h.congr rfl
    · rw [hok]
      exact inStep_savePeers (h.congr rfl) hk
  case queueText c text eventId entropy order draws =>
    rw [step_queueText]
    exact queueText_inStep laws h
  case storeGroup group => exact inStep_writeGroup h hk
  case remove c device chance =>
    unfold Act.step Act.run
    rw [bind_pure_snd]
    exact remove_inStep laws h
  case prepare chance => exact prepare_inStep laws chance w.store h
  case deviceAuthorize device now =>
    unfold Act.step Act.run
    rw [bind_pure_snd]
    show InStep pf (storage "device" (Client.deviceAuthorize pf.crypto device now) w.store).2
    rw [storage, mapError_snd]
    exact inStep_deviceAuthorize h
  case deviceRevoke device =>
    rw [step_deviceRevoke]
    exact inStep_deviceRevoke h hk

/-- In every run that starts in step and whose acts keep the conversations in step,
nothing is sent to a group that holds a device known to be revoked. -/
theorem guard_answers_for_its_group (laws : MlsLaws pf) (w : World) (acts : List Act) (h : InStep pf w.store)
    (hm : Trace.Meets (Act.step pf s) (KeepsStep pf s) w acts) :
    Guarded pf (Trace.run (Act.step pf s) w acts).store :=
  guarded_of_inStep (Trace.invariant (I := fun w => InStep pf w.store) (fun _ _ hk h => step_inStep laws hk h) hm h)

section demo

open Demo

def demoGroup : Group := ⟨[6], 1, 0, [⟨0, some [9], publicKey [9, 2]⟩, ⟨1, some [2], publicKey [2, 2]⟩]⟩

def demoPeer : Peer := ⟨identityOf 2, [2], [2, 3], publicKey [2], some [12], some [22], some (publicKey [2, 1]), false⟩

def demoWorld : World where
  store := { profile.store with
    mlsGroups := ⟨[⟨[6], group.write demoGroup⟩], by simp⟩
    conversations := ⟨[⟨[6], true, 1, none, none, .none, none⟩], by simp⟩
    peers := ⟨[peerRow [6] demoPeer], by simp⟩ }
  sent := []

/-- Identity 2 revokes its device. -/
def demoManifest : Bytes := Identity.issueManifest crypto [2] none [] [[2, 3]]

/-- Identity 66, which has not heard of it, starts conversation 7 with both. -/
def demoWelcome : MlsMessage :=
  ⟨.welcome, none, welcome.write ([5], ⟨[7], 1, 0, [⟨0, some [9], publicKey [9, 2]⟩, ⟨1, some [66], publicKey [66, 2]⟩,
    ⟨2, some [2], publicKey [2, 2]⟩]⟩)⟩

def demoActs : List Act :=
  [.refresh (identityOf 2) demoManifest, .receive 3 [8] (item 1 1 demoWelcome),
    .receive 4 [8] (item 2 2 (eventFrom [7] 1 "roster" (routeOf 2 2 12 22)))]

theorem guardRevoked_pass {conv : Conversation} {group : Bytes} (h : revokedLeaves pf conv group = []) (st : Store) :
    guardRevoked pf conv group st = (.ok (), st) := by
  unfold guardRevoked
  rw [h]
  rfl

theorem demoWorld_inStep : InStep platform demoWorld.store := by
  refine ⟨fun gid d _ hr => ?_, fun row hrow => ?_⟩
  · obtain ⟨p, hp, -, hpr⟩ | ⟨o, ho, -⟩ := deviceRevoked_iff.1 hr
    · rw [List.mem_singleton.1 hp] at hpr
      cases hpr
    · cases ho
  · rw [List.mem_singleton.1 hrow]
    decide +kernel

theorem not_guarded {st : Store} (device : Bytes)
    (h : ∃ conv ∈ conversations st, ∃ row ∈ st.mlsGroups.rows, row.groupId = conv.groupId ∧
      revokedLeaves pf conv row.state = [] ∧ (∃ m ∈ pf.mlsRoster row.state, m.deviceId = some device) ∧
      deviceRevoked st device = true) : ¬ Guarded pf st := by
  intro hguarded
  obtain ⟨conv, hconv, row, hrow, hgid, hpass, ⟨m, hm, hd⟩, hrev⟩ := h
  have hget : st.mlsGroups.get? conv.groupId = some row := Table.get?_eq_some.2 ⟨hrow, hgid⟩
  rw [hguarded conv hconv row hget (guardRevoked_pass hpass st) m hm device hd] at hrev
  cases hrev

/-- The device stands revoked in conversation 6, holds a leaf of group 7, and the
guard lets a message to group 7 pass. -/
theorem newcomer_was_revoked_elsewhere :
    ¬ ∀ acts, Guarded platform (Trace.run (Act.step platform (sessionOf 9)) demoWorld acts).store := by
  intro hall
  exact not_guarded [2] (by decide +kernel) (hall demoActs)

theorem groupOf_write (g : Group) : groupOf (group.write g) = g := by
  unfold groupOf
  rw [group.decode_write]
  rfl

theorem platform_laws : MlsLaws platform where
  encrypt h := by
    obtain ⟨rfl, -⟩ := Prod.mk.inj (Except.ok.inj h)
    exact .refl _
  application {revoked group msg group' leaf data} h := by
    simp only [platform, process] at h
    split at h
    · cases h
    · split at h
      · obtain ⟨rfl, -⟩ := Prod.mk.inj (Except.ok.inj h)
        exact .refl _
      · cases h
    · split at h <;> simp at h
  removal {entropy group removes pending out group'} hb ha := by
    obtain rfl := Except.ok.inj ha
    simp only [platform, build] at hb
    split at hb
    · cases hb
    · obtain ⟨rfl, -⟩ := Prod.mk.inj (Except.ok.inj hb)
      refine ⟨by simp only [platform, groupOf_write], fun m hm => ⟨m, ?_, rfl⟩⟩
      simp only [platform, groupOf_write, List.zipIdx_nil, List.filterMap_nil, List.append_nil] at hm
      exact (List.mem_filter.1 hm).1

/-- The revocation reaches the conversation the device is in. -/
theorem device_revoked_where_it_talks :
    Guarded platform (Trace.run (Act.step platform (sessionOf 9)) demoWorld [.refresh (identityOf 2) demoManifest]).store := by
  refine guard_answers_for_its_group platform_laws demoWorld _ demoWorld_inStep ⟨fun body hacc gid d hl hin => ?_, trivial⟩
  obtain ⟨root, known, state, hacc, -⟩ := hacc
  have hpeek := (Identity.peekManifest_of_verify (Identity.acceptManifest_ok hacc).1).1
  have hbody : (Identity.peekManifest crypto demoManifest).map (·.revokedCredentialHashes) = some [[2, 3]] := by
    decide +kernel
  rw [show platform.crypto = crypto from rfl] at hpeek
  rw [hpeek] at hbody
  obtain ⟨row, hrow, rfl, -⟩ := hl
  rw [List.mem_singleton.1 hrow]
  rcases hin with ⟨p, hp, rfl, -⟩ | ⟨o, ho, -⟩
  · rw [List.mem_singleton.1 hp]
    refine ⟨peerRow [6] demoPeer, List.mem_singleton_self _, rfl, rfl, Or.inr ?_⟩
    have hrevoked : body.revokedCredentialHashes = [[2, 3]] := Option.some.inj hbody
    rw [hrevoked]
    exact List.mem_singleton_self _
  · cases ho

end demo

end Arveil.Guard

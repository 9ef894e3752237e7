import Mathlib.Data.List.Dedup
import Arveil.Proofs.Attribution
import Arveil.Sanity.Platform

/-! The notices of a device change. A manifest commits together with one notice for
each shared conversation, and the id of a notice is a hash anyone can compute. Ids of
received messages are chosen by their senders and stand in the same unique column, so
a manifest is taken exactly when nobody holds the ids of its notices. -/

namespace Arveil.Notices

open Client Delivery Receive Prog

variable {pf : Platform} {s : Session}

/-- A manifest of a peer and its notices in one unit; `carrier` is the device that sent
it to a group. -/
def acceptUnit (pf : Platform) (id signed : Bytes) (carrier : Option Bytes) : Client (DeviceManifest × Bool) :=
  unitOfWork do
    let (body, new, change) ← peerManifestAccept pf.crypto id signed
    Prog.when (new = true) (recordDeviceNotices pf id body.manifestSequence change carrier)
    pure (body, new)

theorem refreshPeer_eq (id signed : Bytes) : Sync.refreshPeer pf id signed = acceptUnit pf id signed none := rfl

theorem acceptGroupManifest_ok_iff {group gid body id : Bytes} {leaf : UInt32} {st st' : Store}
    {r : DeviceManifest × Bool} (hid : Identity.manifestIdentityUnverified pf.crypto body = some id)
    (hown : id ≠ s.identityId) :
    acceptGroupManifest pf s group gid leaf body st = (.ok r, st') ↔
      acceptUnit pf id body ((pf.memberAtIndex group leaf).bind (·.deviceId)) st = (.ok r, st') := by
  have hcarrier (st : Store) : (senderOf pf group gid leaf st).bind (·.deviceId) =
      (pf.memberAtIndex group leaf).bind (·.deviceId) := by
    unfold senderOf
    cases (pf.memberAtIndex group leaf).bind (·.deviceId) <;> rfl
  unfold acceptGroupManifest acceptUnit
  simp only [hid]
  rw [if_pos hown, unitOfWork_eq_ok, bind_eq_ok, bind_eq_ok]
  refine exists_congr fun found => exists_congr fun st₁ => and_congr domain_eq_ok ?_
  obtain ⟨m, new, change⟩ := found
  by_cases hnew : new = true
  · simp only [when_pos hnew]
    rw [bind_eq_ok, bind_eq_ok]
    refine exists_congr fun u => exists_congr fun st₂ => and_congr ?_ (by simp only [pure_run, Prod.mk.injEq, Except.ok.injEq])
    rw [bind_ok (eventSender_run ..), storage_eq_ok, hcarrier]
  · simp only [when_neg hnew, bind_run, pure_run, Prod.mk.injEq, Except.ok.injEq]

/-- A genuine manifest of the identity that is newer than the recorded one. -/
structure Newer (cx : Crypto) (st : Store) (id signed : Bytes) (body : DeviceManifest) : Prop where
  accepted : ∃ root state, (peerRoot st id).bind (Identity.verifyingKey cx) = some root ∧
    Identity.acceptManifest cx signed root (peerManifestState st id) = .ok (body, state)
  newer : ∀ k, peerManifestState st id = some k → k.sequence < body.manifestSequence

def noticeId (pf : Platform) (id : Bytes) (body : DeviceManifest) (group : Bytes) : Bytes :=
  noticeEventId pf.crypto id body.manifestSequence group

def notice (pf : Platform) (st : Store) (id : Bytes) (body : DeviceManifest) (carrier : Option Bytes) (group : Bytes) :
    EventRow :=
  ⟨group, noticeId pf id body group, .devicesChanged, pf.encodeChange (announcedChange pf.crypto id body st), carrier,
    some id⟩

/-- The conversations that are told: all that are shared, if the active devices changed. -/
def toldGroups (pf : Platform) (st : Store) (id : Bytes) (body : DeviceManifest) : List Bytes :=
  if (announcedChange pf.crypto id body st).isEmpty then [] else groupsWithIdentity st id

/-- The manifest is taken, and one notice for each of these conversations is recorded,
nothing else. -/
def Told (pf : Platform) (st : Store) (id signed : Bytes) (body : DeviceManifest) (carrier : Option Bytes) : Prop :=
  ∃ st', acceptUnit pf id signed carrier st = (.ok (body, true), st') ∧
    peerManifestState st' id = some ⟨body.manifestSequence, Identity.manifestHash pf.crypto signed⟩ ∧
    st'.events.rows = st.events.rows ++ (toldGroups pf st id body).map (notice pf st id body carrier)

/-- No event stands under the id of a notice of this manifest. -/
def IdsFree (pf : Platform) (st : Store) (id : Bytes) (body : DeviceManifest) : Prop :=
  ∀ g ∈ toldGroups pf st id body, ∀ e ∈ st.events, e.eventId ≠ noticeId pf id body g

/-- The hash tells the shared conversations apart. -/
def NoCollision (pf : Platform) (st : Store) (id : Bytes) (body : DeviceManifest) : Prop :=
  ∀ g ∈ groupsWithIdentity st id, ∀ g' ∈ groupsWithIdentity st id, noticeId pf id body g = noticeId pf id body g' → g = g'

theorem groupsWithIdentity_nodup (st : Store) (id : Bytes) : (groupsWithIdentity st id).Nodup :=
  ((List.perm_insertionSort _ _).nodup_iff).2 (List.nodup_dedup _)

theorem groupsWithIdentity_markAll (hashes : List Bytes) (st : Store) (id : Bytes) :
    groupsWithIdentity (markAll hashes st) id = groupsWithIdentity st id := by
  have hrows : ∀ rows : List PeerRow,
      ((rows.map fun p => if p.credentialHash ∈ hashes then { p with revoked := true } else p).filter
        fun p => p.peerIdentity = id).map (·.groupId) = (rows.filter fun p => p.peerIdentity = id).map (·.groupId) := by
    intro rows
    induction rows with
    | nil => rfl
    | cons p rows ih =>
      have hid : (if p.credentialHash ∈ hashes then { p with revoked := true } else p).peerIdentity = p.peerIdentity := by
        split <;> rfl
      have hgid : (if p.credentialHash ∈ hashes then { p with revoked := true } else p).groupId = p.groupId := by
        split <;> rfl
      simp only [List.map_cons, List.filter_cons, hid]
      split
      · simp only [List.map_cons, hgid, ih]
      · exact ih
  unfold groupsWithIdentity
  rw [markAll_peers, hrows]

def record (row : EventRow) : Client Unit := insertInto "events.event_id" (·.events) ({ · with events := · }) row

theorem record_run (row : EventRow) (st : Store) :
    record row st = match st.events.insert row with
      | some t => (.ok (), { st with events := t })
      | none => (.error (.sqlite (.constraint "events.event_id")), st) := by
  unfold record
  rw [insertInto_run]
  cases st.events.insert row <;> rfl

/-- Rows with distinct new ids are recorded one after another exactly when no id is taken. -/
theorem forEach_record {row : Bytes → EventRow} {groups : List Bytes} (hn : (groups.map fun g => (row g).eventId).Nodup)
    {st : Store} : (∃ st', forEach groups (fun g => record (row g)) st = (.ok (), st')) ↔
      ∀ g ∈ groups, ∀ e ∈ st.events, e.eventId ≠ (row g).eventId := by
  induction groups generalizing st with
  | nil => exact ⟨fun _ g hg => absurd hg List.not_mem_nil, fun _ => ⟨st, rfl⟩⟩
  | cons g groups ih =>
    rw [List.map_cons, List.nodup_cons] at hn
    have hrun := record_run (row g) st
    rw [forEach_cons]
    cases hi : st.events.insert (row g) with
    | none =>
      rw [hi] at hrun
      rw [bind_error hrun]
      obtain ⟨e, he, hk⟩ := Table.insert_eq_none.1 hi
      constructor
      · rintro ⟨st', h⟩
        cases h
      · intro h
        exact absurd hk (h g List.mem_cons_self e he)
    | some t =>
      rw [hi] at hrun
      rw [bind_ok hrun, ih hn.2, List.forall_mem_cons]
      obtain ⟨-, hfree⟩ := Table.insert_eq_some hi
      constructor
      · intro h
        exact ⟨hfree, fun g' hg' e he => h g' hg' e ((Table.mem_insert hi).2 (Or.inl he))⟩
      · rintro ⟨-, h⟩ g' hg' e he
        rcases (Table.mem_insert hi).1 he with hold | rfl
        · exact h g' hg' e hold
        · intro heq
          exact hn.1 (List.mem_map.2 ⟨g', hg', heq.symm⟩)

theorem forEach_recorded {row : Bytes → EventRow} {groups : List Bytes} {st st' : Store}
    (h : forEach groups (fun g => record (row g)) st = (.ok (), st')) :
    ∃ t, st' = { st with events := t } ∧ t.rows = st.events.rows ++ groups.map row := by
  induction groups generalizing st with
  | nil => exact ⟨st.events, (Prod.mk.inj h).2.symm, by simp⟩
  | cons g groups ih =>
    rw [forEach_cons] at h
    obtain ⟨u, st₁, h1, h⟩ := bind_eq_ok.1 h
    rw [record_run] at h1
    cases hi : st.events.insert (row g) with
    | none => simp [hi] at h1
    | some t =>
      simp only [hi, Prod.mk.injEq, true_and] at h1
      obtain rfl := h1
      obtain ⟨t', rfl, ht'⟩ := ih h
      exact ⟨t', rfl, by rw [ht', (Table.insert_eq_some hi).1]; simp⟩

def taken (pf : Platform) (id signed : Bytes) (body : DeviceManifest) (st : Store) : Store :=
  markAll body.revokedCredentialHashes (recordedPeerManifest pf.crypto id signed body st)

theorem taken_events (id signed : Bytes) (body : DeviceManifest) (st : Store) :
    (taken pf id signed body st).events = st.events := by
  unfold taken
  rw [markAll_eq]
  rfl

theorem taken_groups (id signed : Bytes) (body : DeviceManifest) (st : Store) :
    groupsWithIdentity (taken pf id signed body st) id = groupsWithIdentity st id :=
  groupsWithIdentity_markAll _ _ _

theorem taken_state (id signed : Bytes) (body : DeviceManifest) (st : Store) :
    peerManifestState (taken pf id signed body st) id =
      some ⟨body.manifestSequence, Identity.manifestHash pf.crypto signed⟩ := by
  unfold taken peerManifestState
  rw [markAll_eq]
  simp only [recordedPeerManifest, savePeerManifest, Table.get?_upsert, if_true]
  cases st.peerManifests.get? id <;> simp

theorem accept_newer {st : Store} {id signed : Bytes} {body : DeviceManifest} (h : Newer pf.crypto st id signed body) :
    peerManifestAccept pf.crypto id signed st =
      (.ok (body, true, announcedChange pf.crypto id body st), taken pf id signed body st) := by
  obtain ⟨⟨root, state, hroot, hacc⟩, hnewer⟩ := h
  have hnew : (peerManifestState st id).map (·.sequence) ≠ some body.manifestSequence := by
    intro he
    obtain ⟨k, hk, hseq⟩ := Option.map_eq_some_iff.1 he
    exact absurd (hnewer k hk) (by rw [hseq]; exact UInt64.lt_irrefl _)
  rcases peerManifestAccept_cases pf.crypto id signed st with ⟨e, he⟩ | ⟨root', body', hroot', hacc', hrun⟩
  · -- nothing is left that could fail
    obtain ⟨bytes, hbytes, hkey⟩ := Option.bind_eq_some_iff.1 hroot
    obtain ⟨n, hmark⟩ := peersMarkRevoked_run body.revokedCredentialHashes
      (recordedPeerManifest pf.crypto id signed body st)
    obtain rfl := (Identity.acceptManifest_ok hacc).2.1
    unfold peerManifestAccept at he
    simp only [bind_run, read_run, hbytes, ofOption_some, hkey, hacc, liftIdentity_ok, when_pos hnew, modify_run] at he
    unfold recordedPeerManifest at hmark
    simp [hmark] at he
  · obtain rfl := Option.some.inj (hroot.symm.trans hroot')
    rw [hacc] at hacc'
    obtain ⟨rfl, -⟩ := Prod.mk.inj (Except.ok.inj hacc')
    rw [hrun, if_pos hnew, decide_eq_true hnew]
    rfl

theorem acceptUnit_newer {st : Store} {id signed : Bytes} {body : DeviceManifest} {carrier : Option Bytes}
    (h : Newer pf.crypto st id signed body) (r : DeviceManifest × Bool) (st' : Store) :
    acceptUnit pf id signed carrier st = (.ok r, st') ↔ r = (body, true) ∧
      forEach (toldGroups pf st id body) (fun g => record (notice pf st id body carrier g)) (taken pf id signed body st) =
        (.ok (), st') := by
  have hnotices : recordDeviceNotices pf id body.manifestSequence (announcedChange pf.crypto id body st) carrier
      (taken pf id signed body st) =
        forEach (toldGroups pf st id body) (fun g => record (notice pf st id body carrier g)) (taken pf id signed body st) := by
    unfold recordDeviceNotices toldGroups
    split
    · rfl
    · rw [bind_ok (read_run _ _), taken_groups]
      rfl
  unfold acceptUnit
  rw [unitOfWork_eq_ok, bind_ok (accept_newer h)]
  simp only [when_pos]
  rw [bind_eq_ok, hnotices]
  constructor
  · rintro ⟨_, st₁, hrun, hend⟩
    obtain ⟨hr, rfl⟩ := Prod.mk.inj hend
    exact ⟨(Except.ok.inj hr).symm, hrun⟩
  · rintro ⟨rfl, hrun⟩
    exact ⟨(), st', hrun, rfl⟩

theorem told_iff {st : Store} {id signed : Bytes} {body : DeviceManifest} {carrier : Option Bytes}
    (h : Newer pf.crypto st id signed body) (hsha : NoCollision pf st id body) :
    Told pf st id signed body carrier ↔ IdsFree pf st id body := by
  have hids : ((toldGroups pf st id body).map fun g => (notice pf st id body carrier g).eventId).Nodup := by
    unfold toldGroups
    split
    · exact List.nodup_nil
    · exact (groupsWithIdentity_nodup st id).map_on hsha
  have hfree : (∃ st', forEach (toldGroups pf st id body) (fun g => record (notice pf st id body carrier g))
      (taken pf id signed body st) = (.ok (), st')) ↔ IdsFree pf st id body := by
    rw [forEach_record hids, taken_events]
    rfl
  rw [← hfree]
  constructor
  · rintro ⟨st', hrun, -⟩
    exact ⟨st', ((acceptUnit_newer h _ st').1 hrun).2⟩
  · rintro ⟨st', hrun⟩
    obtain ⟨t, rfl, ht⟩ := forEach_recorded hrun
    rw [taken_events] at ht
    exact ⟨_, (acceptUnit_newer h _ _).2 ⟨rfl, hrun⟩, taken_state id signed body st, ht⟩

/-- A message or a file whose id is none of these; what is no message of a group
records nothing. -/
def Avoids (pf : Platform) (s : Session) (ids : Bytes → Prop) (w : World) : Act → Prop
  | .receive _ mailbox item => ¬ ids item.deliveryId ∧ ∀ msg gid group leaf ev, openedMessage pf s mailbox item = .ok msg →
      SentBy pf msg w.store gid group leaf ev → appKind ev.kind = .text ∨ appKind ev.kind = .file
  | _ => False

theorem step_free {ids : Bytes → Prop} {w : World} {a : Act} (ha : Avoids pf s ids w a)
    (h : ∀ e ∈ w.store.events, ¬ ids e.eventId) : ∀ e ∈ (Act.step pf s w a).store.events, ¬ ids e.eventId := by
  cases a <;> try exact ha.elim
  case receive now mailbox item =>
    obtain ⟨hid, hkind⟩ := ha
    intro e he
    rcases Attribution.step_events he with hold | hnew
    · exact h e hold
    · cases hnew with
      | message hm hs hk => exact hid
      | notice hb hroot hv hk hsi =>
        rcases hb with hb | ⟨now', mailbox', item', msg, gid, group, leaf, ev, hb, hm, hs, hmanifest, -⟩
        · cases hb
        · obtain ⟨rfl, rfl, rfl⟩ := Act.receive.inj hb
          rcases hkind msg gid group leaf ev hm hs with hk' | hk' <;> simp [hmanifest] at hk'

/-- A newer manifest of a peer is taken with its notices exactly when no event stands
under the id of one of them; and after any messages and files that do not carry such
an id it is, whoever sent them. -/
theorem manifest_taken_iff_ids_free (w : World) (acts : List Act) (id signed : Bytes) (body : DeviceManifest)
    (carrier : Option Bytes) (h : Newer pf.crypto (Trace.run (Act.step pf s) w acts).store id signed body)
    (hsha : NoCollision pf (Trace.run (Act.step pf s) w acts).store id body) :
    (Told pf (Trace.run (Act.step pf s) w acts).store id signed body carrier ↔
      IdsFree pf (Trace.run (Act.step pf s) w acts).store id body) ∧
    ∀ ids : Bytes → Prop, (∀ g ∈ groupsWithIdentity (Trace.run (Act.step pf s) w acts).store id, ids (noticeId pf id body g)) →
      (∀ e ∈ w.store.events, ¬ ids e.eventId) → Trace.Meets (Act.step pf s) (Avoids pf s ids) w acts →
      Told pf (Trace.run (Act.step pf s) w acts).store id signed body carrier := by
  refine ⟨told_iff h hsha, fun ids hids hfree hm => (told_iff h hsha).2 fun g hg e he heq => ?_⟩
  have hkept := Trace.invariant (I := fun w : World => ∀ e ∈ w.store.events, ¬ ids e.eventId)
    (fun _ _ ha h => step_free ha h) hm hfree
  have hshared : g ∈ groupsWithIdentity (Trace.run (Act.step pf s) w acts).store id := by
    unfold toldGroups at hg
    split at hg
    · cases hg
    · exact hg
  exact hkept e he (by rw [heq]; exact hids g hshared)

section demo

open Demo

def demoGroup : Group :=
  ⟨[7], 1, 0, [⟨0, some [9], publicKey [9, 2]⟩, ⟨1, some [66], publicKey [66, 2]⟩, ⟨2, some [2], publicKey [2, 2]⟩]⟩

def demoPeer : Peer := ⟨identityOf 2, [2], [2, 3], publicKey [2], some [12], some [22], some (publicKey [2, 1]), false⟩

/-- The first manifest of identity 2 lists its device, the second revokes it. -/
def demoFirst : Bytes := Identity.issueManifest crypto [2] none [[2, 3]] []

def demoSecond : Bytes := Identity.issueManifest crypto [2] (some ⟨1, Identity.manifestHash crypto demoFirst⟩) [] [[2, 3]]

def demoBody : DeviceManifest := ⟨1, identityOf 2, 2, Identity.manifestHash crypto demoFirst, [], [[2, 3]]⟩

def demoWorld : World where
  store := { profile.store with
    mlsGroups := ⟨[⟨[7], group.write demoGroup⟩], by simp⟩
    conversations := ⟨[⟨[7], true, 1, none, none, .none, none⟩], by simp⟩
    peers := ⟨[peerRow [7] demoPeer], by simp⟩
    peerManifests := ⟨[⟨identityOf 2, 1, Identity.manifestHash crypto demoFirst, some (crypto.encodeHashes [[2, 3]])⟩],
      by simp⟩ }
  sent := []

def demoText (id : Bytes) : Act :=
  .receive 3 [8] ⟨1, id, [], envelopeFor 9 [8] id (eventFrom [7] 1 "text" (utf8 "hi"))⟩

def demoNoticeId : Bytes := noticeEventId crypto (identityOf 2) 2 [7]

theorem demo_newer {st : Store} (hp : peerRoot st (identityOf 2) = some (publicKey [2]))
    (hm : peerManifestState st (identityOf 2) = some ⟨1, Identity.manifestHash crypto demoFirst⟩) :
    Newer crypto st (identityOf 2) demoSecond demoBody := by
  refine ⟨⟨publicKey [2], ⟨2, Identity.manifestHash crypto demoSecond⟩, by rw [hp]; decide +kernel, ?_⟩, ?_⟩
  · rw [hm]
    exact ok_of_toOption (by decide +kernel)
  · intro k hk
    rw [hm] at hk
    obtain rfl := Option.some.inj hk
    decide

/-- The message was recorded first, and the manifest is refused with its revocation. -/
theorem message_blocks_the_revocation :
    ¬ ∀ id : Bytes, ∀ body, Newer crypto (Trace.run (Act.step platform (sessionOf 9)) demoWorld [demoText id]).store
      (identityOf 2) demoSecond body →
      Told platform (Trace.run (Act.step platform (sessionOf 9)) demoWorld [demoText id]).store (identityOf 2) demoSecond body
        none := by
  intro h
  have hrun : peerRoot (Trace.run (Act.step platform (sessionOf 9)) demoWorld [demoText demoNoticeId]).store (identityOf 2) =
        some (publicKey [2]) ∧
      peerManifestState (Trace.run (Act.step platform (sessionOf 9)) demoWorld [demoText demoNoticeId]).store (identityOf 2) =
        some ⟨1, Identity.manifestHash crypto demoFirst⟩ ∧
      (acceptUnit platform (identityOf 2) demoSecond none
        (Trace.run (Act.step platform (sessionOf 9)) demoWorld [demoText demoNoticeId]).store).1.toOption = none := by
    decide +kernel
  obtain ⟨hroot, hstate, hfail⟩ := hrun
  obtain ⟨st', hok, -⟩ := h demoNoticeId demoBody (demo_newer hroot hstate)
  rw [hok] at hfail
  cases hfail

/-- Under any other id the revocation is told in the conversation. -/
theorem message_leaves_the_revocation_alone :
    Told platform (Trace.run (Act.step platform (sessionOf 9)) demoWorld [demoText [1]]).store (identityOf 2) demoSecond
      demoBody none := by
  have hrun : peerRoot (Trace.run (Act.step platform (sessionOf 9)) demoWorld [demoText [1]]).store (identityOf 2) =
        some (publicKey [2]) ∧
      peerManifestState (Trace.run (Act.step platform (sessionOf 9)) demoWorld [demoText [1]]).store (identityOf 2) =
        some ⟨1, Identity.manifestHash crypto demoFirst⟩ ∧
      groupsWithIdentity (Trace.run (Act.step platform (sessionOf 9)) demoWorld [demoText [1]]).store (identityOf 2) = [[7]] ∧
      ∀ e ∈ (Trace.run (Act.step platform (sessionOf 9)) demoWorld [demoText [1]]).store.events.rows,
        e.eventId ≠ demoNoticeId := by
    decide +kernel
  obtain ⟨hroot, hstate, hgroups, hfree⟩ := hrun
  refine (manifest_taken_iff_ids_free demoWorld [demoText [1]] (identityOf 2) demoSecond demoBody none
    (demo_newer hroot hstate) fun g hg g' hg' _ => ?_).1.2 fun g hg e he => ?_
  · rw [hgroups] at hg hg'
    rw [List.mem_singleton.1 hg, List.mem_singleton.1 hg']
  · unfold toldGroups at hg
    split at hg
    · cases hg
    · rw [hgroups] at hg
      rw [List.mem_singleton.1 hg]
      exact hfree e he

end demo

end Arveil.Notices

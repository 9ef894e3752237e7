import Arveil.Proofs.Publish
import Arveil.Sanity.Platform

/-! The capability an envelope is published with. A row of the outbox keeps its
mailbox only, and the capability is whatever the first conversation that names the
mailbox has for it, so all of them have to agree. -/

namespace Arveil.Capabilities

open Client Delivery Sync Publish

variable {pf : Platform} {s : Session}

/-- No two devices are stored with one mailbox and different capabilities. -/
def Agree (st : Store) : Prop :=
  ∀ p ∈ st.peers, ∀ q ∈ st.peers, ∀ m a b, p.mailbox = some m → q.mailbox = some m → p.writeCap = some a →
    q.writeCap = some b → a = b

theorem mem_savePeers_route {gid : Bytes} {ps : List Peer} (hboth : ∀ q ∈ ps, q.mailbox.isSome = q.writeCap.isSome)
    {st : Store} {p' : PeerRow} (h : p' ∈ (savePeers gid ps st).peers) :
    (∃ q ∈ ps, q.mailbox = p'.mailbox ∧ q.writeCap = p'.writeCap) ∨
      ∃ p ∈ st.peers, p.mailbox = p'.mailbox ∧ p.writeCap = p'.writeCap ∧
        ∀ q ∈ ps, p.groupId = gid → p.deviceId = q.deviceId → q.mailbox = none := by
  induction ps generalizing st with
  | nil => exact Or.inr ⟨p', h, rfl, rfl, fun q hq => absurd hq List.not_mem_nil⟩
  | cons q ps ih =>
    rcases ih (fun q' hq' => hboth q' (List.mem_cons_of_mem q hq')) (show p' ∈ (savePeers gid ps (savePeer gid q st)).peers from h) with
      ⟨q', hq', hm, hc⟩ | ⟨p₁, hp₁, hm, hc, hnone⟩
    · exact Or.inl ⟨q', List.mem_cons_of_mem q hq', hm, hc⟩
    · have hq := hboth q List.mem_cons_self
      rcases mem_savePeer hp₁ with ⟨p, hp, hg, hd, rfl⟩ | ⟨hp, hne⟩ | ⟨rfl, -⟩
      · -- the row this device had: the new route replaces the old one, or there is none
        cases hmq : q.mailbox with
        | none =>
          have hcq : q.writeCap = none := by simpa [hmq] using hq
          refine Or.inr ⟨p, hp, by simpa [mergePeer, peerRow, hmq] using hm,
            by simpa [mergePeer, peerRow, hcq] using hc, ?_⟩
          intro q' hq' hg' hd'
          rcases List.mem_cons.1 hq' with rfl | hq'
          · exact hmq
          · exact hnone q' hq' hg' hd'
        | some m =>
          obtain ⟨c, hcq⟩ := Option.isSome_iff_exists.1 (hq.symm.trans (by simp [hmq]))
          exact Or.inl ⟨q, List.mem_cons_self, by simpa [mergePeer, peerRow, hmq] using hm,
            by simpa [mergePeer, peerRow, hcq] using hc⟩
      · refine Or.inr ⟨p₁, hp, hm, hc, fun q' hq' hg' hd' => ?_⟩
        rcases List.mem_cons.1 hq' with rfl | hq'
        · exact absurd (by rw [hg', hd']) hne
        · exact hnone q' hq' hg' hd'
      · exact Or.inl ⟨q, List.mem_cons_self, hm, hc⟩

/-- A save that names no mailbox with another capability than the devices stored or
saved with it have, those it overwrites aside. Devices come with a mailbox and a
capability or with neither. -/
structure Consistent (st : Store) (gid : Bytes) (ps : List Peer) : Prop where
  both : ∀ q ∈ ps, q.mailbox.isSome = q.writeCap.isSome
  saved : ∀ p ∈ ps, ∀ q ∈ ps, ∀ m a b, p.mailbox = some m → q.mailbox = some m → p.writeCap = some a →
    q.writeCap = some b → a = b
  stored : ∀ p ∈ ps, ∀ q ∈ st.peers, ∀ m a b, p.mailbox = some m → q.mailbox = some m → p.writeCap = some a →
    q.writeCap = some b → a = b ∨ ∃ p' ∈ ps, q.groupId = gid ∧ q.deviceId = p'.deviceId ∧ p'.mailbox.isSome = true

theorem agree_savePeers {gid : Bytes} {ps : List Peer} {st : Store} (h : Agree st) (hc : Consistent st gid ps) :
    Agree (savePeers gid ps st) := by
  have hstored {q : PeerRow} {x : Peer} {m a b : Bytes} (hx : x ∈ ps) (hq : q ∈ st.peers) (hm : x.mailbox = some m)
      (hqm : q.mailbox = some m) (ha : x.writeCap = some a) (hb : q.writeCap = some b)
      (hnone : ∀ q' ∈ ps, q.groupId = gid → q.deviceId = q'.deviceId → q'.mailbox = none) : a = b := by
    rcases hc.stored x hx q hq m a b hm hqm ha hb with he | ⟨p', hp', hg, hd, hsome⟩
    · exact he
    · rw [hnone p' hp' hg hd] at hsome
      cases hsome
  intro p' hp' q' hq' m a b hpm hqm ha hb
  rcases mem_savePeers_route hc.both hp' with ⟨x, hx, hxm, hxc⟩ | ⟨p, hp, hm, hcap, hpn⟩ <;>
    rcases mem_savePeers_route hc.both hq' with ⟨y, hy, hym, hyc⟩ | ⟨q, hq, hm', hcap', hqn⟩
  · exact hc.saved x hx y hy m a b (hxm.trans hpm) (hym.trans hqm) (hxc.trans ha) (hyc.trans hb)
  · exact hstored hx hq (hxm.trans hpm) (hm'.trans hqm) (hxc.trans ha) (hcap'.trans hb) hqn
  · exact (hstored hy hp (hym.trans hqm) (hm.trans hpm) (hyc.trans hb) (hcap.trans ha) hpn).symm
  · exact h p hp q hq m a b (hm.trans hpm) (hm'.trans hqm) (hcap.trans ha) (hcap'.trans hb)

theorem agree_markAll {hashes : List Bytes} {st : Store} (h : Agree st) : Agree (markAll hashes st) := by
  intro p' hp' q' hq' m a b hpm hqm ha hb
  obtain ⟨p, hp, rfl⟩ := mem_markAll_peers.1 hp'
  obtain ⟨q, hq, rfl⟩ := mem_markAll_peers.1 hq'
  refine h p hp q hq m a b ?_ ?_ ?_ ?_
  · split at hpm <;> exact hpm
  · split at hqm <;> exact hqm
  · split at ha <;> exact ha
  · split at hb <;> exact hb

theorem agree_congr {st st' : Store} (hp : st'.peers = st.peers) (h : Agree st) : Agree st' := by
  unfold Agree
  rw [hp]
  exact h

/-- The saves of an act are consistent. -/
def SavesConsistently (pf : Platform) (s : Session) (w : World) (a : Act) : Prop :=
  ∀ gid peers, Saves pf s w.store a gid peers → Consistent w.store gid peers

theorem step_agree {w : World} {a : Act} (hc : SavesConsistently pf s w a) (h : Agree w.store) :
    Agree (Act.step pf s w a).store := by
  rcases step_peers pf s w a with ⟨hashes, hp⟩ | ⟨gid, peers, hsave, hp⟩
  · exact agree_congr hp (agree_markAll h)
  · exact agree_congr hp (agree_savePeers h (hc gid peers hsave))

theorem mem_conversations {st : Store} {c : Conversation} (h : c ∈ conversations st) : c.peers = peersOf st c.groupId := by
  obtain ⟨row, -, hrow⟩ := List.mem_filterMap.1 h
  obtain ⟨r, -, rfl⟩ := Option.map_eq_some_iff.1 hrow
  rfl

theorem mem_peersOf {st : Store} {gid : Bytes} {p : Peer} (h : p ∈ peersOf st gid) :
    ∃ r ∈ st.peers, peerOfRow r = p := by
  obtain ⟨r, hr, rfl⟩ := List.mem_map.1 h
  rw [(List.perm_insertionSort _ _).mem_iff] at hr
  exact ⟨r, (List.mem_filter.1 hr).1, rfl⟩

/-- Where the stored routes agree, the capability found for a mailbox is the one
every device with that mailbox has. -/
theorem writeCapFor_agree {st : Store} (h : Agree st) {c : Conversation} (hc : c ∈ conversations st) {p : Peer}
    (hp : p ∈ c.peers) {m cap : Bytes} (hm : p.mailbox = some m) (hcap : p.writeCap = some cap) :
    writeCapFor st m = some cap := by
  have hsome : (writeCapFor st m).isSome = true := by
    refine List.findSome?_isSome_iff.2 ⟨c, hc, List.findSome?_isSome_iff.2 ⟨p, hp, ?_⟩⟩
    simp [hm, hcap]
  obtain ⟨cap', hcap'⟩ := Option.isSome_iff_exists.1 hsome
  obtain ⟨c', hc', hfound⟩ := List.exists_of_findSome?_eq_some hcap'
  obtain ⟨p', hp', hfound⟩ := List.exists_of_findSome?_eq_some hfound
  split at hfound
  · next hm' =>
    rw [mem_conversations hc] at hp
    rw [mem_conversations hc'] at hp'
    obtain ⟨r, hr, rfl⟩ := mem_peersOf hp
    obtain ⟨r', hr', rfl⟩ := mem_peersOf hp'
    rw [hcap', h r' hr' r hr m cap' cap hm' hm hfound hcap]
  · cases hfound

/-- What a pass makes of the envelopes for the devices of a conversation: each is
presented with the capability stored for its device, and unless the relay refuses
that capability it is not given up. -/
def Unconfused (relay : Relay) (expiry : UInt64) (w : World) : Prop :=
  ∀ c ∈ conversations w.store, ∀ p ∈ c.peers, ∀ row ∈ pending w.store, p.mailbox = some row.mailboxId →
    ∀ cap, p.writeCap = some cap →
      writeCapFor w.store row.mailboxId = some cap ∧
      (∀ cap' id exp enc ct, .envelopePut row.mailboxId cap' id exp enc ct ∈ asked relay expiry w → cap' = cap) ∧
      ((∀ sent id exp enc ct, ¬ Refused (relay.answer sent (.envelopePut row.mailboxId cap id exp enc ct))) →
        ∀ r ∈ (publishPending relay expiry w).2.store.outbox, r.id = row.id → r.state ≠ .undeliverable)

theorem unconfused_of_agree {w : World} (h : Agree w.store) (relay : Relay) (expiry : UInt64) :
    Unconfused relay expiry w := by
  intro c hc p hp row hrow hm cap hcap
  have hfound := writeCapFor_agree h hc hp hm hcap
  refine ⟨hfound, fun cap' id exp enc ct hput => ?_, fun hheld r hr hid hs => ?_⟩
  · obtain ⟨row', -, cap₁, hcap₁, he⟩ := mem_puts.1 ((asked_puts relay expiry w).1.subset hput)
    obtain ⟨hmail, rfl, -⟩ := Payload.envelopePut.inj he
    rw [← hmail, hfound] at hcap₁
    exact (Option.some.inj hcap₁).symm
  · obtain ⟨hmem, hsealed⟩ := mem_pending.1 hrow
    rcases publishRows_undeliverable hr hs with ⟨r₀, hr₀, hid₀, hs₀⟩ | ⟨row', hrow', hid', cap', sent, hcap', href⟩
    · obtain rfl := Table.eq_of_key hr₀ hmem (hid₀.trans hid)
      rw [hs₀] at hsealed
      cases hsealed
    · obtain rfl := Table.eq_of_key (mem_pending.1 hrow').1 hmem (hid'.trans hid)
      rw [hfound] at hcap'
      obtain rfl := Option.some.inj hcap'
      exact hheld _ _ _ _ _ href

/-- In every run whose saves are consistent, every envelope is presented with the
capability stored for its device. -/
theorem presents_stored_capability (w : World) (acts : List Act) (hstart : Agree w.store)
    (hsaves : Trace.Meets (Act.step pf s) (SavesConsistently pf s) w acts) (relay : Relay) (expiry : UInt64) :
    Unconfused relay expiry (Trace.run (Act.step pf s) w acts) :=
  unconfused_of_agree (Trace.invariant (I := fun w : World => Agree w.store) (fun _ _ hc hi => step_agree hc hi)
    hsaves hstart) relay expiry

section demo

open Demo Receive

/-- A stranger's group, and after it a conversation with identity 2 in which an
envelope waits. -/
def demoGroup : Group := ⟨[6], 1, 0, [⟨0, some [9], publicKey [9, 2]⟩, ⟨1, some [66], publicKey [66, 2]⟩]⟩

def demoPeer : Peer := ⟨identityOf 2, [2], [2, 3], publicKey [2], some [70], some [71], some (publicKey [2, 1]), false⟩

def demoRow : OutboxRow := ⟨1, [70], [1], none, [1], [2], .sealed, 0, none⟩

def demoWorld : World where
  store := { profile.store with
    mlsGroups := ⟨[⟨[6], group.write demoGroup⟩], by simp⟩
    conversations := ⟨[⟨[6], false, 1, some .pending, none, .none, none⟩, ⟨[7], true, 2, none, none, .none, none⟩], by simp⟩
    peers := ⟨[peerRow [7] demoPeer], by simp⟩
    outbox := ⟨[demoRow], by simp⟩ }
  sent := []

def demoRoster (mailbox cap : UInt8) : Act :=
  .receive 3 [8] (item 1 1 (eventFrom [6] 1 "roster" (routeOf 66 66 mailbox cap)))

def demoRelay : Relay where
  answer _
    | .envelopePut mailbox cap _ _ _ _ =>
        if mailbox = [70] ∧ cap ≠ [71] then .error (.relay 403 "write capability rejected")
        else .ok (.envelopeAccepted 1000)
    | _ => .ok .ack
  debug _ := ""

def demoAfter (mailbox cap : UInt8) : World := Act.step platform (sessionOf 9) demoWorld (demoRoster mailbox cap)

/-- A stranger that names mailbox 70 with another capability has the envelope of the
other conversation refused and given up. -/
theorem stranger_names_the_mailbox :
    ¬ Unconfused demoRelay 0 (Trace.run (Act.step platform (sessionOf 9)) demoWorld [demoRoster 70 99]) := by
  rw [Trace.run_cons, Trace.run_nil, ← demoAfter]
  intro h
  have hfacts : (∃ c ∈ conversations (demoAfter 70 99).store, demoPeer ∈ c.peers) ∧
      demoRow ∈ pending (demoAfter 70 99).store ∧ writeCapFor (demoAfter 70 99).store [70] ≠ some [71] := by
    decide +kernel
  obtain ⟨⟨c, hc, hp⟩, hrow, hcap⟩ := hfacts
  exact hcap (h c hc demoPeer hp demoRow hrow rfl [71] rfl).1

theorem demo_consistent : SavesConsistently platform (sessionOf 9) demoWorld (demoRoster 75 76) := by
  intro gid peers hsave
  have hheard : (heard platform (sessionOf 9) demoWorld.store [8]
        (item 1 1 (eventFrom [6] 1 "roster" (routeOf 66 66 75 76)))).map (fun h => h.2.2.2.body) =
        some (routeOf 66 66 75 76) ∧
      ((rosterPeers platform (sessionOf 9) (Route.lines (routeOf 66 66 75 76))).toOption.map fun ps =>
        ps.map fun p => (p.mailbox, p.writeCap)) = some [(some [75], some [76])] := by decide +kernel
  cases hsave with
  | @roster now mailbox item msg _ group leaf ev _ hm hs hk hp =>
    obtain ⟨hbody, hps⟩ := hheard
    rw [heard_of_sentBy hm hs] at hbody
    have hbody : ev.body = routeOf 66 66 75 76 := Option.some.inj hbody
    rw [hbody] at hp
    rw [hp] at hps
    have hps : peers.map (fun p => (p.mailbox, p.writeCap)) = [(some [75], some [76])] := Option.some.inj hps
    have hroute : ∀ p ∈ peers, p.mailbox = some [75] ∧ p.writeCap = some [76] := by
      intro p hp'
      have hmem := List.mem_map_of_mem (f := fun p : Peer => (p.mailbox, p.writeCap)) hp'
      rw [hps] at hmem
      exact Prod.mk.inj (List.mem_singleton.1 hmem)
    refine ⟨fun q hq => by simp [hroute q hq], fun p hp q hq m a b hpm hqm ha hb => ?_, fun p hp q hq m a b hpm hqm ha hb => ?_⟩
    · exact Option.some.inj (ha.symm.trans ((hroute p hp).2.trans ((hroute q hq).2.symm.trans hb)))
    · obtain rfl := List.mem_singleton.1 hq
      cases (hroute p hp).1.symm.trans hpm
      cases hqm

theorem other_mailboxes_do_no_harm :
    Unconfused demoRelay 0 (Trace.run (Act.step platform (sessionOf 9)) demoWorld [demoRoster 75 76]) := by
  refine presents_stored_capability demoWorld [demoRoster 75 76] ?_ ⟨demo_consistent, trivial⟩ demoRelay 0
  intro p hp q hq m a b hpm hqm ha hb
  obtain rfl := List.mem_singleton.1 hp
  obtain rfl := List.mem_singleton.1 hq
  exact Option.some.inj (ha.symm.trans hb)

end demo

end Arveil.Capabilities

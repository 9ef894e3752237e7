import Arveil.Proofs.Acts
import Arveil.Proofs.Routes
import Arveil.Sanity.Platform

/-! Who an event is attributed to. MLS authenticates the leaf that sent a message;
which identity stands behind its device is what the conversation's rows say, and
those come from the rosters its members send. -/

namespace Arveil.Attribution

open Client Delivery Receive

variable {pf : Platform} {s : Session}

def OwnDevice (st : Store) (d i : Bytes) : Prop :=
  identityId st = some i ∧ ((st.device.get? d).isSome = true ∨ (st.identityDevices.get? d).isSome = true)

def KnownAs (gid d i : Bytes) (st : Store) : Prop :=
  ∃ p ∈ st.peers, p.groupId = gid ∧ p.deviceId = d ∧ p.peerIdentity = i

theorem of_deviceIdentity {st : Store} {gid d i : Bytes} (h : deviceIdentity st gid d = some i) :
    OwnDevice st d i ∨ KnownAs gid d i st := by
  unfold deviceIdentity at h
  rcases Option.or_eq_some_iff.1 h with hown | ⟨-, hpeer⟩
  · obtain ⟨row, hrow, rfl⟩ := Option.map_eq_some_iff.1 hown
    obtain ⟨hid, hd⟩ := Option.filter_eq_some_iff.1 hrow
    exact Or.inl ⟨by rw [identityId, hid]; rfl, by simpa using hd⟩
  · obtain ⟨p, hp, rfl⟩ := Option.map_eq_some_iff.1 hpeer
    obtain ⟨hmem, hk⟩ := Table.get?_eq_some.1 hp
    obtain ⟨hg, hd⟩ := Prod.mk.inj hk
    exact Or.inr ⟨p, hmem, hg, hd, rfl⟩

/-- An act in which a leaf of this device sent the message or file of an event. -/
def MessageFrom (pf : Platform) (s : Session) (st : Store) (a : Act) (e : EventRow) (d : Bytes) : Prop :=
  ∃ now mailbox item msg group leaf ev, a = .receive now mailbox item ∧ openedMessage pf s mailbox item = .ok msg ∧
    SentBy pf msg st e.groupId group leaf ev ∧ (appKind ev.kind = .text ∨ appKind ev.kind = .file) ∧
    e.body = ev.body ∧ (pf.memberAtIndex group leaf).bind (·.deviceId) = some d

/-- An act that brought a manifest, from the realm or from a group. -/
def Brings (pf : Platform) (s : Session) (st : Store) (a : Act) (i signed : Bytes) : Prop :=
  a = .refresh i signed ∨ ∃ now mailbox item msg gid group leaf ev, a = .receive now mailbox item ∧
    openedMessage pf s mailbox item = .ok msg ∧ SentBy pf msg st gid group leaf ev ∧
    appKind ev.kind = .manifest ∧ ev.body = signed

def Announced (pf : Platform) (s : Session) (st : Store) (a : Act) (e : EventRow) (i : Bytes) : Prop :=
  e.kind = .devicesChanged ∧ ∃ signed root body, Brings pf s st a i signed ∧ peerRoot st i = some root ∧
    Identity.verifyManifest pf.crypto signed root = .ok body

def Written (s : Session) (a : Act) (e : EventRow) (i : Bytes) : Prop :=
  (∃ c text eventId entropy order draws, a = .queueText c text eventId entropy order draws) ∧ e.kind = .sent ∧
    e.senderDevice = some s.device.keys.deviceId ∧ i = s.identityId

/-- What an act records under an identity. -/
def Recorded (pf : Platform) (s : Session) (st : Store) (a : Act) (e : EventRow) (i : Bytes) : Prop :=
  (∃ d, MessageFrom pf s st a e d ∧ e.senderDevice = some d ∧ (OwnDevice st d i ∨ KnownAs e.groupId d i st)) ∨
    Announced pf s st a e i ∨ Written s a e i

/-- What an act records: the message or file a leaf sent, a notice, or a message of
this device. -/
inductive Records (pf : Platform) (s : Session) (st : Store) : Act → EventRow → Prop
  | message {now : Int} {mailbox : Bytes} {item : EnvelopeItem} {msg : MlsMessage} {gid group : Bytes} {leaf : UInt32}
      {ev : AppEvent} {kind : EventKind} (hm : openedMessage pf s mailbox item = .ok msg)
      (hs : SentBy pf msg st gid group leaf ev)
      (hk : (appKind ev.kind = .text ∧ kind = .received) ∨ (appKind ev.kind = .file ∧ kind = .filePending)) :
      Records pf s st (.receive now mailbox item) ⟨gid, item.deliveryId, kind, ev.body,
        (senderOf pf group gid leaf st).bind (·.deviceId), (senderOf pf group gid leaf st).bind (·.identityId)⟩
  | notice {a : Act} {e : EventRow} {id signed root : Bytes} {body : DeviceManifest} (hb : Brings pf s st a id signed)
      (hroot : peerRoot st id = some root) (hv : Identity.verifyManifest pf.crypto signed root = .ok body)
      (hk : e.kind = .devicesChanged) (hid : e.senderIdentity = some id) : Records pf s st a e
  | written {c : Conversation} {text eventId entropy : Bytes} {order : Nat → UInt64} {draws : Nat → Send.Draw} :
      Records pf s st (.queueText c text eventId entropy order draws)
        ⟨c.groupId, eventId, .sent, text, some s.device.keys.deviceId, some s.identityId⟩

theorem accepted_records {st st₁ st' : Store} {a : Act} {id signed : Bytes} {carrier : Option Bytes} {e : EventRow}
    (ha : PeerAccepted pf.crypto id signed carrier st₁ st') (hb : Brings pf s st a id signed)
    (hp : st₁.peers = st.peers) (he : e ∈ st'.events) : e ∈ st₁.events ∨ Records pf s st a e := by
  obtain ⟨root, body, state, manifests, t, hroot, hacc, ht, rfl⟩ := ha
  rcases ht e he with hold | ⟨hkind, -, hsi⟩
  · exact Or.inl hold
  · obtain ⟨b, hb', hk⟩ := Option.bind_eq_some_iff.1 hroot
    obtain rfl := Identity.verifyingKey_eq hk
    refine Or.inr (.notice hb ?_ (Identity.acceptManifest_ok hacc).1 hkind hsi)
    simpa only [peerRoot, hp] using hb'

theorem manifestAcceptOwn_events {cx : Crypto} {signed : Bytes} {r : DeviceManifest × Bool} {st st' : Store}
    (h : manifestAcceptOwn cx signed st = (.ok r, st')) : st'.events = st.events := by
  rcases manifestAcceptOwn_cases cx signed st with ⟨e, he⟩ | ⟨root, body, m, -, -, -, hrun⟩
  · simp [he] at h
  · rw [hrun] at h
    obtain rfl := (Prod.mk.inj h).2
    rw [markAll_eq]

theorem effect_records {now : Int} {mailbox : Bytes} {item : EnvelopeItem} {msg : MlsMessage} {st st' : Store}
    {inbox} {e : EventRow} (hm : openedMessage pf s mailbox item = .ok msg)
    (h : Effect pf s now msg item.deliveryId { st with inbox := inbox } st') (he : e ∈ st'.events) :
    e ∈ st.events ∨ Records pf s st (.receive now mailbox item) e := by
  cases h with
  | joined hw hj => exact Or.inl he
  | dropped hf hg hd => exact Or.inl he
  | handshake ho hn => exact Or.inl he
  | unknown hs hk => exact Or.inl he
  | roster hs hk hr =>
    obtain ⟨peers, contacts, -, -, rfl⟩ := handleRoster_ok hr
    rw [classified_blind (f := (·.events)) fun _ _ _ => rfl, savePeers_eq] at he
    exact Or.inl he
  | @manifest gid group leaf ev ch st' hs hk hr =>
    rcases handleManifest_ok hr with ⟨id, -, -, ha⟩ | ⟨r, ha⟩
    · have hb : Brings pf s st (.receive now mailbox item) id ev.body := Or.inr ⟨now, mailbox, item, msg, gid, group,
        leaf, ev, rfl, hm, sentBy_inbox hs, hk, rfl⟩
      rcases accepted_records ha hb rfl he with hold | hnew
      · exact Or.inl hold
      · exact Or.inr hnew
    · rw [manifestAcceptOwn_events ha] at he
      exact Or.inl he
  | text hs hk hr =>
    obtain ⟨t, hi, rfl⟩ := handleText_ok hr
    rcases (Table.mem_insert hi).1 he with hold | rfl
    · exact Or.inl hold
    · exact Or.inr (.message hm (sentBy_inbox hs) (Or.inl ⟨hk, rfl⟩))
  | file hs hk hr =>
    obtain ⟨t, hi, rfl⟩ := handleFile_ok hr
    rcases (Table.mem_insert hi).1 he with hold | rfl
    · exact Or.inl hold
    · exact Or.inr (.message hm (sentBy_inbox hs) (Or.inr ⟨hk, rfl⟩))
  | hello hs hk hr =>
    unfold handleHello at hr
    rw [Prog.bind_ok (eventSender_run ..)] at hr
    obtain ⟨hello, -, ⟨-, rfl⟩ | ⟨-, hellos, name, rfl | ⟨k, c, -, -, -, rfl⟩⟩⟩ := receiveHello_ok hr
    all_goals exact Or.inl he

def AtMost (row : EventRow) (st st' : Store) : Prop := ∀ e ∈ st'.events, e ∈ st.events ∨ e = row

theorem AtMost.refl {row : EventRow} (st : Store) : AtMost row st st := fun _ he => Or.inl he

theorem AtMost.trans {row : EventRow} (a b c : Store) (h : AtMost row a b) (h' : AtMost row b c) : AtMost row a c :=
  fun e he => (h' e he).elim (h e) Or.inr

theorem AtMost.of_fixes {row : EventRow} {ε α : Type} {p : Prog Store ε α} (h : Prog.Fixes (fun st => st.events) p) :
    Prog.Keeps (AtMost row) p := by
  intro st e he
  have hev : (p st).2.events = st.events := h st
  rw [hev] at he
  exact Or.inl he

theorem recordEventBy_atMost (gid eventId : Bytes) (kind : EventKind) (body : Bytes) (sender : Option EventSender) :
    Prog.Keeps (AtMost ⟨gid, eventId, kind, body, sender.bind (·.deviceId), sender.bind (·.identityId)⟩)
      (recordEventBy gid eventId kind body sender) := by
  refine Prog.keeps_tryModify AtMost.refl fun st st' h => ?_
  simp only at h
  cases hi : st.events.insert ⟨gid, eventId, kind, body, sender.bind (·.deviceId), sender.bind (·.identityId)⟩ with
  | none => simp [hi] at h
  | some t =>
    simp only [hi, Except.ok.injEq] at h
    rw [← h]
    exact fun e he => (Table.mem_insert hi).1 he

theorem queueText_atMost (c : Conversation) (text eventId entropy : Bytes) (order : Nat → UInt64)
    (draws : Nat → Send.Draw) :
    Prog.Keeps (AtMost ⟨c.groupId, eventId, .sent, text, some s.device.keys.deviceId, some s.identityId⟩)
      (Send.queueText pf s c text eventId entropy order draws) := by
  refine Prog.keeps_bind AtMost.trans (.of_fixes (fixes_loadGroup _)) fun group => Prog.keeps_bind AtMost.trans
    (.of_fixes (fixes_guardRevoked _ _)) fun _ => Prog.keeps_mapError _ (Prog.keeps_unitOfWork AtMost.refl
    (Prog.keeps_bind AtMost.trans (.of_fixes (fixes_invalidQuery _)) fun sealed => ?_))
  exact Prog.keeps_bind AtMost.trans (.of_fixes (Prog.fixes_modify fun _ => rfl)) fun _ =>
    Prog.keeps_bind AtMost.trans (recordEventBy_atMost _ _ _ _ _) fun _ =>
    .of_fixes ((fixes_enqueueForAll _ _ _ _ _).map (·.events))

theorem step_events {w : World} {a : Act} {e : EventRow} (he : e ∈ (Act.step pf s w a).store.events) :
    e ∈ w.store.events ∨ Records pf s w.store a e := by
  have hsame (h : (Act.step pf s w a).store.events = w.store.events) : e ∈ w.store.events := h ▸ he
  by_cases hapart : a.apart = true
  · exact Or.inl (hsame (congrArg (·.events) (step_apart hapart w)))
  cases a <;> try exact absurd rfl hapart
  case receive now mailbox item =>
    rw [step_receive] at he
    rcases receiveUnit_cases pf s now mailbox item w.store with
      ⟨e', hrun⟩ | ⟨-, hrun⟩ | ⟨t, msg, ch, st', hi, hmsg, heff, hrun⟩
    all_goals rw [hrun] at he
    · exact Or.inl he
    · exact Or.inl he
    · exact effect_records hmsg heff he
  case refresh identity signed =>
    rw [step_refresh] at he
    by_cases hown : identity = s.identityId
    · rw [if_pos hown] at he
      rcases hrun : manifestAcceptOwn pf.crypto signed w.store with ⟨r, st'⟩
      rw [hrun] at he
      cases r with
      | ok r => exact Or.inl (manifestAcceptOwn_events hrun ▸ he)
      | error e' =>
        rcases manifestAcceptOwn_cases pf.crypto signed w.store with ⟨e'', h⟩ | ⟨_, _, _, _, _, _, h⟩
        · rw [hrun] at h
          exact Or.inl ((Prod.mk.inj h).2 ▸ he)
        · simp [hrun] at h
    · rw [if_neg hown] at he
      rcases hrun : Sync.refreshPeer pf identity signed w.store with ⟨r, st'⟩
      rw [hrun] at he
      cases r with
      | ok r => exact accepted_records (refreshPeer_ok hrun) (Or.inl rfl) rfl he
      | error e' => exact Or.inl (Prog.unitOfWork_error hrun ▸ he)
  case settleInPerson relay now => exact Or.inl (hsame (congrArg (·.events) (step_settling (Or.inl ⟨relay, now, rfl⟩) w)))
  case settle relay now => exact Or.inl (hsame (congrArg (·.events) (step_settling (Or.inr (Or.inl ⟨relay, now, rfl⟩)) w)))
  case answer groupId accept => exact Or.inl (hsame (congrArg (·.events) (step_settling (Or.inr (Or.inr ⟨groupId, accept, rfl⟩)) w)))
  case saveConversation createdAt c =>
    rw [step_saveConversation] at he
    obtain ⟨ct, -, ⟨e', hrun⟩ | hrun⟩ := conversationSave_cases createdAt c w.store
    · rw [hrun] at he
      exact Or.inl he
    · rw [hrun, savePeers_eq] at he
      exact Or.inl he
  case queueText c text eventId entropy order draws =>
    rw [step_queueText] at he
    rcases queueText_atMost c text eventId entropy order draws w.store e he with hold | rfl
    · exact Or.inl hold
    · exact Or.inr .written
  case deviceRevoke device =>
    rw [step_deviceRevoke] at he
    rcases hrun : Client.deviceRevoke pf.crypto device w.store with ⟨r, st'⟩
    rw [hrun] at he
    cases r with
    | error e' => exact Or.inl (deviceRevoke_error _ hrun ▸ he)
    | ok r =>
      obtain ⟨seed, root, d, row, body, -, -, -, -, -, -, ⟨-, rfl⟩ | ⟨-, mbody, m, -, -, rfl⟩⟩ :=
        deviceRevoke_ok _ hrun
      all_goals
        rw [revocationStart_eq, markAll_eq] at he
        exact Or.inl he

/-- An event is recorded under an identity only as the profile knows its sender, as
a notice, or as a message of ours. -/
theorem step_recorded {w : World} {a : Act} {e : EventRow} {i : Bytes} (he : e ∈ (Act.step pf s w a).store.events)
    (hid : e.senderIdentity = some i) : e ∈ w.store.events ∨ Recorded pf s w.store a e i := by
  refine (step_events he).imp_right fun hr => ?_
  cases hr with
  | @message now mailbox item msg gid group leaf ev kind hm hs hk =>
    obtain ⟨d, hd, hdi, hsd⟩ := senderOf_identity hid
    refine Or.inl ⟨d, ⟨now, mailbox, item, msg, group, leaf, ev, rfl, hm, hs, ?_, rfl, hd⟩, hsd, of_deviceIdentity hdi⟩
    exact hk.imp And.left And.left
  | notice hb hroot hv hk hsi =>
    obtain rfl := Option.some.inj (hsi.symm.trans hid)
    exact Or.inr (Or.inl ⟨hk, _, _, _, hb, hroot, hv⟩)
  | @written c text eventId entropy order draws =>
    exact Or.inr (Or.inr ⟨⟨c, text, eventId, entropy, order, draws, rfl⟩, rfl, rfl, (Option.some.inj hid).symm⟩)

/-- The first save that named the device in the conversation: a line of a roster
whose root key derives the identity, or a device the person added. -/
def FirstNamed (pf : Platform) (s : Session) (gid d i : Bytes) (st : Store) (a : Act) : Prop :=
  (∀ p ∈ st.peers, (p.groupId, p.deviceId) ≠ (gid, d)) ∧
    ((∃ createdAt c, a = .saveConversation createdAt c ∧ c.groupId = gid ∧
        ∃ q ∈ c.peers, q.deviceId = d ∧ q.identity = i) ∨
      ∃ now mailbox item msg group leaf ev line r, a = .receive now mailbox item ∧
        openedMessage pf s mailbox item = .ok msg ∧ SentBy pf msg st gid group leaf ev ∧
        appKind ev.kind = .roster ∧ line ∈ Route.lines ev.body ∧ Route.parse pf.crypto line = .ok r ∧
        r.deviceId = d ∧ r.identityId = i ∧ Identity.identityId pf.crypto r.rootPublic = i)

theorem knownAs_markAll {hashes : List Bytes} {gid d i : Bytes} {st : Store}
    (h : KnownAs gid d i (markAll hashes st)) : KnownAs gid d i st := by
  obtain ⟨p', hp', hg, hd, hi⟩ := h
  obtain ⟨p, hp, rfl⟩ := mem_markAll_peers.1 hp'
  refine ⟨p, hp, ?_⟩
  split at hg <;> split at hd <;> split at hi <;> exact ⟨hg, hd, hi⟩

theorem knownAs_savePeers {gid g d i : Bytes} {ps : List Peer} {t : Store}
    (h : KnownAs gid d i (savePeers g ps t)) :
    KnownAs gid d i t ∨ (g = gid ∧ (∀ p ∈ t.peers, (p.groupId, p.deviceId) ≠ (gid, d)) ∧
      ∃ q ∈ ps, q.deviceId = d ∧ q.identity = i) := by
  induction ps generalizing t with
  | nil => exact Or.inl h
  | cons q ps ih =>
    rcases ih (t := savePeer g q t) h with ⟨p', hp', hg, hd, hi⟩ | ⟨hg, hfree, q', hq', hd, hi⟩
    · rcases mem_savePeer hp' with ⟨p, hp, -, -, rfl⟩ | ⟨hp, -⟩ | ⟨rfl, hfree⟩
      · exact Or.inl ⟨p, hp, hg, hd, hi⟩
      · exact Or.inl ⟨p', hp, hg, hd, hi⟩
      · obtain rfl : g = gid := hg
        obtain rfl : q.deviceId = d := hd
        exact Or.inr ⟨rfl, hfree, q, List.mem_cons_self, rfl, hi⟩
    · refine Or.inr ⟨hg, fun p hp hk => ?_, q', List.mem_cons_of_mem q hq', hd, hi⟩
      obtain ⟨p', hp', ho⟩ := savePeer_keeps g q hp
      exact hfree p' hp' ((Prod.ext (congrArg (·.1) ho) (congrArg (·.2.1) ho)).trans hk)

theorem step_knownAs {gid d i : Bytes} {w : World} {a : Act}
    (h : KnownAs gid d i (Act.step pf s w a).store) :
    KnownAs gid d i w.store ∨ FirstNamed pf s gid d i w.store a := by
  rcases step_peers pf s w a with ⟨hashes, hp⟩ | ⟨g, peers, hsave, hp⟩
  · have h' : KnownAs gid d i (markAll hashes w.store) := by simpa only [KnownAs, hp] using h
    exact Or.inl (knownAs_markAll h')
  · have h' : KnownAs gid d i (savePeers g peers w.store) := by simpa only [KnownAs, hp] using h
    rcases knownAs_savePeers h' with hold | ⟨rfl, hfree, q, hq, hd, hi⟩
    · exact Or.inl hold
    · refine Or.inr ⟨hfree, ?_⟩
      cases hsave with
      | @roster now mailbox item msg _ group leaf ev _ hm hs hk hps =>
        obtain ⟨line, hl, r, hr, rfl⟩ := rosterPeers_mem hps hq
        exact Or.inr ⟨now, mailbox, item, msg, group, leaf, ev, line, r, rfl, hm, hs, hk, hl, hr, hd, hi,
          (Route.parse_ok hr).2.trans hi⟩
      | @person createdAt c => exact Or.inl ⟨createdAt, c, rfl, rfl, q, hq, hd, hi⟩

/-- The device that sent the event of an act belongs to the identity as far as the
profile knows: it is an own device, or the conversation's row names the identity
and was saved so when the conversation first named the device. -/
def Attributed (pf : Platform) (s : Session) (w : World) (before : List Act) (gid d i : Bytes) : Prop :=
  let st := (Trace.run (Act.step pf s) w before).store
  OwnDevice st d i ∨ (KnownAs gid d i st ∧
    (KnownAs gid d i w.store ∨ Trace.Occurs (Act.step pf s) (fun w a => FirstNamed pf s gid d i w.store a) w before))

/-- Every event recorded under an identity is a message from the MLS leaf of a
device that the profile attributes to it, a notice of one of its manifests, or a
message this device wrote. -/
theorem recorded_under_known_identity (w : World) (acts : List Act) :
    ∀ e ∈ (Trace.run (Act.step pf s) w acts).store.events, ∀ i, e.senderIdentity = some i →
      e ∈ w.store.events ∨ ∃ before a after, acts = before ++ a :: after ∧
        let st := (Trace.run (Act.step pf s) w before).store
        (∃ d, MessageFrom pf s st a e d ∧ e.senderDevice = some d ∧ Attributed pf s w before e.groupId d i) ∨
          Announced pf s st a e i ∨ Written s a e i := by
  intro e he i hid
  have hprov := Trace.provenance (C := fun _ _ => True) (I := fun _ => True) (Q := fun w : World => e ∈ w.store.events)
    (P := fun w a => Recorded pf s w.store a e i) (fun _ _ _ _ => trivial)
    (fun w a _ _ h => step_recorded h hid) (Trace.meets_true w acts) trivial he
  rcases hprov with hold | hocc
  · exact Or.inl hold
  · obtain ⟨before, a, after, rfl, hrec⟩ := Trace.occurs_iff.1 hocc
    refine Or.inr ⟨before, a, after, rfl, ?_⟩
    rcases hrec with ⟨d, hm, hd, hown | hknown⟩ | hrest
    · exact Or.inl ⟨d, hm, hd, Or.inl hown⟩
    · refine Or.inl ⟨d, hm, hd, Or.inr ⟨hknown, ?_⟩⟩
      exact Trace.provenance (C := fun _ _ => True) (I := fun _ => True)
        (Q := fun w : World => KnownAs e.groupId d i w.store) (fun _ _ _ _ => trivial)
        (fun w a _ _ h => step_knownAs h) (Trace.meets_true w before) trivial hknown
    · exact Or.inr hrest

section demo

open Demo

def demoGroup (d : UInt8) : Group :=
  ⟨[7], 1, 0, [⟨0, some [9], publicKey [9, 2]⟩, ⟨1, some [d], publicKey [d, 2]⟩]⟩

def demoText : EnvelopeItem := item 3 3 (eventFrom [7] 1 "text" (utf8 "hi"))

/-- Device `d` brings us into its group, says in its roster that it is a device of
identity `n`, and writes. -/
def demoActs (d n : UInt8) : List Act :=
  [.receive 0 [8] (item 1 1 ⟨.welcome, none, welcome.write ([5], demoGroup d)⟩),
    .receive 0 [8] (item 2 2 (eventFrom [7] 1 "roster" (routeOf n d 70 71))),
    .receive 0 [8] demoText]

theorem message_attributed_by_roster :
    ∃ e ∈ (Trace.run (Act.step platform (sessionOf 9)) profile (demoActs 2 2)).store.events,
      e.senderIdentity = some (identityOf 2) ∧ ∃ before a after, demoActs 2 2 = before ++ a :: after ∧
        let st := (Trace.run (Act.step platform (sessionOf 9)) profile before).store
        (∃ d, MessageFrom platform (sessionOf 9) st a e d ∧ e.senderDevice = some d ∧
          Attributed platform (sessionOf 9) profile before e.groupId d (identityOf 2)) ∨
          Announced platform (sessionOf 9) st a e (identityOf 2) ∨ Written (sessionOf 9) a e (identityOf 2) := by
  have hrow : ∃ e ∈ (Trace.run (Act.step platform (sessionOf 9)) profile (demoActs 2 2)).store.events.rows,
      e.senderIdentity = some (identityOf 2) := by decide +kernel
  obtain ⟨e, he, hi⟩ := Table.exists_mem hrow
  have hnew : ¬ e ∈ profile.store.events := Table.not_mem_empty e
  exact ⟨e, he, hi, (recorded_under_known_identity profile (demoActs 2 2) e he (identityOf 2) hi).resolve_left hnew⟩

/-- In every run, the leaf behind an event recorded under an identity carries a
device and a key that one of the issued credentials of that identity names. -/
def SendersNamed (pf : Platform) (s : Session) (issued : List Bytes) (w : World) (acts : List Act) : Prop :=
  ∀ before now mailbox item after msg gid group leaf ev m e i, acts = before ++ Act.receive now mailbox item :: after →
    openedMessage pf s mailbox item = .ok msg →
    SentBy pf msg (Trace.run (Act.step pf s) w before).store gid group leaf ev →
    pf.memberAtIndex group leaf = some m →
    e ∈ (Act.step pf s (Trace.run (Act.step pf s) w before) (.receive now mailbox item)).store.events →
    e.eventId = item.deliveryId → e.senderIdentity = some i →
    ∃ c ∈ issued, ∃ root d, Identity.identityId pf.crypto root = i ∧ m.deviceId = some d ∧
      Identity.Names pf.crypto c root d m.signatureKey

def demoCredential : Bytes := Identity.issueCredential crypto [1] (keysOf 1).public ⟨0, 100⟩ allUses

def demoBefore : World := Trace.run (Act.step platform (sessionOf 9)) profile ((demoActs 66 1).take 2)

def demoMessage : MlsMessage := eventFrom [7] 1 "text" (utf8 "hi")

theorem demo_sent : openedMessage platform (sessionOf 9) [8] demoText = .ok demoMessage ∧
    SentBy platform demoMessage demoBefore.store [7] (group.write (demoGroup 66)) 1 ⟨"text", utf8 "hi"⟩ := by
  have hopen : (openedMessage platform (sessionOf 9) [8] demoText).toOption = some demoMessage := by decide +kernel
  have hrow : declined demoBefore.store [7] = false ∧
      demoBefore.store.mlsGroups.get? [7] = some ⟨[7], group.write (demoGroup 66)⟩ := by decide +kernel
  have hproc : (platform.mlsProcess (deviceRevoked demoBefore.store) (group.write (demoGroup 66)) demoMessage).toOption =
      some (group.write (demoGroup 66), .applicationMessage 1 (appEvent.write ⟨"text", utf8 "hi"⟩)) := by
    decide +kernel
  have hdec : platform.decodeEvent (appEvent.write ⟨"text", utf8 "hi"⟩) = .ok ⟨"text", utf8 "hi"⟩ :=
    appEvent.decode_write ⟨"text", utf8 "hi"⟩
  exact ⟨ok_of_toOption hopen, _, ⟨Or.inl rfl, rfl, hrow.1, _, hrow.2, ok_of_toOption hproc⟩, hdec⟩

/-- A stranger's device says it is one of identity 1, whose root signed one
credential for another device; its message is recorded under identity 1. -/
theorem message_attributed_on_a_strangers_word :
    ¬ SendersNamed platform (sessionOf 9) [demoCredential] profile (demoActs 66 1) := by
  intro h
  have hrow : ∃ e ∈ (Act.step platform (sessionOf 9) demoBefore (.receive 0 [8] demoText)).store.events.rows,
      e.eventId = [3] ∧ e.senderIdentity = some (identityOf 1) := by decide +kernel
  obtain ⟨e, he, hid, hi⟩ := Table.exists_mem hrow
  have hm : platform.memberAtIndex (group.write (demoGroup 66)) 1 = some ⟨1, some [66], publicKey [66, 2]⟩ := by
    decide +kernel
  have hsplit : demoActs 66 1 = (demoActs 66 1).take 2 ++ Act.receive 0 [8] demoText :: [] := rfl
  have hclaim := h ((demoActs 66 1).take 2) 0 [8] demoText [] demoMessage [7] (group.write (demoGroup 66)) 1
    ⟨"text", utf8 "hi"⟩ ⟨1, some [66], publicKey [66, 2]⟩ e (identityOf 1) hsplit demo_sent.1
  rw [← demoBefore] at hclaim
  obtain ⟨c, hc, root, d, -, hd, hn⟩ := hclaim demo_sent.2 hm he hid hi
  obtain rfl := List.mem_singleton.1 hc
  obtain ⟨rfl, -⟩ := Identity.names_issueCredential crypto_lawful hn
  cases hd

end demo

end Arveil.Attribution

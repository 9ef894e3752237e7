import Arveil.Proofs.Acts
import Arveil.Sanity.Platform

/-! What ends a request. A conversation joined through a Welcome waits; the person
answers it, a code or an invitation settles it, or its first roster does, on the
word of the roster. -/

namespace Arveil.Requests

open Client Receive

variable {pf : Platform} {s : Session}

def requestOf (gid : Bytes) (st : Store) : Option RequestStatus := (st.conversations.get? gid).bind (·.request)

def Pending (gid : Bytes) (st : Store) : Prop := requestOf gid st = some .pending

instance (gid : Bytes) (st : Store) : Decidable (Pending gid st) := inferInstanceAs (Decidable (_ = _))

theorem get?_updateConversation {gid : Bytes} {f : ConversationRow → ConversationRow}
    {hf : ∀ r, (f r).groupId = r.groupId} (st : Store) (g : Bytes) :
    (updateConversation gid f hf st).conversations.get? g =
      (st.conversations.get? g).map fun r => if g = gid then f r else r := by
  show (st.conversations.update (fun c => c.groupId = gid) f hf).get? g = _
  rw [Table.get?_update]
  cases hg : st.conversations.get? g with
  | none => rfl
  | some row => simp [(Table.get?_eq_some.1 hg).2]

theorem requestOf_update {gid : Bytes} {f : ConversationRow → ConversationRow}
    {hf : ∀ r, (f r).groupId = r.groupId} (hr : ∀ r, (f r).request = r.request) (st : Store) (g : Bytes) :
    requestOf g (updateConversation gid f hf st) = requestOf g st := by
  unfold requestOf
  rw [get?_updateConversation]
  cases st.conversations.get? g with
  | none => rfl
  | some row =>
    by_cases hg : g = gid
    · simp [hg, hr]
    · simp [hg]

theorem requestOf_requestSetFrom (gid identity : Bytes) (st : Store) (g : Bytes) :
    requestOf g (requestSetFrom gid identity st) = requestOf g st := by
  refine requestOf_update ?_ st g
  exact fun _ => rfl

theorem requestOf_requestSetCard (gid : Bytes) (card : CardUse) (name : Option String) (st : Store) (g : Bytes) :
    requestOf g (requestSetCard gid card name st) = requestOf g st := by
  refine requestOf_update ?_ st g
  exact fun _ => rfl

theorem request_saveConversationRow (at_ : Int) (gid : Bytes) (creator : Bool) (st : Store) (g : Bytes) :
    request (saveConversationRow at_ gid creator st) g = request st g := by
  show ((st.conversations.upsert _ _ _).get? g).bind _ = _
  rw [Table.get?_upsert]
  unfold request
  split
  · cases st.conversations.get? g <;> rfl
  · rfl

theorem requestOf_eq_request (gid : Bytes) (st : Store) : requestOf gid st = (request st gid).map (·.status) := by
  unfold requestOf request
  cases st.conversations.get? gid with
  | none => rfl
  | some row => cases h : row.request <;> simp [h]

theorem requestOf_saveConversationRow (at_ : Int) (gid : Bytes) (creator : Bool) (st : Store) (g : Bytes) :
    requestOf g (saveConversationRow at_ gid creator st) = requestOf g st := by
  rw [requestOf_eq_request, requestOf_eq_request, request_saveConversationRow]

theorem requestOpen_pending {gid g : Bytes} {st : Store} (h : Pending g st) : Pending g (requestOpen gid st) := by
  unfold Pending requestOf at h ⊢
  rw [requestOpen, get?_updateConversation]
  obtain ⟨row, hrow, hreq⟩ := Option.bind_eq_some_iff.1 h
  rw [hrow]
  by_cases hg : g = gid
  · simp [hg, hreq]
  · simp [hg, hreq]

theorem conversationBlind_requestOf {gid g : Bytes} (h : gid ≠ g) : ConversationBlind gid (requestOf g) := by
  intro st f hf
  unfold requestOf
  rw [get?_updateConversation]
  cases st.conversations.get? g with
  | none => rfl
  | some row =>
    have hne : g ≠ gid := fun he => h he.symm
    simp [hne]

theorem contactBlind_requestOf (g : Bytes) : ContactBlind (requestOf g) := fun _ _ _ => rfl

theorem invitationBlind_requestOf (g : Bytes) : InvitationBlind (requestOf g) := fun _ _ _ => rfl

theorem requestOf_of_conversations {g : Bytes} {t u : Store} (h : t.conversations = u.conversations) :
    requestOf g t = requestOf g u := by
  unfold requestOf
  rw [h]

/-- A roster that resolves a request: the first one whose sender the profile knows,
when that is this identity or a contact the person chose, or when a line of it
names this identity. The sender is looked up with the roster's own lines saved. -/
def RosterReleases (pf : Platform) (s : Session) (gid : Bytes) (st : Store) (a : Act) : Prop :=
  ∃ now mailbox item msg group leaf ev peers d from_, a = .receive now mailbox item ∧
    openedMessage pf s mailbox item = .ok msg ∧ SentBy pf msg st gid group leaf ev ∧ appKind ev.kind = .roster ∧
    rosterPeers pf s (Route.lines ev.body) = .ok peers ∧ (∀ r ∈ request st gid, r.from_ = none) ∧
    (pf.memberAtIndex group leaf).bind (·.deviceId) = some d ∧
    deviceIdentity (savePeers gid peers st) gid d = some from_ ∧
    (from_ = s.identityId ∨ (∃ p ∈ peers, p.identity = s.identityId) ∨ contactIsAccepted st from_ = true)

/-- What ends a request. -/
def Releases (pf : Platform) (s : Session) (gid : Bytes) (st : Store) (a : Act) : Prop :=
  (∃ accept, a = .answer gid accept) ∨
    (∃ relay now, a = .settleInPerson relay now ∧ ∃ r ∈ requestsInPersonPending st, r.groupId = gid) ∨
    (∃ relay now, a = .settle relay now ∧ ∃ h ∈ st.invitationHellos, h.groupId = gid) ∨
    RosterReleases pf s gid st a

/-- The first roster of a conversation whose request has no sender yet. -/
def FirstRoster (pf : Platform) (s : Session) (gid : Bytes) (st : Store) (a : Act) (group : Bytes) (leaf : UInt32)
    (peers : List Peer) : Prop :=
  ∃ now mailbox item msg ev, a = .receive now mailbox item ∧ openedMessage pf s mailbox item = .ok msg ∧
    SentBy pf msg st gid group leaf ev ∧ appKind ev.kind = .roster ∧ rosterPeers pf s (Route.lines ev.body) = .ok peers ∧
    ∀ r ∈ request st gid, r.from_ = none

/-- A leaf that one of the issued credentials binds to an identity. -/
def Bound (pf : Platform) (issued : List Bytes) (m : Member) (i : Bytes) : Prop :=
  ∃ c ∈ issued, ∃ root d, Identity.identityId pf.crypto root = i ∧ m.deviceId = some d ∧
    Identity.Names pf.crypto c root d m.signatureKey

/-- A first roster that gives its sender's device to this identity or to an accepted contact, or names this identity for
another device, does so on the strength of credentials. -/
def Vouched (pf : Platform) (s : Session) (issued : List Bytes) (gid : Bytes) (st : Store) (a : Act) : Prop :=
  ∀ group leaf peers, FirstRoster pf s gid st a group leaf peers →
    (∀ m d i, pf.memberAtIndex group leaf = some m → m.deviceId = some d →
      deviceIdentity (savePeers gid peers st) gid d = some i → i = s.identityId ∨ contactIsAccepted st i = true →
        Bound pf issued m i) ∧
    ((∃ p ∈ peers, p.identity = s.identityId) →
      ∃ m ∈ pf.mlsRoster group, m.deviceId ≠ some s.device.keys.deviceId ∧ Bound pf issued m s.identityId)

/-- The acts that may end a request if the sender of a roster and the devices it
names have to be bound by a credential. -/
def ReleasesBound (pf : Platform) (s : Session) (issued : List Bytes) (gid : Bytes) (st : Store) (a : Act) : Prop :=
  (∃ accept, a = .answer gid accept) ∨
    (∃ relay now, a = .settleInPerson relay now ∧ ∃ r ∈ requestsInPersonPending st, r.groupId = gid) ∨
    (∃ relay now, a = .settle relay now ∧ ∃ h ∈ st.invitationHellos, h.groupId = gid) ∨
    ∃ group leaf peers, FirstRoster pf s gid st a group leaf peers ∧
      ((∃ m, pf.memberAtIndex group leaf = some m ∧
          (Bound pf issued m s.identityId ∨ ∃ i, contactIsAccepted st i = true ∧ Bound pf issued m i)) ∨
        ∃ m ∈ pf.mlsRoster group, m.deviceId ≠ some s.device.keys.deviceId ∧ Bound pf issued m s.identityId)

theorem Releases.bound {issued : List Bytes} {gid : Bytes} {st : Store} {a : Act} (h : Releases pf s gid st a)
    (hv : Vouched pf s issued gid st a) : ReleasesBound pf s issued gid st a := by
  refine h.imp_right (Or.imp_right (Or.imp_right ?_))
  rintro ⟨now, mailbox, item, msg, group, leaf, ev, peers, d, from_, ha, hm, hs, hk, hps, hfirst, hd, hdi, hres⟩
  have hroster : FirstRoster pf s gid st a group leaf peers := ⟨now, mailbox, item, msg, ev, ha, hm, hs, hk, hps, hfirst⟩
  obtain ⟨hsender, hnamed⟩ := hv group leaf peers hroster
  obtain ⟨m, hmem, hdev⟩ := Option.bind_eq_some_iff.1 hd
  refine ⟨group, leaf, peers, hroster, ?_⟩
  rcases hres with rfl | hline | hacc
  · exact Or.inl ⟨m, hmem, Or.inl (hsender m d _ hmem hdev hdi (Or.inl rfl))⟩
  · exact Or.inr (hnamed hline)
  · exact Or.inl ⟨m, hmem, Or.inr ⟨from_, hacc, hsender m d from_ hmem hdev hdi (Or.inr hacc)⟩⟩

theorem accepted_of_seenOnly {t t' : Table ContactRow.identityId} (h : SeenOnly t t') {i : Bytes}
    (ha : (t'.get? i).any (·.accepted) = true) : (t.get? i).any (·.accepted) = true := by
  obtain ⟨c', hc', hacc⟩ := (Option.any_eq_true _ _).1 ha
  obtain ⟨hmem, hid⟩ := Table.get?_eq_some.1 hc'
  rcases h c' hmem with ⟨c, hc, he⟩ | hnew
  · have hget : t.get? i = some c := Table.get?_eq_some.2 ⟨hc, by rw [← hid, ← he]⟩
    rw [← he] at hacc
    simpa [hget] using hacc
  · rw [hnew] at hacc
    cases hacc

theorem deviceIdentity_savePeers {t u : Store} (hi : t.identity = u.identity) (hd : t.device = u.device)
    (ho : t.identityDevices = u.identityDevices) (hp : t.peers = u.peers) (g : Bytes) (peers : List Peer)
    (gid d : Bytes) : deviceIdentity (savePeers g peers t) gid d = deviceIdentity (savePeers g peers u) gid d := by
  unfold deviceIdentity
  rw [savePeers_peers hp, savePeers_eq g peers t, savePeers_eq g peers u]
  simp only [hi, hd, ho]

theorem classified_pending (gid : Bytes) (sender : Option Bytes) (peers : List Peer) {g : Bytes} {st : Store}
    (h : Pending g st) :
    Pending g (classified s gid sender peers st) ∨
      (g = gid ∧ (∀ r ∈ request st gid, r.from_ = none) ∧ ∃ from_, sender = some from_ ∧ Resolves s from_ peers st) := by
  unfold classified
  split
  · next req from_ hreq =>
    split
    · exact Or.inl h
    · next hnot =>
      have hfrom : Pending g (requestSetFrom gid from_ st) := by
        unfold Pending at h ⊢
        rw [requestOf_requestSetFrom, h]
      split
      · next hres =>
        by_cases hg : g = gid
        · refine Or.inr ⟨hg, ?_, from_, rfl, hres⟩
          intro r hr
          obtain rfl := Option.some.inj (hreq.symm.trans hr)
          simpa using (not_or.1 hnot).2
        · refine Or.inl ?_
          have hblind := conversationBlind_requestOf (Ne.symm hg) (requestSetFrom gid from_ st)
          unfold Pending at hfrom ⊢
          rw [requestResolve, hblind, hfrom]
      · exact Or.inl hfrom
  · exact Or.inl h

theorem roster_pending {now : Int} {group gid body : Bytes} {leaf : UInt32} {t t' : Store} {ch : StateChange}
    {g : Bytes} (hr : handleRoster pf s now group gid leaf body t = (.ok ch, t')) (hp : Pending g t) :
    Pending g t' ∨ (g = gid ∧ ∃ peers d from_, rosterPeers pf s (Route.lines body) = .ok peers ∧
      (∀ r ∈ request t gid, r.from_ = none) ∧ (pf.memberAtIndex group leaf).bind (·.deviceId) = some d ∧
      deviceIdentity (savePeers gid peers t) gid d = some from_ ∧
      (from_ = s.identityId ∨ (∃ p ∈ peers, p.identity = s.identityId) ∨ contactIsAccepted t from_ = true)) := by
  obtain ⟨peers, contacts, hps, hseen, rfl⟩ := handleRoster_ok hr
  set row := saveConversationRow now gid false { t with contacts := contacts } with hrow
  have hrest := savePeers_eq gid peers row
  have hsaved : ∀ g', request (savePeers gid peers row) g' = request t g' := by
    intro g'
    rw [hrest]
    exact request_saveConversationRow now gid false { t with contacts := contacts } g'
  have hwait : Pending g (savePeers gid peers row) := by
    unfold Pending at hp ⊢
    rw [requestOf_eq_request, hsaved, ← requestOf_eq_request, hp]
  rcases classified_pending (s := s) gid ((senderOf pf group gid leaf (savePeers gid peers row)).bind (·.identityId))
    peers hwait with hstay | ⟨hg, hfirst, from_, hfrom, hres⟩
  · exact Or.inl hstay
  · obtain ⟨d, hd, hdi, -⟩ := senderOf_identity hfrom
    refine Or.inr ⟨hg, peers, d, from_, hps, ?_, hd, ?_, ?_⟩
    · simpa only [hsaved] using hfirst
    · rw [← hdi]
      refine deviceIdentity_savePeers ?_ ?_ ?_ ?_ gid peers gid d <;> rfl
    · rcases hres with h | h | h
      · exact Or.inl h
      · exact Or.inr (Or.inl (by simpa using h))
      · refine Or.inr (Or.inr (accepted_of_seenOnly hseen ?_))
        rw [hrest] at h
        exact h

theorem effect_pending {now : Int} {mailbox : Bytes} {item : EnvelopeItem} {msg : MlsMessage} {st st' : Store}
    {inbox} {g : Bytes} (hm : openedMessage pf s mailbox item = .ok msg)
    (h : Effect pf s now msg item.deliveryId { st with inbox := inbox } st') (hp : Pending g st) :
    Pending g st' ∨ RosterReleases pf s g st (.receive now mailbox item) := by
  cases h with
  | joined hw hj =>
    refine Or.inl (requestOpen_pending ?_)
    unfold Pending at hp ⊢
    rw [requestOf_saveConversationRow]
    exact hp
  | dropped hf hg hd => exact Or.inl hp
  | handshake ho hn => exact Or.inl hp
  | unknown hs hk => exact Or.inl hp
  | @roster gid group leaf ev ch st' hs hk hr =>
    rcases roster_pending hr (g := g) hp with hstay | ⟨rfl, peers, d, from_, hps, hfirst, hd, hdi, hres⟩
    · exact Or.inl hstay
    · refine Or.inr ⟨now, mailbox, item, msg, group, leaf, ev, peers, d, from_, rfl, hm, sentBy_inbox hs, hk, hps,
        hfirst, hd, ?_, hres⟩
      rw [← hdi]
      refine deviceIdentity_savePeers ?_ ?_ ?_ ?_ g peers g d <;> rfl
  | manifest hs hk hr =>
    refine Or.inl ?_
    have hsame : st'.conversations = st.conversations := congrArg (·.conversations) (handleManifest_rest hr)
    unfold Pending at hp ⊢
    rw [requestOf_of_conversations hsame, hp]
  | text hs hk hr =>
    obtain ⟨t, -, rfl⟩ := handleText_ok hr
    exact Or.inl hp
  | file hs hk hr =>
    obtain ⟨t, -, rfl⟩ := handleFile_ok hr
    exact Or.inl hp
  | hello hs hk hr =>
    unfold handleHello at hr
    rw [Prog.bind_ok (eventSender_run ..)] at hr
    refine Or.inl ?_
    unfold Pending at hp ⊢
    obtain ⟨hello, -, ⟨-, rfl⟩ | ⟨-, hellos, name, rfl | ⟨k, c, -, -, -, rfl⟩⟩⟩ := receiveHello_ok hr
    · exact hp
    all_goals
      rw [requestOf_requestSetCard]
      exact hp

theorem queueText_conversations {w : World} {c : Conversation} {text eventId entropy : Bytes} {order : Nat → UInt64}
    {draws : Nat → Send.Draw} :
    (Act.step pf s w (.queueText c text eventId entropy order draws)).store.conversations = w.store.conversations := by
  rw [step_queueText]
  exact congrArg (·.conversations) (fixes_queueText c text eventId entropy order draws w.store)

theorem step_pending {g : Bytes} {w : World} {a : Act} (hp : Pending g w.store) :
    Pending g (Act.step pf s w a).store ∨ Releases pf s g w.store a := by
  have hsame (h : (Act.step pf s w a).store.conversations = w.store.conversations) :
      Pending g (Act.step pf s w a).store := by
    unfold Pending at hp ⊢
    rw [requestOf_of_conversations h, hp]
  by_cases hapart : a.apart = true
  · exact Or.inl (hsame (congrArg (·.conversations) (step_apart hapart w)))
  cases a <;> try exact absurd rfl hapart
  case receive now mailbox item =>
    rw [step_receive]
    rcases receiveUnit_cases pf s now mailbox item w.store with
      ⟨e', hrun⟩ | ⟨-, hrun⟩ | ⟨t, msg, ch, st', hi, hmsg, heff, hrun⟩
    all_goals rw [hrun]
    · exact Or.inl hp
    · exact Or.inl hp
    · exact (effect_pending hmsg heff hp).imp_right fun h => Or.inr (Or.inr (Or.inr h))
  case refresh identity signed =>
    exact Or.inl (hsame (congrArg (·.conversations) (step_manifests (Or.inl ⟨identity, signed, rfl⟩) w)))
  case deviceRevoke device =>
    exact Or.inl (hsame (congrArg (·.conversations) (step_manifests (Or.inr ⟨device, rfl⟩) w)))
  case queueText c text eventId entropy order draws => exact Or.inl (hsame queueText_conversations)
  case saveConversation createdAt c =>
    refine Or.inl ?_
    unfold Pending at hp ⊢
    rw [step_saveConversation]
    obtain ⟨ct, -, ⟨e', hrun⟩ | hrun⟩ := conversationSave_cases createdAt c w.store
    · rw [hrun]
      exact hp
    · rw [hrun, savePeers_eq]
      exact (requestOf_saveConversationRow createdAt c.groupId c.creator _ g).trans hp
  case answer groupId accept =>
    by_cases hg : groupId = g
    · exact Or.inr (Or.inl ⟨accept, by rw [hg]⟩)
    · refine Or.inl ?_
      unfold Pending at hp ⊢
      have h := fixes_answer (contactBlind_requestOf g) (conversationBlind_requestOf hg).answer accept w.store
      exact h.trans hp
  case settleInPerson relay now =>
    by_cases hg : ∃ r ∈ requestsInPersonPending w.store, r.groupId = g
    · exact Or.inr (Or.inr (Or.inl ⟨relay, now, rfl, hg⟩))
    · refine Or.inl ?_
      unfold Pending at hp ⊢
      have h := fixes_settleInPerson pf (contactBlind_requestOf g) relay now
        (fun r hr => conversationBlind_requestOf fun he => hg ⟨r, hr, he⟩)
      exact h.trans hp
  case settle relay now =>
    by_cases hg : ∃ h ∈ w.store.invitationHellos, h.groupId = g
    · exact Or.inr (Or.inr (Or.inr (Or.inl ⟨relay, now, rfl, hg⟩)))
    · refine Or.inl ?_
      unfold Pending at hp ⊢
      have h := fixes_settle pf (contactBlind_requestOf g) (invitationBlind_requestOf g) relay now
        (fun h hh => (conversationBlind_requestOf fun he => hg ⟨h, hh, he⟩).answer)
      exact h.trans hp

def Joins (pf : Platform) (s : Session) (st : Store) (a : Act) (gid : Bytes) : Prop :=
  ∃ now mailbox item msg group used inbox, a = .receive now mailbox item ∧
    openedMessage pf s mailbox item = .ok msg ∧ msg.wireFormat = .welcome ∧
    st.inbox.insert ⟨mailbox, item.deliveryId, item.seq.toInt64, false⟩ = some inbox ∧
    pf.mlsJoin st.mlsKeyPackages.rows msg = .ok (group, used) ∧ pf.mlsGroupId group = gid

theorem requestOf_requestOpen {at_ : Int} {gid : Bytes} {st : Store} (h : requestOf gid st ≠ some .declined) :
    Pending gid (requestOpen gid (saveConversationRow at_ gid false st)) := by
  unfold Pending requestOf at *
  rw [requestOpen, get?_updateConversation]
  show Option.bind (Option.map _ ((st.conversations.upsert _ _ _).get? gid)) _ = _
  rw [Table.get?_upsert, if_pos rfl]
  cases hrow : st.conversations.get? gid with
  | none => simp
  | some row =>
    simp only [hrow, Option.bind_some] at h
    cases hreq : row.request with
    | none => simp [hreq]
    | some status => cases status <;> simp_all

theorem joins_pending {gid : Bytes} {w : World} {a : Act} (hj : Joins pf s w.store a gid)
    (hd : requestOf gid w.store ≠ some .declined) : Pending gid (Act.step pf s w a).store := by
  obtain ⟨now, mailbox, item, msg, group, used, inbox, rfl, hm, hw, hi, hjoin, rfl⟩ := hj
  rw [step_receive, receiveUnit_run hi hm]
  have hrun : handleMls pf s now msg item.deliveryId { w.store with inbox := inbox } =
      (.ok (.conversationJoined (pf.mlsGroupId group) (pf.mlsEpoch group)),
        requestOpen (pf.mlsGroupId group) (saveConversationRow now (pf.mlsGroupId group) false
          (pf.writeGroup group used { w.store with inbox := inbox }))) := by
    unfold handleMls
    rw [hw]
    exact handleWelcome_run hjoin
  rw [hrun]
  exact requestOf_requestOpen hd

/-- A request that no longer waits was ended by an act. -/
theorem pending_or_released {gid : Bytes} {w : World} {acts : List Act} (h : Pending gid w.store) :
    Pending gid (Trace.run (Act.step pf s) w acts).store ∨
      Trace.Occurs (Act.step pf s) (fun w a => Releases pf s gid w.store a) w acts := by
  refine or_iff_not_imp_left.2 fun hp => ?_
  have hprov := Trace.provenance (C := fun _ _ => True) (I := fun _ => True)
    (Q := fun w : World => ¬ Pending gid w.store) (P := fun w a => Releases pf s gid w.store a)
    (fun _ _ _ _ => trivial)
    (fun w a _ _ hn => by
      by_cases h : Pending gid w.store
      · exact Or.inr ((step_pending h).resolve_left hn)
      · exact Or.inl h) (Trace.meets_true _ acts) trivial hp
  exact hprov.resolve_left (not_not.2 h)

/-- A conversation joined through a Welcome waits, and goes on waiting until one of
the acts that end a request. Where rosters say only what credentials bear out, no other
roster is among these. -/
theorem waits_until_released (w : World) (before : List Act) (a : Act) (after : List Act) (gid : Bytes)
    (hj : Joins pf s (Trace.run (Act.step pf s) w before).store a gid)
    (hd : requestOf gid (Trace.run (Act.step pf s) w before).store ≠ some .declined) :
    let joined := Trace.run (Act.step pf s) w (before ++ [a])
    Pending gid joined.store ∧
      (Pending gid (Trace.run (Act.step pf s) joined after).store ∨
        Trace.Occurs (Act.step pf s) (fun w a => Releases pf s gid w.store a) joined after) ∧
      ∀ issued, Trace.Meets (Act.step pf s) (fun w a => Vouched pf s issued gid w.store a) joined after →
        Pending gid (Trace.run (Act.step pf s) joined after).store ∨
          Trace.Occurs (Act.step pf s) (fun w a => ReleasesBound pf s issued gid w.store a) joined after := by
  have hjoined : Pending gid (Trace.run (Act.step pf s) w (before ++ [a])).store := by
    rw [Trace.run_append]
    exact joins_pending hj hd
  have hreleased := @pending_or_released pf s gid _ after hjoined
  refine ⟨hjoined, hreleased, fun issued hv => hreleased.imp_right fun h => ?_⟩
  rw [Trace.occurs_iff] at h ⊢
  obtain ⟨acts, b, rest, he, hb⟩ := h
  exact ⟨acts, b, rest, he, hb.bound (hv.at he)⟩

section demo

open Demo

def demoGroup : Group := ⟨[7], 1, 0, [⟨0, some [9], publicKey [9, 2]⟩, ⟨1, some [66], publicKey [66, 2]⟩]⟩

def demoWelcome : MlsMessage := ⟨.welcome, none, welcome.write ([5], demoGroup)⟩

def demoJoin : Act := .receive 0 [8] (item 1 1 demoWelcome)

def demoJoined : World := Act.step platform (sessionOf 9) profile demoJoin

/-- Identity 66 sends a roster of its own device and, if it likes, a line that
names a device of identity 9. -/
def demoEvent (claim : Bool) : AppEvent :=
  ⟨"roster", routeOf 66 66 70 71 ++ if claim then 10 :: routeOf 9 77 72 73 else []⟩

def demoMessage (claim : Bool) : MlsMessage := eventFrom [7] 1 "roster" (demoEvent claim).body

def demoRoster (claim : Bool) : Act := .receive 0 [8] (item 2 2 (demoMessage claim))

theorem demo_joins : Joins platform (sessionOf 9) profile.store demoJoin [7] := by
  have hopen : (openedMessage platform (sessionOf 9) [8] (item 1 1 demoWelcome)).toOption = some demoWelcome := by
    decide +kernel
  have hjoin : (platform.mlsJoin profile.store.mlsKeyPackages.rows demoWelcome).toOption =
      some (group.write demoGroup, some [5]) := by decide +kernel
  have hgid : platform.mlsGroupId (group.write demoGroup) = [7] := by decide +kernel
  obtain ⟨inbox, hi⟩ : ∃ t, profile.store.inbox.insert ⟨[8], [1], 1, false⟩ = some t := ⟨_, rfl⟩
  exact ⟨0, [8], item 1 1 demoWelcome, demoWelcome, _, _, inbox, rfl, ok_of_toOption hopen, rfl, hi,
    ok_of_toOption hjoin, hgid⟩

def demoCredential : Bytes := Identity.issueCredential crypto [9] (keysOf 9).public ⟨0, 100⟩ allUses

theorem demo_bound {m : Member} {i : Bytes} (h : Bound platform [demoCredential] m i) : m.deviceId = some [9] := by
  obtain ⟨c, hc, root, d, -, hd, hn⟩ := h
  obtain rfl := List.mem_singleton.1 hc
  obtain ⟨rfl, -⟩ := Identity.names_issueCredential crypto_lawful hn
  exact hd

theorem demo_processed (claim : Bool) :
    (openedMessage platform (sessionOf 9) [8] (item 2 2 (demoMessage claim))).toOption = some (demoMessage claim) ∧
      (demoJoined.store.mlsGroups.get? [7]).map (·.state) = some (group.write demoGroup) ∧
      (platform.mlsProcess (deviceRevoked demoJoined.store) (group.write demoGroup) (demoMessage claim)).toOption =
        some (group.write demoGroup, .applicationMessage 1 (appEvent.write (demoEvent claim))) := by
  cases claim <;> decide +kernel

theorem demo_sender {claim : Bool} {msg : MlsMessage} {g : Bytes} {leaf : UInt32} {ev : AppEvent}
    (hm : openedMessage platform (sessionOf 9) [8] (item 2 2 (demoMessage claim)) = .ok msg)
    (hs : SentBy platform msg demoJoined.store [7] g leaf ev) :
    ev = demoEvent claim ∧ ∀ m, platform.memberAtIndex g leaf = some m → m.deviceId = some [66] := by
  obtain ⟨hopen, hstate, hproc⟩ := demo_processed claim
  obtain rfl := Except.ok.inj ((ok_of_toOption hopen).symm.trans hm)
  obtain ⟨data, ⟨-, -, -, row, hrow, hp⟩, hev⟩ := hs
  rw [hrow] at hstate
  have hst : row.state = group.write demoGroup := Option.some.inj hstate
  rw [hst] at hp
  obtain ⟨rfl, hrecv⟩ := Prod.mk.inj (Except.ok.inj ((ok_of_toOption hproc).symm.trans hp))
  obtain ⟨rfl, rfl⟩ := ReceivedMessage.applicationMessage.inj hrecv
  have hone : platform.memberAtIndex (group.write demoGroup) 1 = some ⟨1, some [66], publicKey [66, 2]⟩ := by
    decide +kernel
  refine ⟨Except.ok.inj (hev.symm.trans (Wire.decode_write appEvent _)), fun m hmem => ?_⟩
  obtain rfl := Option.some.inj (hone.symm.trans hmem)
  rfl

theorem demo_vouched : Vouched platform (sessionOf 9) [demoCredential] [7] demoJoined.store (demoRoster false) := by
  rintro g leaf peers ⟨now, mailbox, item, msg, ev, ha, hm, hs, -, hps, -⟩
  obtain ⟨rfl, rfl, rfl⟩ := Act.receive.inj ha
  obtain ⟨rfl, hdev⟩ := demo_sender hm hs
  have hsaid : (rosterPeers platform (sessionOf 9) (Route.lines (demoEvent false).body)).toOption.map (fun peers =>
      (peers.all fun p => decide (p.identity ≠ (sessionOf 9).identityId)) && ((deviceIdentity (savePeers [7] peers demoJoined.store) [7]
        [66]).all fun i => decide (i ≠ (sessionOf 9).identityId) && !contactIsAccepted demoJoined.store i)) = some true := by
    decide +kernel
  rw [hps] at hsaid
  have hboth := Option.some.inj hsaid
  rw [Bool.and_eq_true, List.all_eq_true] at hboth
  refine ⟨fun m d i hmem hd hi hown => ?_, fun ⟨p, hp, hid⟩ => ?_⟩
  · obtain rfl := Option.some.inj ((hdev m hmem).symm.trans hd)
    rw [hi, Option.all_some, Bool.and_eq_true, Bool.not_eq_true', decide_eq_true_eq] at hboth
    rcases hown with hown | hacc
    · exact absurd hown hboth.2.1
    · exact absurd hacc (by simp [hboth.2.2])
  · exact absurd hid (of_decide_eq_true (hboth.1 p hp))

theorem stranger_waits :
    Pending [7] demoJoined.store ∧
      (Pending [7] (Trace.run (Act.step platform (sessionOf 9)) demoJoined [demoRoster false]).store ∨
        Trace.Occurs (Act.step platform (sessionOf 9)) (fun w a => Releases platform (sessionOf 9) [7] w.store a)
          demoJoined [demoRoster false]) ∧
      (Pending [7] (Trace.run (Act.step platform (sessionOf 9)) demoJoined [demoRoster false]).store ∨
        Trace.Occurs (Act.step platform (sessionOf 9))
          (fun w a => ReleasesBound platform (sessionOf 9) [demoCredential] [7] w.store a) demoJoined [demoRoster false]) := by
  have h := waits_until_released profile [] demoJoin [demoRoster false] [7] demo_joins (by decide +kernel)
  rw [List.nil_append, Trace.run_cons (Act.step platform (sessionOf 9)) profile, Trace.run_nil, ← demoJoined] at h
  exact ⟨h.1, h.2.1, h.2.2 [demoCredential] ⟨demo_vouched, trivial⟩⟩

/-- A stranger's roster with a line that names identity 9 ends the request of
identity 9's own profile: nobody answered, no code or invitation was settled, and
the only credential under root 9 names this device. -/
theorem stranger_resolves_own_request :
    Pending [7] demoJoined.store ∧
      ¬ (Pending [7] (Trace.run (Act.step platform (sessionOf 9)) demoJoined [demoRoster true]).store ∨
        Trace.Occurs (Act.step platform (sessionOf 9))
          (fun w a => ReleasesBound platform (sessionOf 9) [demoCredential] [7] w.store a) demoJoined
          [demoRoster true]) := by
  have hend : Pending [7] demoJoined.store ∧
      ¬ Pending [7] (Trace.run (Act.step platform (sessionOf 9)) demoJoined [demoRoster true]).store := by
    decide +kernel
  refine ⟨hend.1, ?_⟩
  rintro (h | h)
  · exact hend.2 h
  rcases h with h | h
  · rcases h with ⟨accept, h⟩ | ⟨relay, now, h, -⟩ | ⟨relay, now, h, -⟩ |
      ⟨g, leaf, peers, ⟨now, mailbox, item, msg, ev, ha, hm, hs, -⟩, hbound⟩
    · cases h
    · cases h
    · cases h
    · obtain ⟨rfl, rfl, rfl⟩ := Act.receive.inj ha
      rcases hbound with ⟨m, hmem, hb⟩ | ⟨m, -, hne, hb⟩
      · have hdev := (demo_sender hm hs).2 m hmem
        rcases hb with hb | ⟨i, -, hb⟩
        all_goals
          rw [demo_bound hb] at hdev
          cases hdev
      · exact hne (demo_bound hb)
  · exact h

end demo

end Arveil.Requests

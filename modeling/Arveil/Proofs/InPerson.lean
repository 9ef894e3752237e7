import Arveil.Proofs.Requests
import Arveil.Proofs.Routes

/-! Who an in-person code verifies. The code is spent when a hello brings it, the
person is whoever the first roster came from, and the leaf is looked for among all
the devices of that person: three facts that need not be about one party. -/

namespace Arveil.InPerson

open Client Receive Requests

variable {pf : Platform} {s : Session}

def cardOf (gid : Bytes) (st : Store) : CardUse := (st.conversations.get? gid).elim .none (·.requestCard)

/-- A hello of the conversation that spent an in-person code of this device: a code
that was not revoked, not expired and not used. `sender` is the leaf it came from. -/
def Spends (pf : Platform) (s : Session) (gid : Bytes) (sender : Option Member) (st : Store) (a : Act) : Prop :=
  ∃ now mailbox item msg group leaf ev hello key c, a = .receive now mailbox item ∧
    openedMessage pf s mailbox item = .ok msg ∧ SentBy pf msg st gid group leaf ev ∧ appKind ev.kind = .hello ∧
    pf.decodeHello ev.body = .ok hello ∧ hello.secret = some key ∧ st.contactCards.get? key = some c ∧
    c.kind = .inPerson ∧ c.revoked = false ∧ now < c.expiresAt ∧ c.usedAt = none ∧
    pf.memberAtIndex group leaf = sender

theorem cardOf_update {gid : Bytes} {f : ConversationRow → ConversationRow}
    {hf : ∀ r, (f r).groupId = r.groupId} (hr : ∀ r, (f r).requestCard = r.requestCard) (st : Store) (g : Bytes) :
    cardOf g (updateConversation gid f hf st) = cardOf g st := by
  unfold cardOf
  rw [get?_updateConversation]
  cases st.conversations.get? g with
  | none => rfl
  | some row =>
    by_cases hg : g = gid
    · simp [hg, hr]
    · simp [hg]

theorem cardOf_requestOpen (gid : Bytes) (st : Store) (g : Bytes) : cardOf g (requestOpen gid st) = cardOf g st := by
  refine cardOf_update ?_ st g
  exact fun _ => rfl

theorem cardOf_requestSetFrom (gid identity : Bytes) (st : Store) (g : Bytes) :
    cardOf g (requestSetFrom gid identity st) = cardOf g st := by
  refine cardOf_update ?_ st g
  exact fun _ => rfl

theorem cardOf_requestResolve (gid : Bytes) (accepted : Bool) (st : Store) (g : Bytes) :
    cardOf g (requestResolve gid accepted st) = cardOf g st := by
  refine cardOf_update ?_ st g
  exact fun _ => rfl

theorem cardOf_requestSetCard {gid : Bytes} {card : CardUse} {name : Option String} {st : Store} {g : Bytes}
    (h : cardOf g (requestSetCard gid card name st) = .inPersonPending) :
    cardOf g st = .inPersonPending ∨ (g = gid ∧ card = .inPersonPending) := by
  unfold cardOf at h ⊢
  rw [requestSetCard, get?_updateConversation] at h
  cases hrow : st.conversations.get? g with
  | none => simp [hrow] at h
  | some row =>
    rw [hrow] at h
    by_cases hg : g = gid
    · exact Or.inr ⟨hg, by simpa [hg] using h⟩
    · exact Or.inl (by simpa [hg] using h)

theorem cardOf_saveConversationRow (at_ : Int) (gid : Bytes) (creator : Bool) (st : Store) (g : Bytes) :
    cardOf g (saveConversationRow at_ gid creator st) = cardOf g st := by
  show ((st.conversations.upsert _ _ _).get? g).elim _ _ = _
  rw [Table.get?_upsert]
  unfold cardOf
  split
  · cases st.conversations.get? g <;> rfl
  · rfl

theorem cardOf_of_conversations {g : Bytes} {t u : Store} (h : t.conversations = u.conversations) :
    cardOf g t = cardOf g u := by
  unfold cardOf
  rw [h]

theorem cardOf_classified (gid : Bytes) (sender : Option Bytes) (peers : List Peer) (st : Store) (g : Bytes) :
    cardOf g (classified s gid sender peers st) = cardOf g st := by
  unfold classified
  split
  · split
    · rfl
    · split
      · rw [cardOf_requestResolve, cardOf_requestSetFrom]
      · rw [cardOf_requestSetFrom]
  · rfl

theorem cardUse_inPerson {c : OwnCard} (h : cardUse (some c) = .inPersonPending) : c.kind = .inPerson := by
  unfold cardUse at h
  cases hk : c.kind with
  | inPerson => rfl
  | link => simp [hk] at h

theorem valid_inPerson {c : OwnCard} {now : Int} (hk : c.kind = .inPerson) (h : OwnCard.valid c now = true) :
    c.revoked = false ∧ now < c.expiresAt ∧ c.usedAt = none := by
  unfold OwnCard.valid at h
  simpa [hk, and_assoc] using h

theorem effect_card {now : Int} {mailbox : Bytes} {item : EnvelopeItem} {msg : MlsMessage} {st st' : Store}
    {inbox} {g : Bytes} (hm : openedMessage pf s mailbox item = .ok msg)
    (h : Effect pf s now msg item.deliveryId { st with inbox := inbox } st')
    (hc : cardOf g st' = .inPersonPending) :
    cardOf g st = .inPersonPending ∨ ∃ sender, Spends pf s g sender st (.receive now mailbox item) := by
  cases h with
  | joined hw hj =>
    rw [cardOf_requestOpen, cardOf_saveConversationRow] at hc
    exact Or.inl hc
  | dropped hf hg hd => exact Or.inl hc
  | handshake ho hn => exact Or.inl hc
  | unknown hs hk => exact Or.inl hc
  | roster hs hk hr =>
    obtain ⟨peers, contacts, -, -, rfl⟩ := handleRoster_ok hr
    rw [cardOf_classified, savePeers_eq] at hc
    exact Or.inl ((cardOf_saveConversationRow ..).symm.trans hc)
  | manifest hs hk hr =>
    have hsame : st'.conversations = st.conversations := congrArg (·.conversations) (handleManifest_rest hr)
    rw [cardOf_of_conversations hsame] at hc
    exact Or.inl hc
  | text hs hk hr =>
    obtain ⟨t, -, rfl⟩ := handleText_ok hr
    exact Or.inl hc
  | file hs hk hr =>
    obtain ⟨t, -, rfl⟩ := handleFile_ok hr
    exact Or.inl hc
  | @hello gid group leaf ev ch st' hs hk hr =>
    unfold handleHello at hr
    rw [Prog.bind_ok (eventSender_run ..)] at hr
    obtain ⟨hello, hdec, ⟨-, rfl⟩ | ⟨-, hellos, name, rfl | ⟨key, c, hkey, hcard, hv, rfl⟩⟩⟩ := receiveHello_ok hr
    · exact Or.inl hc
    · exact Or.inl ((cardOf_requestSetCard hc).resolve_right (by simp))
    · rcases cardOf_requestSetCard hc with hold | ⟨rfl, huse⟩
      · exact Or.inl hold
      · have hkind := cardUse_inPerson huse
        obtain ⟨hrev, hexp, hused⟩ := valid_inPerson hkind hv
        exact Or.inr ⟨_, now, mailbox, item, msg, group, leaf, ev, hello, key, c, rfl, hm, sentBy_inbox hs, hk, hdec,
          hkey, hcard, hkind, hrev, hexp, hused, rfl⟩

theorem contactBlind_cardOf (g : Bytes) : ContactBlind (cardOf g) := fun _ _ _ => rfl

theorem invitationBlind_cardOf (g : Bytes) : InvitationBlind (cardOf g) := fun _ _ _ => rfl

theorem answerBlind_cardOf (gid g : Bytes) : AnswerBlind gid (cardOf g) :=
  fun st accepted => cardOf_requestResolve gid accepted st g

theorem conversationBlind_cardOf {gid g : Bytes} (h : gid ≠ g) : ConversationBlind gid (cardOf g) := by
  intro st f hf
  unfold cardOf
  rw [get?_updateConversation]
  have hne : g ≠ gid := fun he => h he.symm
  cases st.conversations.get? g <;> simp [hne]

theorem mem_requestsInPersonPending {r : Request} {st : Store} (h : r ∈ requestsInPersonPending st) :
    cardOf r.groupId st = .inPersonPending ∧ (r.status ≠ .declined → requestOf r.groupId st ≠ some .declined) := by
  obtain ⟨c, hc, rfl⟩ := List.mem_map.1 h
  obtain ⟨hmem, hcard⟩ := List.mem_filter.1 hc
  have hget : st.conversations.get? c.groupId = some c := Table.get?_eq_some.2 ⟨hmem, rfl⟩
  refine ⟨by simpa [cardOf, hget] using hcard, fun hstatus hreq => hstatus ?_⟩
  have hdecl : c.request = some .declined := by simpa [requestOf, hget] using hreq
  simp [hdecl]

theorem pending_of_card {g : Bytes} {st : Store} (h : cardOf g st = .inPersonPending) :
    ∃ r, r ∈ requestsInPersonPending st := by
  unfold cardOf at h
  cases hg : st.conversations.get? g with
  | none => simp [hg] at h
  | some row =>
    have hcard : row.requestCard = .inPersonPending := by simpa [hg] using h
    have hmem : row ∈ st.conversations.rows := (Table.get?_eq_some.1 hg).1
    exact ⟨_, List.mem_map_of_mem (List.mem_filter.2 ⟨hmem, by simpa using hcard⟩)⟩

theorem step_card {g : Bytes} {w : World} {a : Act} (hc : cardOf g (Act.step pf s w a).store = .inPersonPending) :
    cardOf g w.store = .inPersonPending ∨ ∃ sender, Spends pf s g sender w.store a := by
  have hsame (h : (Act.step pf s w a).store.conversations = w.store.conversations) :
      cardOf g w.store = .inPersonPending := (cardOf_of_conversations h).symm.trans hc
  by_cases hapart : a.apart = true
  · exact Or.inl (hsame (congrArg (·.conversations) (step_apart hapart w)))
  cases a <;> try exact absurd rfl hapart
  case receive now mailbox item =>
    rw [step_receive] at hc
    rcases receiveUnit_cases pf s now mailbox item w.store with
      ⟨e', hrun⟩ | ⟨-, hrun⟩ | ⟨t, msg, ch, st', hi, hmsg, heff, hrun⟩
    all_goals rw [hrun] at hc
    · exact Or.inl hc
    · exact Or.inl hc
    · exact effect_card hmsg heff hc
  case refresh identity signed =>
    exact Or.inl (hsame (congrArg (·.conversations) (step_manifests (Or.inl ⟨identity, signed, rfl⟩) w)))
  case deviceRevoke device =>
    exact Or.inl (hsame (congrArg (·.conversations) (step_manifests (Or.inr ⟨device, rfl⟩) w)))
  case queueText c text eventId entropy order draws => exact Or.inl (hsame queueText_conversations)
  case saveConversation createdAt c =>
    refine Or.inl ?_
    rw [step_saveConversation] at hc
    obtain ⟨ct, -, ⟨e', hrun⟩ | hrun⟩ := conversationSave_cases createdAt c w.store
    · rw [hrun] at hc
      exact hc
    · rw [hrun, savePeers_eq] at hc
      exact (cardOf_saveConversationRow createdAt c.groupId c.creator _ g).symm.trans hc
  case answer groupId accept =>
    have h := fixes_answer (contactBlind_cardOf g) (answerBlind_cardOf groupId g) accept w.store
    exact Or.inl (h.symm.trans hc)
  case settle relay now =>
    have h := fixes_settle pf (contactBlind_cardOf g) (invitationBlind_cardOf g) relay now (w := w)
      (fun h _ => answerBlind_cardOf h.groupId g)
    exact Or.inl (h.symm.trans hc)
  case settleInPerson relay now =>
    refine Or.inl ?_
    by_cases hg : ∃ r ∈ requestsInPersonPending w.store, r.groupId = g
    · obtain ⟨r, hr, rfl⟩ := hg
      exact (mem_requestsInPersonPending hr).1
    · have h := fixes_settleInPerson pf (contactBlind_cardOf g) relay now
        (fun r hr => conversationBlind_cardOf fun he => hg ⟨r, hr, he⟩)
      exact h.symm.trans hc

/-- The relay serves a credential under a root of `identity` that names this device
and key. -/
def Serves (cx : Crypto) (relay : Relay) (identity deviceId key : Bytes) : Prop :=
  ∃ earlier hash signed root, relay.answer earlier (.credentialGet identity hash) = .ok (.credentialFound signed) ∧
    Identity.identityId cx root = identity ∧ Identity.Names cx signed root deviceId key

theorem servedCredential_ok {relay : Relay} {r : Route} {signed : Bytes} {w w' : World}
    (h : Net.servedCredential relay r w = (.ok signed, w')) :
    ∃ earlier, relay.answer earlier (.credentialGet r.identityId r.credentialHash) = .ok (.credentialFound signed) := by
  unfold Net.servedCredential at h
  obtain ⟨reply, w₁, h1, h⟩ := Prog.bind_eq_ok.1 h
  refine ⟨w.sent, ?_⟩
  have hreply : reply = relay.answer w.sent (.credentialGet r.identityId r.credentialHash) :=
    (Except.ok.inj (Prod.mk.inj h1).1).symm
  rw [← hreply]
  split at h
  · rw [Except.ok.inj (Prod.mk.inj h).1]
  all_goals cases h

theorem verifyClaimedDevice_ok {cx : Crypto} {claimed : Identity.ClaimedDevice} {signed manifest : Bytes}
    {now : UInt64} {c : DeviceCredential} (h : Identity.verifyClaimedDevice cx claimed signed manifest now = .ok c) :
    Identity.Names cx signed claimed.root claimed.deviceId c.mlsSignaturePublicKey := by
  unfold Identity.verifyClaimedDevice at h
  cases hv : Identity.verifyCredential cx signed (some claimed.root) now with
  | error e => simp [hv] at h
  | ok v =>
    simp only [hv] at h
    split at h
    · cases h
    split at h
    · cases h
    next hdev =>
    split at h
    · cases h
    split at h
    · cases h
    split at h
    · cases h
    split at h
    · obtain rfl := Except.ok.inj h
      exact ⟨now, v, hv, not_not.1 hdev, rfl⟩
    · cases h

theorem verifiedRouteCredential_ok {relay : Relay} {now : Int} {r : Route} {c : DeviceCredential} {w w' : World}
    (hd : Identity.identityId pf.crypto r.rootPublic = r.identityId)
    (h : Net.verifiedRouteCredential relay pf now r w = (.ok c, w')) :
    Serves pf.crypto relay r.identityId r.deviceId c.mlsSignaturePublicKey := by
  unfold Net.verifiedRouteCredential at h
  obtain ⟨signed, w₁, h1, h⟩ := Prog.bind_eq_ok.1 h
  obtain ⟨earlier, hserved⟩ := servedCredential_ok h1
  obtain ⟨-, w₂, -, h⟩ := Prog.bind_eq_ok.1 h
  obtain ⟨manifest, w₃, -, h⟩ := Prog.bind_eq_ok.1 h
  obtain ⟨-, w₄, -, h⟩ := Prog.bind_eq_ok.1 h
  obtain ⟨root, w₅, h5, h⟩ := Prog.bind_eq_ok.1 h
  obtain ⟨hroot, -⟩ := Prog.ofExcept_eq_ok.1 h5
  obtain ⟨hc, -⟩ := Prog.ofExcept_eq_ok.1 h
  obtain rfl := Route.root_ok hroot
  split at hc
  · next c' hv =>
    obtain rfl := Except.ok.inj hc
    exact ⟨earlier, r.credentialHash, signed, r.rootPublic, hserved, hd, verifyClaimedDevice_ok hv⟩
  · cases hc

theorem skipDomain_ok {α : Type} {p : Net α} {a : α} {w w' : World}
    (h : Net.skipDomain p w = (.ok (some a), w')) : ∃ w₁, p w = (.ok a, w₁) := by
  unfold Net.skipDomain at h
  obtain ⟨r, w₁, h1, h⟩ := Prog.bind_eq_ok.1 h
  have hr : (p w).1 = r := Except.ok.inj (Prod.mk.inj h1).1
  split at h
  · refine ⟨(p w).2, Prod.ext ?_ rfl⟩
    rw [hr, Option.some.inj (Except.ok.inj (Prod.mk.inj h).1)]
  · cases h
  · cases h

/-- A peer that binds: the relay serves a credential of its identity that names its
device with the key of the first leaf of that device. -/
theorem bindPeer_ok {relay : Relay} {now : Int} {group : Bytes} {peers : List Peer} {r : Route × Bytes}
    {w w' : World} (h : Net.bindPeer relay pf now group peers w = (.ok (some r), w')) :
    ∃ p ∈ peers, p.deviceId = r.1.deviceId ∧
      ∃ m, (pf.mlsRoster group).find? (fun m => m.deviceId = some p.deviceId) = some m ∧
        Serves pf.crypto relay p.identity p.deviceId m.signatureKey := by
  induction peers generalizing w with
  | nil => cases h
  | cons peer rest ih =>
    have hlater {w₁ : World} (h : Net.bindPeer relay pf now group rest w₁ = (.ok (some r), w')) :
        ∃ p ∈ peer :: rest, p.deviceId = r.1.deviceId ∧
          ∃ m, (pf.mlsRoster group).find? (fun m => m.deviceId = some p.deviceId) = some m ∧
            Serves pf.crypto relay p.identity p.deviceId m.signatureKey := by
      obtain ⟨p, hp, hm⟩ := ih h
      exact ⟨p, List.mem_cons_of_mem peer hp, hm⟩
    unfold Net.bindPeer at h
    cases htext : routeOfPeer peer with
    | none =>
      simp only [htext] at h
      exact hlater h
    | some text =>
      simp only [htext] at h
      obtain ⟨parsed, w₁, h1, h⟩ := Prog.bind_eq_ok.1 h
      obtain ⟨hparsed, rfl⟩ := Prog.ofExcept_eq_ok.1 h1
      obtain ⟨credential, w₂, h2, h⟩ := Prog.bind_eq_ok.1 h
      cases credential with
      | none => exact hlater h
      | some credential =>
        by_cases hleaf : Net.firstLeafBinds (pf.mlsRoster group) parsed.deviceId credential.mlsSignaturePublicKey = true
        · obtain ⟨w₃, hv⟩ := skipDomain_ok h2
          have hserves := verifiedRouteCredential_ok (Route.parse_ok hparsed).2 hv
          obtain ⟨hid, hdev⟩ := Route.parse_routeOfPeer htext hparsed
          obtain ⟨m, hm, hkey⟩ := (Option.any_eq_true _ _).1 hleaf
          rw [hid, hdev, ← of_decide_eq_true hkey] at hserves
          simp only [if_pos hleaf] at h
          obtain rfl : (parsed, text) = r := Option.some.inj (Except.ok.inj (Prod.mk.inj h).1)
          rw [hdev] at hm
          exact ⟨peer, List.mem_cons_self, hdev.symm, m, hm, hserves⟩
        · simp only [if_neg hleaf] at h
          exact hlater h

/-- The leaf a request is bound to in the devices and the group of a profile, by an
exchange with the relay: the first leaf of the device whose route the loop over the
identity's devices stops at. -/
def Binds (pf : Platform) (relay : Relay) (now : Int) (st : Store) (r : Request) (identity : Bytes) (m : Member) :
    Prop :=
  r.from_ = some identity ∧ ∃ row, st.mlsGroups.get? r.groupId = some row ∧ ∃ w w' route text,
    Net.bindPeer relay pf now row.state ((peersOf st r.groupId).filter fun p => p.identity = identity) w =
      (.ok (some (route, text)), w') ∧
    (pf.mlsRoster row.state).find? (fun m => m.deviceId = some route.deviceId) = some m

theorem Binds.peer {relay : Relay} {now : Int} {st : Store} {r : Request} {identity : Bytes} {m : Member}
    (h : Binds pf relay now st r identity m) : ∃ p ∈ peersOf st r.groupId, p.identity = identity ∧
      m.deviceId = some p.deviceId ∧ Serves pf.crypto relay identity p.deviceId m.signatureKey := by
  obtain ⟨-, row, -, w, w', route, text, hb, hm⟩ := h
  obtain ⟨p, hp, hdev, m', hm', hserves⟩ := bindPeer_ok hb
  obtain ⟨hmem, hid⟩ := List.mem_filter.1 hp
  obtain rfl : p.identity = identity := of_decide_eq_true hid
  rw [hdev, hm] at hm'
  obtain rfl := Option.some.inj hm'
  have hleaf : m.deviceId = some route.deviceId := by simpa using List.find?_some hm
  exact ⟨p, hmem, rfl, hdev ▸ hleaf, hserves⟩

/-- Settling these requests changes the contacts of those it binds, and nothing
that a binding is read from. -/
def Settles (pf : Platform) (relay : Relay) (now : Int) (rs : List Request) (w w' : World) : Prop :=
  unsettled w'.store = unsettled w.store ∧ ∀ c ∈ w'.store.contacts, c ∈ w.store.contacts ∨
    ∃ r ∈ rs, ∃ m, Binds pf relay now w.store r c.identityId m

theorem Settles.refl (pf : Platform) (relay : Relay) (now : Int) (rs : List Request) (w : World) :
    Settles pf relay now rs w w :=
  ⟨rfl, fun _ hc => Or.inl hc⟩

theorem binds_congr {relay : Relay} {now : Int} {t u : Store} {r : Request} {identity : Bytes} {m : Member}
    (h : unsettled t = unsettled u) (hb : Binds pf relay now t r identity m) : Binds pf relay now u r identity m := by
  have hpeers : t.peers = u.peers := congrArg (·.peers) h
  have hgroups : t.mlsGroups = u.mlsGroups := congrArg (·.mlsGroups) h
  simpa only [Binds, peersOf, hpeers, hgroups] using hb

theorem Settles.trans (pf : Platform) (relay : Relay) (now : Int) (rs : List Request) (w w' w'' : World)
    (h : Settles pf relay now rs w w') (h' : Settles pf relay now rs w' w'') : Settles pf relay now rs w w'' := by
  refine ⟨h'.1.trans h.1, fun c hc => ?_⟩
  rcases h'.2 c hc with hold | ⟨r, hr, hb⟩
  · exact h.2 c hold
  · obtain ⟨m, hb⟩ := hb
    exact Or.inr ⟨r, hr, m, binds_congr h.1 hb⟩

/-- Only the contact row of one identity was written, and what settling may write. -/
def Touches (identity : Bytes) (w w' : World) : Prop :=
  unsettled w'.store = unsettled w.store ∧ ∀ c ∈ w'.store.contacts, c ∈ w.store.contacts ∨ c.identityId = identity

theorem Touches.refl (identity : Bytes) (w : World) : Touches identity w w := ⟨rfl, fun _ hc => Or.inl hc⟩

theorem Touches.trans (identity : Bytes) (w w' w'' : World) (h : Touches identity w w') (h' : Touches identity w' w'') :
    Touches identity w w'' :=
  ⟨h'.1.trans h.1, fun c hc => (h'.2 c hc).elim (h.2 c) Or.inr⟩

theorem mem_updateContact {identity : Bytes} {f : ContactRow → ContactRow} {hf : ∀ r, (f r).identityId = r.identityId}
    {st : Store} {c : ContactRow} (h : c ∈ (updateContact identity f hf st).contacts) :
    c ∈ st.contacts ∨ c.identityId = identity := by
  obtain ⟨c', hc', rfl⟩ := Table.mem_update.1
    (show c ∈ st.contacts.update (fun c => c.identityId = identity) f hf from h)
  by_cases hid : c'.identityId = identity
  · exact Or.inr (by simp [hid, hf])
  · exact Or.inl (by simpa [hid] using hc')

theorem touches_contactRouteSave (identity device route : Bytes) :
    Prog.Keeps (Touches identity) (onStore (storage "contact" (contactRouteSave identity device route))) := by
  intro w
  refine ⟨fixes_storage (fixes_contactRouteSave unsettled_contactBlind identity device route) w.store, fun c hc => ?_⟩
  have hrun : (onStore (storage "contact" (contactRouteSave identity device route)) w).2.store =
      (contactRouteSave identity device route w.store).2 := Prog.mapError_snd _ _ _
  rw [hrun] at hc
  simp only [contactRouteSave, Prog.bind_run, Prog.read_run] at hc
  cases hk : contact w.store identity with
  | none =>
    simp only [hk, Prog.fail_run] at hc
    exact Or.inl hc
  | some row =>
    simp only [hk, Prog.bind_run, Prog.modify_run] at hc
    exact mem_updateContact hc

theorem touches_contactVerified (identity : Bytes) (how : VerifiedHow) (now : Int) :
    Prog.Keeps (Touches identity) (onStore (storage "contact" (contactVerified identity how now))) := by
  intro w
  refine ⟨fixes_storage (fixes_updateKnownContact unsettled_contactBlind) w.store, fun c hc => ?_⟩
  have hrun : (onStore (storage "contact" (contactVerified identity how now)) w).2.store =
      (contactVerified identity how now w.store).2 := Prog.mapError_snd _ _ _
  rw [hrun] at hc
  simp only [contactVerified, updateKnownContact, Prog.bind_run, Prog.read_run] at hc
  cases hk : contact w.store identity with
  | none =>
    simp only [hk, Prog.fail_run] at hc
    exact Or.inl hc
  | some row =>
    simp only [hk, Prog.modify_run] at hc
    exact mem_updateContact hc

theorem touches_requestSetCard (identity gid : Bytes) (card : CardUse) :
    Prog.Keeps (Touches identity) (onStore (Prog.modify (requestSetCard gid card none))) :=
  fun _ => ⟨rfl, fun _ hc => Or.inl hc⟩

theorem touches_requestResolve (identity gid : Bytes) :
    Prog.Keeps (Touches identity) (onStore (Prog.modify (requestResolve gid true))) :=
  fun _ => ⟨rfl, fun _ hc => Or.inl hc⟩

theorem conversations_peers {st : Store} {gid : Bytes} {conv : Conversation}
    (h : (conversations st).find? (fun c => c.groupId = gid) = some conv) : conv.peers = peersOf st gid := by
  have hgid : conv.groupId = gid := by simpa using List.find?_some h
  obtain ⟨row, -, hrow⟩ := List.mem_filterMap.1 (List.mem_of_find?_eq_some h)
  obtain ⟨r, -, rfl⟩ := Option.map_eq_some_iff.1 hrow
  exact congrArg (peersOf st) hgid

theorem touches_bound (from_ : Bytes) (r : Request) (now : Int) (bound : Route × Bytes) :
    Prog.Keeps (Touches from_) (do
      onStore (storage "contact" (contactRouteSave from_ bound.1.deviceId bound.2))
      onStore (storage "contact" (contactVerified from_ .inPerson now))
      onStore (Prog.modify (requestSetCard r.groupId .inPerson none))
      Prog.when (r.status = .pending) (onStore (Prog.modify (requestResolve r.groupId true)))) :=
  Prog.keeps_bind (Touches.trans from_) (touches_contactRouteSave _ _ _) fun _ =>
    Prog.keeps_bind (Touches.trans from_) (touches_contactVerified _ _ _) fun _ =>
    Prog.keeps_bind (Touches.trans from_) (touches_requestSetCard _ _ _) fun _ =>
    Prog.keeps_when (Touches.refl from_) _ (touches_requestResolve _ _)

theorem settleRequest_settles {relay : Relay} {rs : List Request} {r : Request} (hr : r ∈ rs) (now : Int) :
    Prog.Keeps (Settles pf relay now rs) (Net.settleRequest relay pf now r) := by
  intro w
  have hsame {w' : World} (h : w'.store = w.store) : Settles pf relay now rs w w' := by
    rw [Settles, h]
    exact Settles.refl pf relay now rs w
  unfold Net.settleRequest
  cases hfrom : r.from_ with
  | none => exact Settles.refl pf relay now rs w
  | some from_ =>
    simp only
    rw [Prog.bind_ok (Prog.read_run _ w)]
    cases hconv : (conversations w.store).find? fun c => c.groupId = r.groupId with
    | none => exact Settles.refl pf relay now rs w
    | some conv =>
      simp only
      have hload : Prog.Same (·.store) w (onStore (pf.loadGroup r.groupId) w).2 := fixes_onStore (f := id) (fixes_loadGroup r.groupId) w
      rcases hl : onStore (pf.loadGroup r.groupId) w with ⟨_ | group, w₁⟩ <;> rw [hl] at hload
      · rw [Prog.bind_error hl]
        exact hsame hload
      rw [Prog.bind_ok hl]
      have hbind : Prog.Same (·.store) w₁ (Net.bindPeer relay pf now group (conv.peers.filter fun p => p.identity = from_) w₁).2 :=
        fixes_bindPeer (f := id) relay now group (conv.peers.filter fun p => p.identity = from_) w₁
      rcases hb : Net.bindPeer relay pf now group (conv.peers.filter fun p => p.identity = from_) w₁ with
        ⟨_ | bound, w₂⟩ <;> rw [hb] at hbind
      · rw [Prog.bind_error hb]
        exact hsame (hbind.trans hload)
      rw [Prog.bind_ok hb]
      have hstore : w₂.store = w.store := hbind.trans hload
      cases bound with
      | none =>
        have hrest : unsettled w₂.store = unsettled w.store := congrArg unsettled hstore
        exact ⟨hrest, fun c hc => Or.inl (hstore ▸ hc)⟩
      | some bound =>
        obtain ⟨hrest, hcontacts⟩ := touches_bound from_ r now bound w₂
        refine ⟨hrest.trans (congrArg unsettled hstore), fun c hc => ?_⟩
        rcases hcontacts c hc with hold | rfl
        · exact Or.inl (hstore ▸ hold)
        · obtain ⟨st, hgroup, -⟩ := Prog.zoom_eq_ok.1 hl
          obtain ⟨-, row, hrow, rfl⟩ := loadGroup_ok hgroup
          obtain ⟨p, -, hdev, m, hm, -⟩ := bindPeer_ok hb
          rw [hdev] at hm
          rw [conversations_peers hconv] at hb
          exact Or.inr ⟨r, hr, m, hfrom, row, hrow, w₁, w₂, bound.1, bound.2, hb, hm⟩

/-- In the run before a settlement, whoever spent a code in the request's
conversation is the leaf that the request is bound to, where it is bound to one, and
the person did not decline it. -/
def Sure (pf : Platform) (s : Session) (relay : Relay) (now : Int) (w : World) (before : List Act) (r : Request) :
    Prop :=
  r.status ≠ .declined ∧
    ∀ identity m, Binds pf relay now (Trace.run (Act.step pf s) w before).store r identity m →
    ∀ sender, Trace.Occurs (Act.step pf s) (fun w a => Spends pf s r.groupId sender w.store a) w before →
      ∃ m', sender = some m' ∧ m'.deviceId = m.deviceId ∧ m'.signatureKey = m.signatureKey

/-- A leaf whose device and key stand in a credential under a root of `identity`
spent an in-person code in a conversation that is not declined. -/
def Met (pf : Platform) (s : Session) (relay : Relay) (w : World) (before : List Act) (identity : Bytes) : Prop :=
  ∃ gid m d, Trace.Occurs (Act.step pf s) (fun w a => Spends pf s gid (some m) w.store a) w before ∧
    m.deviceId = some d ∧ Serves pf.crypto relay identity d m.signatureKey ∧
    requestOf gid (Trace.run (Act.step pf s) w before).store ≠ some .declined

/-- Every settlement of the run writes only contacts that were met. -/
def OnlyMet (pf : Platform) (s : Session) (w : World) (acts : List Act) : Prop :=
  ∀ before relay now after, acts = before ++ Act.settleInPerson relay now :: after →
    ∀ c ∈ (Trace.run (Act.step pf s) w (before ++ [Act.settleInPerson relay now])).store.contacts,
      c ∈ (Trace.run (Act.step pf s) w before).store.contacts ∨ Met pf s relay w before c.identityId

theorem settleInPerson_settles (pf : Platform) (relay : Relay) (now : Int) (w : World) :
    Settles pf relay now (requestsInPersonPending w.store) w (Net.settleInPerson relay pf now w).2 :=
  Prog.keeps_forEach (Settles.refl pf relay now _) (Settles.trans pf relay now _) (requestsInPersonPending w.store)
    (fun _ hr => settleRequest_settles hr now) w

section demo

open Demo

def demoCredential : Bytes := Identity.issueCredential crypto [2] (keysOf 2).public ⟨0, 100⟩ allUses

def demoHash : Bytes :=
  [7, 61, 149, 88, 15, 38, 172, 166, 84, 81, 251, 50, 78, 252, 92, 123, 55, 95, 178, 79, 17, 176, 249, 4, 206, 156, 206,
    235, 253, 139, 241, 56]

example : Identity.credentialHash crypto demoCredential = demoHash := by decide +kernel

def demoManifest : Bytes := Identity.issueManifest crypto [2] none [demoHash] []

def demoRelay : Relay where
  answer _
    | .credentialGet i h => .ok (.credentialFound (if i = identityOf 2 ∧ h = demoHash then demoCredential else []))
    | .manifestGet i => .ok (.manifestLatest (if i = identityOf 2 then demoManifest else []))
    | _ => .error (.relay 400 "unsupported frame")
  debug _ := ""

def demoGroup : Group :=
  ⟨[7], 1, 0, [⟨0, some [9], publicKey [9, 2]⟩, ⟨1, some [2], publicKey [2, 2]⟩, ⟨2, some [66], publicKey [66, 2]⟩]⟩

def demoRoute : Bytes :=
  Route.text (identityOf 2) [2] demoHash (publicKey [2]) [70] [71] (publicKey [2, 1])

/-- This device shows a code; identity 2 brings us into a group and sends its
roster; one of the leaves says hello with the code. -/
def demoBefore (leaf : UInt32) : List Act :=
  [.cardCreate .inPerson [1, 2, 3] 0,
    .receive 1 [8] (item 1 1 ⟨.welcome, none, welcome.write ([5], demoGroup)⟩),
    .receive 2 [8] (item 2 2 (eventFrom [7] 1 "roster" demoRoute)),
    .receive 3 [8] (item 3 3 (eventFrom [7] leaf "hello" (hello.write ⟨none, some [1, 2, 3], none⟩)))]

def demoActs (leaf : UInt32) : List Act := demoBefore leaf ++ ([.settleInPerson demoRelay 4] : List Act)

/-- The hellos of a run, computed: the conversation and the leaf of each. -/
def hellos : World → List Act → List (Bytes × Option Member)
  | _, [] => []
  | w, a :: acts =>
      (match a with
        | .receive _ mailbox item =>
            ((heard platform (sessionOf 9) w.store mailbox item).toList.filter fun h => appKind h.2.2.2.kind = .hello).map
              fun h => (h.1, platform.memberAtIndex h.2.1 h.2.2.1)
        | _ => []) ++ hellos (Act.step platform (sessionOf 9) w a) acts

theorem mem_hellos {gid : Bytes} {sender : Option Member} {w : World} {acts : List Act}
    (h : Trace.Occurs (Act.step platform (sessionOf 9))
      (fun w a => Spends platform (sessionOf 9) gid sender w.store a) w acts) : (gid, sender) ∈ hellos w acts := by
  induction acts generalizing w with
  | nil => exact h.elim
  | cons a acts ih =>
    refine List.mem_append.2 (h.imp ?_ ih)
    rintro ⟨now, mailbox, item, msg, group, leaf, ev, -, -, -, rfl, hm, hs, hk, -, -, -, -, -, -, -, rfl⟩
    simp [heard_of_sentBy hm hs, hk]

def demoLeaf (n : UInt8) (leaf : UInt32) : Member := ⟨leaf, some [n], publicKey [n, 2]⟩

def demoWorld (leaf : UInt32) : World := Trace.run (Act.step platform (sessionOf 9)) profile (demoBefore leaf)

def DemoSettled (leaf : UInt32) : Prop :=
  ∃ c ∈ (Act.step platform (sessionOf 9) (demoWorld leaf) (.settleInPerson demoRelay 4)).store.contacts.rows,
    c.identityId = identityOf 2 ∧ c.verifiedHow = some .inPerson ∧ c ∉ (demoWorld leaf).store.contacts.rows

instance (leaf : UInt32) : Decidable (DemoSettled leaf) := inferInstanceAs (Decidable (∃ c ∈ _, _))

theorem demo_bearer : hellos profile (demoBefore 1) = [([7], some (demoLeaf 2 1))] ∧ DemoSettled 1 ∧
    (∀ r ∈ requestsInPersonPending (demoWorld 1).store, r.status ≠ .declined ∧ r.groupId = [7]) ∧
    (∀ p ∈ peersOf (demoWorld 1).store [7], p.deviceId = [2]) ∧
    ((demoWorld 1).store.mlsGroups.get? [7]).map
      (fun row => (platform.mlsRoster row.state).find? fun m => m.deviceId = some [2]) =
      some (some (demoLeaf 2 1)) := by decide +kernel

theorem demo_other : hellos profile (demoBefore 2) = [([7], some (demoLeaf 66 2))] ∧ DemoSettled 2 := by
  decide +kernel

theorem demo_sure {r : Request} (hr : r ∈ requestsInPersonPending (demoWorld 1).store) :
    Sure platform (sessionOf 9) demoRelay 4 profile (demoBefore 1) r := by
  obtain ⟨hhellos, -, hpending, hpeers, hstate⟩ := demo_bearer
  obtain ⟨hstatus, hgid⟩ := hpending r hr
  rw [Sure, ← demoWorld]
  refine ⟨hstatus, fun identity m hbinds sender hspent => ?_⟩
  obtain ⟨p, hp, -, hdev, -⟩ := hbinds.peer
  obtain ⟨-, row, hrow, w, w', route, text, -, hm⟩ := hbinds
  have hleaf : m.deviceId = some route.deviceId := by simpa using List.find?_some hm
  rw [hgid] at hp hrow hspent
  rw [← hleaf, hdev, hpeers p hp] at hm
  rw [hrow] at hstate
  obtain rfl := Option.some.inj ((Option.some.inj hstate).symm.trans hm)
  have hmem := mem_hellos hspent
  rw [hhellos] at hmem
  obtain ⟨-, rfl⟩ := Prod.mk.inj (List.mem_singleton.1 hmem)
  exact ⟨demoLeaf 2 1, rfl, rfl, rfl⟩

end demo

end Arveil.InPerson

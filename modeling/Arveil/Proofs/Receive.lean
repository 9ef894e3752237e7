import Arveil.Proofs.Store
import Arveil.Spec.Sync

/-! What each part of the receive unit does to the profile when it succeeds. A
failed unit changes nothing, so these are all the ways a message can act. -/

namespace Arveil.Receive

open Client Delivery

variable {pf : Platform} {s : Session}

theorem storage_eq_ok {α : Type} {context : String} {p : Client α} {st st' : Store} {a : α} :
    storage context p st = (.ok a, st') ↔ p st = (.ok a, st') := Prog.mapError_eq_ok

theorem delivery_eq_ok {α : Type} {context : String} {p : Sql α} {st st' : Store} {a : α} :
    delivery context p st = (.ok a, st') ↔ p st = (.ok a, st') := Prog.mapError_eq_ok

theorem domain_eq_ok {α : Type} {context : String} {p : Client α} {st st' : Store} {a : α} :
    domain context p st = (.ok a, st') ↔ p st = (.ok a, st') := Prog.mapError_eq_ok

theorem liftProtocol_eq_ok {α : Type} {context : String} {r : Except String α} {st st' : Store} {a : α} :
    liftProtocol context r st = (.ok a, st') ↔ r = .ok a ∧ st = st' := by
  unfold liftProtocol
  rw [Prog.mapError_eq_ok, Prog.ofExcept_eq_ok]

def senderOf (pf : Platform) (group gid : Bytes) (leaf : UInt32) (st : Store) : Option EventSender :=
  ((pf.memberAtIndex group leaf).bind (·.deviceId)).map fun d => ⟨some d, deviceIdentity st gid d⟩

theorem eventSender_run (group gid : Bytes) (leaf : UInt32) (st : Store) :
    eventSender pf group gid leaf st = (.ok (senderOf pf group gid leaf st), st) := by
  unfold eventSender senderOf
  cases (pf.memberAtIndex group leaf).bind (·.deviceId) <;> rfl

theorem senderOf_identity {group gid : Bytes} {leaf : UInt32} {st : Store} {i : Bytes}
    (h : (senderOf pf group gid leaf st).bind (·.identityId) = some i) :
    ∃ d, (pf.memberAtIndex group leaf).bind (·.deviceId) = some d ∧ deviceIdentity st gid d = some i ∧
      (senderOf pf group gid leaf st).bind (·.deviceId) = some d := by
  unfold senderOf at h ⊢
  cases hd : (pf.memberAtIndex group leaf).bind (·.deviceId) with
  | none => simp [hd] at h
  | some d => exact ⟨d, rfl, by simpa [hd] using h, rfl⟩

theorem recordEventBy_ok {groupId eventId body : Bytes} {kind : EventKind} {sender : Option EventSender}
    {st st' : Store} {u : Unit} (h : recordEventBy groupId eventId kind body sender st = (.ok u, st')) :
    ∃ t, st.events.insert ⟨groupId, eventId, kind, body, sender.bind (·.deviceId), sender.bind (·.identityId)⟩ =
      some t ∧ st' = { st with events := t } := by
  unfold recordEventBy at h
  rw [sqlInsert_run] at h
  cases hi : st.events.insert
      ⟨groupId, eventId, kind, body, sender.bind (·.deviceId), sender.bind (·.identityId)⟩ with
  | none => simp [hi] at h
  | some t =>
    simp only [hi, Prod.mk.injEq] at h
    exact ⟨t, rfl, h.2.symm⟩

theorem loadGroup_ok {gid state : Bytes} {st st' : Store} (h : pf.loadGroup gid st = (.ok state, st')) :
    st' = st ∧ ∃ row, st.mlsGroups.get? gid = some row ∧ row.state = state := by
  unfold Platform.loadGroup at h
  simp only [Prog.bind_run, Prog.read_run] at h
  cases hg : st.mlsGroups.get? gid with
  | none => simp [hg] at h
  | some row =>
    simp only [hg, Prog.pure_run, Prod.mk.injEq, Except.ok.injEq] at h
    exact ⟨h.2.symm, row, rfl, h.1⟩

/-- Does the first roster of a conversation resolve its request? -/
def Resolves (s : Session) (sender : Bytes) (peers : List Peer) (st : Store) : Prop :=
  sender = s.identityId ∨ peers.any (fun p => p.identity = s.identityId) = true ∨ contactIsAccepted st sender = true

instance (s : Session) (sender : Bytes) (peers : List Peer) (st : Store) : Decidable (Resolves s sender peers st) :=
  inferInstanceAs (Decidable (_ ∨ _ ∨ _))

def classified (s : Session) (gid : Bytes) (sender : Option Bytes) (peers : List Peer) (st : Store) : Store :=
  match Client.request st gid, sender with
  | some req, some from_ =>
      if req.status ≠ .pending ∨ req.from_.isSome then st
      else if Resolves s from_ peers st then requestResolve gid true (requestSetFrom gid from_ st)
      else requestSetFrom gid from_ st
  | _, _ => st

theorem classify_run (gid : Bytes) (sender : Option Bytes) (peers : List Peer) (st : Store) :
    classify s gid sender peers st = (.ok (), classified s gid sender peers st) := by
  unfold classify classified
  simp only [Prog.bind_run, Prog.read_run]
  cases Client.request st gid with
  | none => rfl
  | some req =>
    simp only
    by_cases hp : req.status ≠ .pending ∨ req.from_.isSome = true
    · rw [if_pos hp]
      cases sender with
      | none => rfl
      | some from_ => simp only [if_pos hp]; rfl
    · cases sender with
      | none => rw [if_neg hp]; rfl
      | some from_ =>
        have hacc : contactIsAccepted (requestSetFrom gid from_ st) from_ = contactIsAccepted st from_ := rfl
        simp only [if_neg hp, Prog.bind_run, Prog.modify_run, Prog.read_run, hacc]
        by_cases hr : Resolves s from_ peers st
        · rw [if_pos hr]
          exact congrFun (Prog.when_pos hr) _
        · rw [if_neg hr]
          exact congrFun (Prog.when_neg hr) _

theorem rosterPeers_mem {lines : List Bytes} {ps : List Peer} (h : rosterPeers pf s lines = .ok ps) {p : Peer}
    (hp : p ∈ ps) : ∃ line ∈ lines, ∃ r, Route.parse pf.crypto line = .ok r ∧ p = peerFromRoute r := by
  induction lines generalizing ps with
  | nil =>
    obtain rfl := Except.ok.inj h
    cases hp
  | cons line rest ih =>
    unfold rosterPeers at h
    cases hr : Route.parse pf.crypto line with
    | error e => simp [hr] at h
    | ok r =>
      cases hrest : rosterPeers pf s rest with
      | error e => simp [hr, hrest] at h
      | ok ps' =>
        simp only [hr, hrest, Except.ok.injEq] at h
        have hlater : p ∈ ps' → ∃ line' ∈ line :: rest, ∃ r, Route.parse pf.crypto line' = .ok r ∧
            p = peerFromRoute r := by
          intro hp
          obtain ⟨line', hl, r', hr', he⟩ := ih hrest hp
          exact ⟨line', List.mem_cons_of_mem line hl, r', hr', he⟩
        rw [← h] at hp
        split at hp
        · rcases List.mem_cons.1 hp with rfl | hp
          · exact ⟨line, List.mem_cons_self, r, hr, rfl⟩
          · exact hlater hp
        · exact hlater hp

theorem handleRoster_ok {now : Int} {group gid body : Bytes} {leaf : UInt32} {st st' : Store} {ch : StateChange}
    (h : handleRoster pf s now group gid leaf body st = (.ok ch, st')) :
    ∃ peers contacts, rosterPeers pf s (Route.lines body) = .ok peers ∧ SeenOnly st.contacts contacts ∧
      let saved := savePeers gid peers (saveConversationRow now gid false { st with contacts := contacts })
      st' = classified s gid ((senderOf pf group gid leaf saved).bind (·.identityId)) peers saved := by
  unfold handleRoster at h
  obtain ⟨peers, st₁, h1, h⟩ := Prog.bind_eq_ok.1 h
  obtain ⟨hpeers, rfl⟩ := Prog.ofExcept_eq_ok.1 h1
  obtain ⟨u, st₂, h2, h⟩ := Prog.bind_eq_ok.1 h
  obtain ⟨ct, hseen, ⟨e, he⟩ | hok⟩ := conversationSave_cases now ⟨gid, false, peers⟩ st
  · rw [storage_eq_ok, he] at h2
    simp at h2
  · rw [storage_eq_ok, hok] at h2
    obtain rfl := (Prod.mk.inj h2).2
    rw [Prog.bind_ok (eventSender_run ..), Prog.bind_ok (classify_run ..)] at h
    exact ⟨peers, ct, hpeers, hseen, (Prod.mk.inj h).2.symm⟩

theorem handleText_ok {group gid deliveryId body : Bytes} {leaf : UInt32} {st st' : Store} {ch : StateChange}
    (h : handleText pf group gid leaf deliveryId body st = (.ok ch, st')) :
    ∃ t, st.events.insert ⟨gid, deliveryId, .received, body, (senderOf pf group gid leaf st).bind (·.deviceId),
      (senderOf pf group gid leaf st).bind (·.identityId)⟩ = some t ∧ st' = { st with events := t } := by
  unfold handleText at h
  rw [Prog.bind_ok (eventSender_run ..)] at h
  obtain ⟨u, st₁, h1, h⟩ := Prog.bind_eq_ok.1 h
  obtain ⟨t, hi, rfl⟩ := recordEventBy_ok (delivery_eq_ok.1 h1)
  exact ⟨t, hi, (Prod.mk.inj h).2.symm⟩

theorem handleFile_ok {group gid deliveryId body : Bytes} {leaf : UInt32} {st st' : Store} {ch : StateChange}
    (h : handleFile pf group gid leaf deliveryId body st = (.ok ch, st')) :
    ∃ t, st.events.insert ⟨gid, deliveryId, .filePending, body, (senderOf pf group gid leaf st).bind (·.deviceId),
      (senderOf pf group gid leaf st).bind (·.identityId)⟩ = some t ∧ st' = { st with events := t } := by
  unfold handleFile at h
  obtain ⟨d, st₀, h0, h⟩ := Prog.bind_eq_ok.1 h
  obtain ⟨-, rfl⟩ := liftProtocol_eq_ok.1 h0
  rw [Prog.bind_ok (eventSender_run ..)] at h
  obtain ⟨u, st₁, h1, h⟩ := Prog.bind_eq_ok.1 h
  obtain ⟨t, hi, rfl⟩ := recordEventBy_ok (delivery_eq_ok.1 h1)
  exact ⟨t, hi, (Prod.mk.inj h).2.symm⟩

/-- What a notice of a device change looks like. -/
def IsNotice (identity : Bytes) (carrier : Option Bytes) (e : EventRow) : Prop :=
  e.kind = .devicesChanged ∧ e.senderDevice = carrier ∧ e.senderIdentity = some identity

theorem forEach_notice_ok {identity body : Bytes} {carrier : Option Bytes} {id : Bytes → Bytes}
    {groups : List Bytes} {st st' : Store} {u : Unit}
    (h : Prog.forEach groups (fun g => Prog.mapError ClientError.sqlite (recordEventBy g (id g) .devicesChanged body
      (some ⟨carrier, some identity⟩))) st = (.ok u, st')) :
    ∃ t, st' = { st with events := t } ∧ ∀ e ∈ t, e ∈ st.events ∨ IsNotice identity carrier e := by
  induction groups generalizing st with
  | nil => exact ⟨st.events, (Prod.mk.inj h).2.symm, fun e he => Or.inl he⟩
  | cons g groups ih =>
    rw [Prog.forEach_cons] at h
    obtain ⟨v, st₁, h1, h⟩ := Prog.bind_eq_ok.1 h
    obtain ⟨t, hi, rfl⟩ := recordEventBy_ok (Prog.mapError_eq_ok.1 h1)
    obtain ⟨t', rfl, ht'⟩ := ih h
    refine ⟨t', rfl, fun e he => ?_⟩
    rcases ht' e he with ho | hn
    · rcases (Table.mem_insert hi).1 ho with hold | rfl
      · exact Or.inl hold
      · exact Or.inr ⟨rfl, rfl, rfl⟩
    · exact Or.inr hn

theorem recordDeviceNotices_ok {identity : Bytes} {sequence : UInt64} {change : DeviceChange}
    {carrier : Option Bytes} {st st' : Store} {u : Unit}
    (h : recordDeviceNotices pf identity sequence change carrier st = (.ok u, st')) :
    ∃ t, st' = { st with events := t } ∧ ∀ e ∈ t, e ∈ st.events ∨ IsNotice identity carrier e := by
  unfold recordDeviceNotices at h
  split at h
  · exact ⟨st.events, (Prod.mk.inj h).2.symm, fun e he => Or.inl he⟩
  · obtain ⟨groups, st₁, h1, h⟩ := Prog.bind_eq_ok.1 h
    obtain ⟨-, rfl⟩ := Prog.read_eq_ok.1 h1
    exact forEach_notice_ok h

/-- An accepted manifest of `id`: it verifies under the root stored for it, and
what it did besides marking is its row of `peer_manifests` and its notices. -/
def PeerAccepted (cx : Crypto) (id signed : Bytes) (carrier : Option Bytes) (st st' : Store) : Prop :=
  ∃ root body state manifests t, (peerRoot st id).bind (Identity.verifyingKey cx) = some root ∧
    Identity.acceptManifest cx signed root (peerManifestState st id) = .ok (body, state) ∧
    (∀ e ∈ t, e ∈ st.events ∨ IsNotice id carrier e) ∧
    st' = { markAll body.revokedCredentialHashes { st with peerManifests := manifests } with events := t }

theorem peerManifestAccept_ok {cx : Crypto} {id signed : Bytes} {body : DeviceManifest} {new : Bool}
    {change : DeviceChange} {st st' : Store}
    (h : peerManifestAccept cx id signed st = (.ok (body, new, change), st')) :
    ∃ root state manifests, (peerRoot st id).bind (Identity.verifyingKey cx) = some root ∧
      Identity.acceptManifest cx signed root (peerManifestState st id) = .ok (body, state) ∧
      st' = markAll body.revokedCredentialHashes { st with peerManifests := manifests } := by
  rcases peerManifestAccept_cases cx id signed st with ⟨e, he⟩ | ⟨root, b, hroot, ha, hrun⟩
  · simp [he] at h
  · rw [hrun] at h
    obtain ⟨h1, rfl⟩ := Prod.mk.inj h
    obtain ⟨rfl, -⟩ := Prod.mk.inj (Except.ok.inj h1)
    split
    · exact ⟨root, _, _, hroot, ha, rfl⟩
    · exact ⟨root, _, st.peerManifests, hroot, ha, rfl⟩

theorem PeerAccepted.of_notices {cx : Crypto} {id signed : Bytes} {body : DeviceManifest} {new : Bool}
    {change : DeviceChange} {carrier : Option Bytes} {st st₁ st' : Store}
    (h : peerManifestAccept cx id signed st = (.ok (body, new, change), st₁))
    (hn : ∃ t, st' = { st₁ with events := t } ∧ ∀ e ∈ t, e ∈ st₁.events ∨ IsNotice id carrier e) :
    PeerAccepted cx id signed carrier st st' := by
  obtain ⟨root, state, manifests, hroot, ha, rfl⟩ := peerManifestAccept_ok h
  obtain ⟨t, rfl, ht⟩ := hn
  rw [markAll_eq] at ht
  exact ⟨root, body, state, manifests, t, hroot, ha, ht, rfl⟩

theorem refreshPeer_ok {id signed : Bytes} {r : DeviceManifest × Bool} {st st' : Store}
    (h : Sync.refreshPeer pf id signed st = (.ok r, st')) : PeerAccepted pf.crypto id signed none st st' := by
  unfold Sync.refreshPeer at h
  rw [Prog.unitOfWork_eq_ok] at h
  obtain ⟨⟨body, new, change⟩, st₁, h1, h⟩ := Prog.bind_eq_ok.1 h
  obtain ⟨u, st₂, h2, h⟩ := Prog.bind_eq_ok.1 h
  obtain rfl := (Prod.mk.inj h).2
  refine .of_notices h1 ?_
  by_cases hnew : new = true
  · rw [Prog.when_pos hnew] at h2
    exact recordDeviceNotices_ok h2
  · rw [Prog.when_neg hnew] at h2
    exact ⟨st₁.events, (Prod.mk.inj h2).2.symm, fun e he => Or.inl he⟩

theorem handleManifest_ok {group gid body : Bytes} {leaf : UInt32} {st st' : Store} {ch : StateChange}
    (h : handleManifest pf s group gid leaf body st = (.ok ch, st')) :
    (∃ id, id ≠ s.identityId ∧ Identity.manifestIdentityUnverified pf.crypto body = some id ∧
      PeerAccepted pf.crypto id body ((pf.memberAtIndex group leaf).bind (·.deviceId)) st st') ∨
    ∃ r, manifestAcceptOwn pf.crypto body st = (.ok r, st') := by
  unfold handleManifest at h
  obtain ⟨⟨m, new⟩, st₁, h1, h⟩ := Prog.bind_eq_ok.1 h
  obtain rfl := (Prod.mk.inj h).2
  unfold acceptGroupManifest at h1
  cases hid : Identity.manifestIdentityUnverified pf.crypto body with
  | none =>
    simp only [hid] at h1
    exact Or.inr ⟨_, domain_eq_ok.1 h1⟩
  | some id =>
    simp only [hid] at h1
    by_cases hown : id ≠ s.identityId
    · rw [if_pos hown] at h1
      obtain ⟨⟨b, new', change⟩, st₂, h2, h1⟩ := Prog.bind_eq_ok.1 h1
      obtain ⟨u, st₃, h3, h1⟩ := Prog.bind_eq_ok.1 h1
      obtain rfl := (Prod.mk.inj h1).2
      refine Or.inl ⟨id, hown, rfl, .of_notices (domain_eq_ok.1 h2) ?_⟩
      by_cases hnew : new' = true
      · simp only [Prog.when_pos hnew] at h3
        rw [Prog.bind_ok (eventSender_run ..)] at h3
        have hn := recordDeviceNotices_ok (storage_eq_ok.1 h3)
        unfold senderOf at hn
        cases hd : (pf.memberAtIndex group leaf).bind (·.deviceId) <;> simpa [hd] using hn
      · simp only [Prog.when_neg hnew] at h3
        exact ⟨st₂.events, (Prod.mk.inj h3).2.symm, fun e he => Or.inl he⟩
    · rw [if_neg hown] at h1
      exact Or.inr ⟨_, domain_eq_ok.1 h1⟩

theorem rememberHello_run (gid : Bytes) (sender : Option Bytes) (hello : Hello) (st : Store) :
    ∃ b hellos, rememberHello gid sender hello st = (.ok b, { st with invitationHellos := hellos }) := by
  rcases hello with ⟨_ | id, _ | secret, name⟩ <;> rcases sender with _ | from_
  case some.some.some =>
    simp only [rememberHello, Prog.bind_run, Prog.read_run]
    cases invitationOperation st id .outgoing with
    | none => exact ⟨_, st.invitationHellos, rfl⟩
    | some op =>
      by_cases hm : secret ≠ op.secret ∨ secret.length ≠ 16 ∨ op.state = "revoked"
      · simp only [if_pos hm]
        exact ⟨_, st.invitationHellos, rfl⟩
      · simp only [if_neg hm]
        exact ⟨_, _, rfl⟩
  all_goals exact ⟨_, st.invitationHellos, rfl⟩

theorem redeemSecret_cases (now : Int) (secret : Option Bytes) (st : Store) :
    redeemSecret now secret st = (.ok none, st) ∨
    ∃ k c c', secret = some k ∧ st.contactCards.get? k = some c ∧ OwnCard.valid c now = true ∧
      cardUse (some c') = cardUse (some c) ∧ redeemSecret now secret st = (.ok (some c'), useCard k now st) := by
  cases secret with
  | none => exact Or.inl rfl
  | some k =>
    simp only [redeemSecret, storage, Prog.mapError, cardRedeem, Prog.bind_run, Prog.read_run]
    cases hc : st.contactCards.get? k with
    | none => exact Or.inl rfl
    | some c =>
      by_cases hv : OwnCard.valid c now = true
      · simp only [if_pos hv]
        exact Or.inr ⟨k, c, { c with usedAt := some (c.usedAt.getD now), revoked := false }, rfl, hc, hv, rfl, rfl⟩
      · simp only [if_neg hv]
        exact Or.inl rfl

/-- What a hello did: it spent a card that worked, or it counts as no card. -/
def HelloTaken (now : Int) (gid : Bytes) (hello : Hello) (st st' : Store) : Prop :=
  ∃ hellos name,
    st' = requestSetCard gid .none name { st with invitationHellos := hellos } ∨
    ∃ k c, hello.secret = some k ∧ st.contactCards.get? k = some c ∧ OwnCard.valid c now = true ∧
      st' = requestSetCard gid (cardUse (some c)) name (useCard k now { st with invitationHellos := hellos })

theorem receiveHello_ok {now : Int} {gid body : Bytes} {sender : Option Bytes} {st st' : Store} {ch : StateChange}
    (h : receiveHello pf s now gid sender body st = (.ok ch, st')) :
    ∃ hello, pf.decodeHello body = .ok hello ∧
      ((sender = some s.identityId ∧ st' = st) ∨
        (sender ≠ some s.identityId ∧ HelloTaken now gid hello st st')) := by
  unfold receiveHello at h
  obtain ⟨hello, st₁, h1, h⟩ := Prog.bind_eq_ok.1 h
  obtain ⟨hd, rfl⟩ := liftProtocol_eq_ok.1 h1
  refine ⟨hello, hd, ?_⟩
  by_cases hown : sender = some s.identityId
  · rw [if_pos hown] at h
    exact Or.inl ⟨hown, (Prod.mk.inj h).2.symm⟩
  · rw [if_neg hown] at h
    refine Or.inr ⟨hown, ?_⟩
    obtain ⟨b, hellos, hr⟩ := rememberHello_run gid sender hello st
    rw [Prog.bind_ok hr] at h
    refine ⟨hellos, hello.name.bind cleanName, ?_⟩
    rcases redeemSecret_cases now hello.secret { st with invitationHellos := hellos } with
      hn | ⟨k, c, c', hk, hc, hv, huse, hs⟩
    · rw [Prog.bind_ok hn] at h
      exact Or.inl (Prod.mk.inj h).2.symm
    · rw [Prog.bind_ok hs, huse] at h
      exact Or.inr ⟨k, c, hk, hc, hv, (Prod.mk.inj h).2.symm⟩

/-- A message of a group this profile has not declined, as MLS opened it. -/
structure Opened (pf : Platform) (msg : MlsMessage) (st : Store) (gid group : Bytes) (received : ReceivedMessage) :
    Prop where
  format : msg.wireFormat = .privateMessage ∨ msg.wireFormat = .publicMessage
  groupId : msg.groupId = some gid
  taken : declined st gid = false
  processed : ∃ row, st.mlsGroups.get? gid = some row ∧
    pf.mlsProcess (deviceRevoked st) row.state msg = .ok (group, received)

/-- The application event a leaf sent in a group. -/
def SentBy (pf : Platform) (msg : MlsMessage) (st : Store) (gid group : Bytes) (leaf : UInt32) (ev : AppEvent) : Prop :=
  ∃ data, Opened pf msg st gid group (.applicationMessage leaf data) ∧ pf.decodeEvent data = .ok ev

/-- Everything a message that is processed can do to the profile. -/
inductive Effect (pf : Platform) (s : Session) (now : Int) (msg : MlsMessage) (deliveryId : Bytes) (st : Store) :
    Store → Prop
  | joined {group : Bytes} {used : Option Bytes} (hw : msg.wireFormat = .welcome)
      (hj : pf.mlsJoin st.mlsKeyPackages.rows msg = .ok (group, used)) :
      Effect pf s now msg deliveryId st (requestOpen (pf.mlsGroupId group)
        (saveConversationRow now (pf.mlsGroupId group) false (pf.writeGroup group used st)))
  | dropped {gid : Bytes} (hf : msg.wireFormat ≠ .welcome) (hg : msg.groupId = some gid)
      (hd : declined st gid = true) :
      Effect pf s now msg deliveryId st st
  | handshake {gid group : Bytes} {received : ReceivedMessage} (ho : Opened pf msg st gid group received)
      (hn : ∀ leaf data, received ≠ .applicationMessage leaf data) :
      Effect pf s now msg deliveryId st (pf.writeGroup group none st)
  | unknown {gid group : Bytes} {leaf : UInt32} {ev : AppEvent} (hs : SentBy pf msg st gid group leaf ev)
      (hk : appKind ev.kind = .unknown) : Effect pf s now msg deliveryId st (pf.writeGroup group none st)
  | roster {gid group : Bytes} {leaf : UInt32} {ev : AppEvent} {ch : StateChange} {st' : Store}
      (hs : SentBy pf msg st gid group leaf ev) (hk : appKind ev.kind = .roster)
      (hr : handleRoster pf s now group gid leaf ev.body (pf.writeGroup group none st) = (.ok ch, st')) :
      Effect pf s now msg deliveryId st st'
  | manifest {gid group : Bytes} {leaf : UInt32} {ev : AppEvent} {ch : StateChange} {st' : Store}
      (hs : SentBy pf msg st gid group leaf ev) (hk : appKind ev.kind = .manifest)
      (hr : handleManifest pf s group gid leaf ev.body (pf.writeGroup group none st) = (.ok ch, st')) :
      Effect pf s now msg deliveryId st st'
  | text {gid group : Bytes} {leaf : UInt32} {ev : AppEvent} {ch : StateChange} {st' : Store}
      (hs : SentBy pf msg st gid group leaf ev) (hk : appKind ev.kind = .text)
      (hr : handleText pf group gid leaf deliveryId ev.body (pf.writeGroup group none st) = (.ok ch, st')) :
      Effect pf s now msg deliveryId st st'
  | file {gid group : Bytes} {leaf : UInt32} {ev : AppEvent} {ch : StateChange} {st' : Store}
      (hs : SentBy pf msg st gid group leaf ev) (hk : appKind ev.kind = .file)
      (hr : handleFile pf group gid leaf deliveryId ev.body (pf.writeGroup group none st) = (.ok ch, st')) :
      Effect pf s now msg deliveryId st st'
  | hello {gid group : Bytes} {leaf : UInt32} {ev : AppEvent} {ch : StateChange} {st' : Store}
      (hs : SentBy pf msg st gid group leaf ev) (hk : appKind ev.kind = .hello)
      (hr : handleHello pf s now group gid leaf ev.body (pf.writeGroup group none st) = (.ok ch, st')) :
      Effect pf s now msg deliveryId st st'

theorem handleWelcome_ok {now : Int} {msg : MlsMessage} {deliveryId : Bytes} {st st' : Store} {ch : StateChange}
    (hw : msg.wireFormat = .welcome) (h : handleWelcome pf now msg st = (.ok ch, st')) :
    Effect pf s now msg deliveryId st st' := by
  unfold handleWelcome at h
  obtain ⟨⟨group, used⟩, st₁, h1, h⟩ := Prog.bind_eq_ok.1 h
  rw [Prog.mapError_eq_ok] at h1
  obtain ⟨packages, st₀, h0, h1⟩ := Prog.bind_eq_ok.1 h1
  obtain ⟨rfl, rfl⟩ := Prog.read_eq_ok.1 h0
  obtain ⟨hj, rfl⟩ := Prog.ofExcept_eq_ok.1 h1
  have hsave : storage "conversation" (conversationSave now ⟨pf.mlsGroupId group, false, []⟩)
      (pf.writeGroup group used st) = (.ok (), saveConversationRow now (pf.mlsGroupId group) false
        (pf.writeGroup group used st)) := rfl
  simp only [Prog.bind_run, Prog.modify_run, hsave] at h
  obtain rfl := (Prod.mk.inj h).2
  exact .joined hw hj

theorem handleWelcome_run {now : Int} {msg : MlsMessage} {st : Store} {group : Bytes} {used : Option Bytes}
    (hj : pf.mlsJoin st.mlsKeyPackages.rows msg = .ok (group, used)) :
    handleWelcome pf now msg st = (.ok (.conversationJoined (pf.mlsGroupId group) (pf.mlsEpoch group)),
      requestOpen (pf.mlsGroupId group)
        (saveConversationRow now (pf.mlsGroupId group) false (pf.writeGroup group used st))) := by
  have hjoin : Prog.mapError (protocolError "mls join")
      (do Prog.ofExcept (pf.mlsJoin (← Prog.read (·.mlsKeyPackages.rows)) msg)) st = (.ok (group, used), st) := by
    simp only [Prog.mapError, Prog.bind_run, Prog.read_run, hj, Prog.ofExcept_ok]
  unfold handleWelcome
  rw [Prog.bind_ok hjoin]
  rfl

theorem handleGroupMessage_ok {now : Int} {msg : MlsMessage} {deliveryId : Bytes} {st st' : Store}
    {ch : StateChange} (hf : msg.wireFormat = .privateMessage ∨ msg.wireFormat = .publicMessage)
    (h : handleGroupMessage pf s now msg deliveryId st = (.ok ch, st')) : Effect pf s now msg deliveryId st st' := by
  unfold handleGroupMessage at h
  obtain ⟨gid, st₁, h1, h⟩ := Prog.bind_eq_ok.1 h
  obtain ⟨hgid, rfl⟩ := Prog.ofOption_eq_ok.1 h1
  obtain ⟨dropped, st₁, h1, h⟩ := Prog.bind_eq_ok.1 h
  obtain ⟨hdec, rfl⟩ := Prog.read_eq_ok.1 h1
  by_cases hd : dropped = true
  · rw [if_pos hd] at h
    obtain rfl := (Prod.mk.inj h).2
    exact .dropped (by rcases hf with hf | hf <;> simp [hf]) hgid (hdec.trans hd)
  · rw [if_neg hd] at h
    obtain ⟨state, st₁, h1, h⟩ := Prog.bind_eq_ok.1 h
    obtain ⟨rfl, row, hrow, rfl⟩ := loadGroup_ok h1
    obtain ⟨⟨group, received⟩, st₂, h2, h⟩ := Prog.bind_eq_ok.1 h
    rw [Prog.mapError_eq_ok] at h2
    obtain ⟨revoked, st₀, h0, h2⟩ := Prog.bind_eq_ok.1 h2
    obtain ⟨rfl, rfl⟩ := Prog.read_eq_ok.1 h0
    obtain ⟨hp, rfl⟩ := Prog.ofExcept_eq_ok.1 h2
    obtain ⟨u, st₂, h2, h⟩ := Prog.bind_eq_ok.1 h
    obtain rfl := Prog.modify_eq_ok.1 h2
    have ho : Opened pf msg st₁ gid group received := ⟨hf, hgid, hdec.trans (by simpa using hd), row, hrow, hp⟩
    cases received with
    | commit committer =>
      obtain rfl := (Prod.mk.inj h).2
      exact .handshake ho (by simp)
    | other description =>
      obtain rfl := (Prod.mk.inj h).2
      exact .handshake ho (by simp)
    | applicationMessage leaf data =>
      obtain ⟨ev, st₂, h2, h⟩ := Prog.bind_eq_ok.1 h
      obtain ⟨hev, rfl⟩ := liftProtocol_eq_ok.1 h2
      have hs : SentBy pf msg st₁ gid group leaf ev := ⟨data, ho, hev⟩
      unfold handleEvent at h
      cases hk : appKind ev.kind with
      | roster => exact .roster hs hk (by simpa only [hk] using h)
      | manifest => exact .manifest hs hk (by simpa only [hk] using h)
      | text => exact .text hs hk (by simpa only [hk] using h)
      | file => exact .file hs hk (by simpa only [hk] using h)
      | hello => exact .hello hs hk (by simpa only [hk] using h)
      | unknown =>
        simp only [hk] at h
        obtain rfl := (Prod.mk.inj h).2
        exact .unknown hs hk

theorem handleMls_ok {now : Int} {msg : MlsMessage} {deliveryId : Bytes} {st st' : Store} {ch : StateChange}
    (h : handleMls pf s now msg deliveryId st = (.ok ch, st')) : Effect pf s now msg deliveryId st st' := by
  unfold handleMls at h
  cases hf : msg.wireFormat <;> simp only [hf] at h
  case welcome => exact handleWelcome_ok hf h
  case privateMessage => exact handleGroupMessage_ok (Or.inl hf) h
  case publicMessage => exact handleGroupMessage_ok (Or.inr hf) h
  all_goals cases h

theorem handleMls_sent {now : Int} {msg : MlsMessage} {deliveryId : Bytes} {st : Store} {gid group : Bytes} {leaf : UInt32}
    {ev : AppEvent} (hs : SentBy pf msg st gid group leaf ev) :
    handleMls pf s now msg deliveryId st = handleEvent pf s now group gid leaf deliveryId ev (pf.writeGroup group none st) := by
  obtain ⟨data, ⟨hf, hgid, htaken, row, hrow, hproc⟩, hev⟩ := hs
  have hload : pf.loadGroup gid st = (.ok row.state, st) := by
    simp only [Platform.loadGroup, Prog.bind_run, Prog.read_run, hrow, Prog.pure_run]
  have hprocess : Prog.mapError (protocolError "mls process")
      (do Prog.ofExcept (pf.mlsProcess (← Prog.read deviceRevoked) row.state msg)) st =
        (.ok (group, .applicationMessage leaf data), st) := by
    simp only [Prog.mapError, Prog.bind_run, Prog.read_run, hproc, Prog.ofExcept_ok]
  have hmessage : handleGroupMessage pf s now msg deliveryId st =
      handleEvent pf s now group gid leaf deliveryId ev (pf.writeGroup group none st) := by
    have hevent : liftProtocol "event" (pf.decodeEvent data) (pf.writeGroup group none st) =
        (.ok ev, pf.writeGroup group none st) := liftProtocol_eq_ok.2 ⟨hev, rfl⟩
    have hdropped : Prog.read (ε := CliError) (fun st => declined st gid) st = (.ok false, st) := by
      rw [Prog.read_run, htaken]
    unfold handleGroupMessage
    rw [hgid, Prog.bind_ok (Prog.ofOption_some ..), Prog.bind_ok hdropped]
    simp only [Bool.false_eq_true, if_false]
    rw [Prog.bind_ok hload, Prog.bind_ok hprocess, Prog.bind_ok (Prog.modify_run ..)]
    simp only
    rw [Prog.bind_ok hevent]
  unfold handleMls
  rcases hf with hf | hf <;> rw [hf] <;> exact hmessage

theorem heard_of_sentBy {st : Store} {mailbox : Bytes} {item : EnvelopeItem} {msg : MlsMessage} {gid group : Bytes}
    {leaf : UInt32} {ev : AppEvent} (hm : openedMessage pf s mailbox item = .ok msg)
    (hs : SentBy pf msg st gid group leaf ev) : heard pf s st mailbox item = some (gid, group, leaf, ev) := by
  obtain ⟨data, ⟨-, hgid, -, row, hrow, hproc⟩, hev⟩ := hs
  simp [heard, hm, hgid, hrow, hproc, hev, Except.toOption]

/-- An envelope not seen before is processed in one unit: it commits, or nothing
of it stays. -/
theorem receiveUnit_run {now : Int} {mailbox : Bytes} {item : EnvelopeItem} {msg : MlsMessage} {st : Store} {t}
    (hi : st.inbox.insert ⟨mailbox, item.deliveryId, item.seq.toInt64, false⟩ = some t)
    (hm : openedMessage pf s mailbox item = .ok msg) :
    Sync.receiveUnit pf s now mailbox item st =
      match handleMls pf s now msg item.deliveryId { st with inbox := t } with
      | (.ok ch, st') => (.ok (some ch), st')
      | (.error e, _) => (.error e, st) := by
  have hrec : delivery "inbox" (recordIncoming mailbox item.deliveryId item.seq.toInt64) st =
      (.ok true, { st with inbox := t }) := by
    simp only [delivery, Prog.mapError, recordIncoming, hi]
  unfold openedMessage at hm
  cases ho : pf.openEnvelope s.device.keys.hpkePrivate ⟨1, s.realmId, mailbox, item.deliveryId⟩ item.hpkeEnc
      item.ciphertext with
  | error e => simp [ho] at hm
  | ok inner =>
    simp only [ho] at hm
    simp only [Sync.receiveUnit, Prog.unitOfWork, Prog.bind_run, hrec, if_true, liftProtocol, Prog.mapError, ho, hm,
      Prog.ofExcept_ok]
    rcases handleMls pf s now msg item.deliveryId { st with inbox := t } with ⟨r, st'⟩
    cases r <;> rfl

/-- An envelope that fails or was seen before changes nothing. Otherwise it is
recorded, and its message has one of the effects. -/
theorem receiveUnit_cases (pf : Platform) (s : Session) (now : Int) (mailbox : Bytes) (item : EnvelopeItem) (st : Store) :
    (∃ e, Sync.receiveUnit pf s now mailbox item st = (.error e, st)) ∨
    ((∃ r ∈ st.inbox, r.mailboxId = mailbox ∧ r.deliveryId = item.deliveryId) ∧
      Sync.receiveUnit pf s now mailbox item st = (.ok none, st)) ∨
    ∃ t msg ch st', st.inbox.insert ⟨mailbox, item.deliveryId, item.seq.toInt64, false⟩ = some t ∧
      openedMessage pf s mailbox item = .ok msg ∧
      Effect pf s now msg item.deliveryId { st with inbox := t } st' ∧
      Sync.receiveUnit pf s now mailbox item st = (.ok (some ch), st') := by
  rcases hr : Sync.receiveUnit pf s now mailbox item st with ⟨r, st'⟩
  cases r with
  | error e =>
    obtain rfl := Prog.unitOfWork_error hr
    exact Or.inl ⟨e, rfl⟩
  | ok o =>
    refine Or.inr ?_
    unfold Sync.receiveUnit at hr
    rw [Prog.unitOfWork_eq_ok] at hr
    obtain ⟨fresh, st₁, h1, hr⟩ := Prog.bind_eq_ok.1 hr
    rw [delivery_eq_ok] at h1
    unfold recordIncoming at h1
    cases hi : st.inbox.insert ⟨mailbox, item.deliveryId, item.seq.toInt64, false⟩ with
    | none =>
      simp only [hi, Prod.mk.injEq, Except.ok.injEq] at h1
      obtain ⟨rfl, rfl⟩ := h1
      simp only [Bool.false_eq_true, if_false, Prog.pure_run, Prod.mk.injEq, Except.ok.injEq] at hr
      obtain ⟨rfl, rfl⟩ := hr
      obtain ⟨r, hr, hk⟩ := Table.insert_eq_none.1 hi
      obtain ⟨hm, hd⟩ := Prod.mk.inj hk
      exact Or.inl ⟨⟨r, hr, hm, hd⟩, rfl⟩
    | some t =>
      simp only [hi, Prod.mk.injEq, Except.ok.injEq] at h1
      obtain ⟨rfl, rfl⟩ := h1
      simp only [if_true] at hr
      obtain ⟨inner, st₁, h1, hr⟩ := Prog.bind_eq_ok.1 hr
      obtain ⟨hopen, rfl⟩ := liftProtocol_eq_ok.1 h1
      obtain ⟨msg, st₁, h1, hr⟩ := Prog.bind_eq_ok.1 hr
      obtain ⟨hmsg, rfl⟩ := liftProtocol_eq_ok.1 h1
      obtain ⟨ch, st₁, h1, hr⟩ := Prog.bind_eq_ok.1 hr
      simp only [Prog.pure_run, Prod.mk.injEq, Except.ok.injEq] at hr
      obtain ⟨rfl, rfl⟩ := hr
      exact Or.inr ⟨t, msg, ch, st₁, rfl, by simp only [openedMessage, hopen, hmsg], handleMls_ok h1, rfl⟩

end Arveil.Receive

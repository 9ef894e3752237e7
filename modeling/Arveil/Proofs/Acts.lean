import Arveil.Proofs.Acts.Frames

/-! What one act can do to each table of the profile. The frames come first: most
acts leave most tables alone. -/

namespace Arveil

open Client Prog

variable {pf : Platform} {s : Session}

def ungrouped (s : Store) : Store :=
  { s with mlsGroups := .empty, mlsKeyPackages := .empty, outbox := .empty, revocationGroups := .empty }

theorem fixes_commit {γ : Type} {f : Store → γ} (what : String) (p : Proposals) (entropy group : Bytes) :
    Fixes f (Groups.commit pf what p entropy group) :=
  fixes_bind (fixes_mapError _ (fixes_ofExcept _)) fun _ => fixes_bind (fixes_read _) fun _ =>
    fixes_bind (fixes_mapError _ (fixes_ofExcept _)) fun _ => fixes_bind (fixes_mapError _ (fixes_ofExcept _)) fun _ =>
      fixes_bind (fixes_mapError _ (fixes_ofExcept _)) fun _ => fixes_pure _

theorem fixes_removalCommit {γ : Type} {f : Store → γ} (missing : CliError) (device entropy group : Bytes) :
    Fixes f (Groups.removalCommit pf missing device entropy group) :=
  fixes_bind (fixes_ofOption _ _) fun _ => fixes_bind (fixes_commit _ _ _ _) fun _ =>
    fixes_bind (fixes_mapError _ (fixes_ofExcept _)) fun _ => fixes_pure _

theorem fixes_enqueueNotices (peers : List Peer) (notification : Bytes) (msgs : List (Bytes × Groups.Chance)) :
    Fixes unpublished (Groups.enqueueNotices pf s peers notification msgs) := by
  induction msgs with
  | nil => exact fixes_pure _
  | cons m msgs ih => exact fixes_bind (fixes_enqueueForAll _ _ _ _ _) fun _ => fixes_bind ih fun _ => fixes_pure _

theorem fixes_prepareGroup (chance : Bool → Groups.Chance) (r : Revocation) (manifest : Bytes) (conv : Conversation) :
    Fixes ungrouped (Groups.prepareGroup pf s chance r manifest conv) := by
  refine fixes_bind (fixes_read _) fun queued => fixes_bind (fixes_loadGroup _) fun group =>
    fixes_bind (fixes_read _) fun committer => ?_
  simp only
  split
  · exact fixes_pure _
  · refine fixes_bind ?_ fun announced => fixes_bind ?_ fun enacted => fixes_delivery (fixes_unitOfWork ?_)
    · unfold Groups.announce
      split
      · exact fixes_pure _
      · exact fixes_bind (fixes_mapError _ (fixes_ofExcept _)) fun _ => fixes_pure _
    · unfold Groups.enact
      split
      · exact fixes_bind (fixes_removalCommit _ _ _ _) fun _ => fixes_pure _
      · exact fixes_pure _
    · exact fixes_bind (fixes_modify fun _ => rfl) fun _ =>
        fixes_bind ((fixes_enqueueNotices _ _ _).map ungrouped) fun _ => fixes_modify fun _ => rfl

theorem fixes_prepare (chance : (device group : Bytes) → Bool → Groups.Chance) :
    Fixes ungrouped (Groups.prepare pf s chance) := by
  refine fixes_bind (fixes_read _) fun revs => fixes_forEach _ fun r _ => ?_
  exact fixes_bind (fixes_read _) fun _ => fixes_bind (fixes_ofOption _ _) fun _ => fixes_bind (fixes_read _) fun _ =>
    fixes_forEach _ fun conv _ => fixes_prepareGroup _ _ _ _

theorem fixes_remove (c : Conversation) (device : Bytes) (chance : Groups.Chance) :
    Fixes ungrouped (Groups.remove pf s c device chance) := by
  unfold Groups.remove
  split
  · refine fixes_bind (fixes_loadGroup _) fun group => fixes_bind (fixes_removalCommit _ _ _ _) fun _ =>
      fixes_delivery (fixes_unitOfWork ?_)
    exact fixes_bind (fixes_modify fun _ => rfl) fun _ => (fixes_enqueueForAll _ _ _ _ _).map ungrouped
  · exact fixes_fail _

def Act.apart : Act → Bool
  | .publish .. | .acknowledge .. | .setCursor .. | .ask .. | .cardCreate .. | .cardRevoke .. | .contactVerified ..
  | .contactRouteSave .. | .contactRename .. | .invitationOperationSave .. | .deviceAuthorize .. | .storeGroup ..
  | .remove .. | .prepare .. => true
  | _ => false

def talk (s : Store) : Store :=
  { s with
    manifest := .empty
    identityDevices := .empty
    contacts := .empty
    contactRoutes := .empty
    contactCards := .empty
    invitationOperations := .empty
    outbox := .empty
    inbox := .empty
    mailboxCursor := .empty
    mlsGroups := .empty
    mlsKeyPackages := .empty
    revocationGroups := .empty }

def uncarded (s : Store) : Store := { s with contactCards := .empty }

theorem fixes_cardCreate (kind : CardKind) (secret : Bytes) (now : Int) :
    Fixes uncarded (Client.cardCreate kind secret now) :=
  fixes_bind (fixes_mapError _ (fixes_sqlInsert fun _ _ => rfl)) fun _ => fixes_pure _

theorem fixes_cardRevoke (secret : Bytes) : Fixes uncarded (Client.cardRevoke secret) :=
  fixes_bind (fixes_read _) fun _ => fixes_bind (fixes_modify fun _ => rfl) fun _ => fixes_pure _

theorem talk_contactBlind : ContactBlind talk := fun _ _ _ => rfl

theorem fixes_deviceAuthorize (device : DevicePublicKeys) (now : UInt64) :
    Fixes talk (Client.deviceAuthorize pf.crypto device now) := by
  intro st
  rcases deviceAuthorize_cases pf.crypto device now st with ⟨e, he⟩ | ⟨seed, body, m, -, -, -, -, hrun⟩
  · rw [he]
    exact same_refl _
  · rw [hrun]
    rfl

theorem step_apart {a : Act} (h : a.apart = true) (w : World) :
    talk (Act.step pf s w a).store = talk w.store := by
  cases a <;> try cases h
  case publish relay expiry =>
    exact fixes_bind ((fixes_publishPending relay expiry).map talk) (fun _ => fixes_pure _) w
  case acknowledge relay m => exact (fixes_acknowledge relay m).map talk w
  case setCursor mailbox cursor => rfl
  case ask relay payload => exact fixes_bind (fixes_request relay payload) (fun _ => fixes_pure _) w
  case cardCreate kind secret now =>
    have hcard : Fixes talk (Client.cardCreate kind secret now) := (fixes_cardCreate kind secret now).map talk
    exact fixes_bind (fixes_onStore (fixes_storage hcard)) (fun _ => fixes_pure _) w
  case cardRevoke secret =>
    have hcard : Fixes talk (Client.cardRevoke secret) := (fixes_cardRevoke secret).map talk
    exact fixes_bind (fixes_onStore (fixes_storage hcard)) (fun _ => fixes_pure _) w
  case contactVerified identity how now => exact fixes_storage (fixes_updateKnownContact talk_contactBlind) w.store
  case contactRouteSave identity device route =>
    exact fixes_storage (fixes_contactRouteSave talk_contactBlind identity device route) w.store
  case contactRename identity name => exact fixes_storage (fixes_contactRename talk_contactBlind identity name) w.store
  case invitationOperationSave operation => rfl
  case deviceAuthorize device now =>
    exact fixes_bind (fixes_onStore (fixes_storage (fixes_deviceAuthorize device now))) (fun _ => fixes_pure _) w
  case storeGroup state => rfl
  case remove c device chance =>
    exact fixes_bind (fixes_onStore ((fixes_remove c device chance).map talk)) (fun _ => fixes_pure _) w
  case prepare chance => exact (fixes_prepare chance).map talk w.store

/-- The devices an act saves in a conversation: those of a roster a leaf sent, or
those the person added. -/
inductive Saves (pf : Platform) (s : Session) (st : Store) : Act → Bytes → List Peer → Prop
  | roster {now : Int} {mailbox : Bytes} {item : EnvelopeItem} {msg : MlsMessage} {gid group : Bytes}
      {leaf : UInt32} {ev : AppEvent} {peers : List Peer}
      (hm : Receive.openedMessage pf s mailbox item = .ok msg) (hs : Receive.SentBy pf msg st gid group leaf ev)
      (hk : Receive.appKind ev.kind = .roster)
      (hp : Receive.rosterPeers pf s (Route.lines ev.body) = .ok peers) :
      Saves pf s st (.receive now mailbox item) gid peers
  | person {createdAt : Int} {c : Conversation} : Saves pf s st (.saveConversation createdAt c) c.groupId c.peers

def savedBy (pf : Platform) (s : Session) (st : Store) (mailbox : Bytes) (item : EnvelopeItem) :
    Option (Bytes × List Peer) :=
  (Receive.heard pf s st mailbox item).bind fun h =>
    (Receive.rosterPeers pf s (Route.lines h.2.2.2.body)).toOption.map (h.1, ·)

theorem savedBy_of_saves {st : Store} {now : Int} {mailbox : Bytes} {item : EnvelopeItem} {gid : Bytes}
    {peers : List Peer} (h : Saves pf s st (.receive now mailbox item) gid peers) :
    savedBy pf s st mailbox item = some (gid, peers) := by
  cases h with
  | roster hm hs hk hp => simp [savedBy, Receive.heard_of_sentBy hm hs, hp, Except.toOption]

/-- An act keeps the devices of conversations but for their flags, or it saves
some. -/
def PeersStep (pf : Platform) (s : Session) (w : World) (a : Act) : Prop :=
  (∃ hashes, (Act.step pf s w a).store.peers = (markAll hashes w.store).peers) ∨
    ∃ gid peers, Saves pf s w.store a gid peers ∧
      (Act.step pf s w a).store.peers = (savePeers gid peers w.store).peers

theorem PeersStep.of_same {w : World} {a : Act} (h : (Act.step pf s w a).store.peers = w.store.peers) :
    PeersStep pf s w a := Or.inl ⟨[], h⟩

theorem savePeers_peers {gid : Bytes} {ps : List Peer} {t u : Store} (h : t.peers = u.peers) :
    (savePeers gid ps t).peers = (savePeers gid ps u).peers := by
  induction ps generalizing t u with
  | nil => exact h
  | cons p ps ih =>
    refine ih (t := savePeer gid p t) (u := savePeer gid p u) ?_
    simp only [savePeer, h]

theorem markAll_peers_congr {hashes : List Bytes} {t u : Store} (h : t.peers = u.peers) :
    (markAll hashes t).peers = (markAll hashes u).peers := by
  induction hashes generalizing t u with
  | nil => exact h
  | cons x hs ih =>
    refine ih (t := markRevoked x t) (u := markRevoked x u) ?_
    simp only [markRevoked, h]

theorem sentBy_inbox {msg : MlsMessage} {st : Store} {t} {gid group : Bytes} {leaf : UInt32} {ev : AppEvent}
    (h : Receive.SentBy pf msg { st with inbox := t } gid group leaf ev) : Receive.SentBy pf msg st gid group leaf ev := by
  obtain ⟨data, ⟨hf, hg, ht, hp⟩, hev⟩ := h
  exact ⟨data, ⟨hf, hg, ht, hp⟩, hev⟩

theorem classified_blind {γ : Type} {f : Store → γ} {gid : Bytes} (hf : ConversationBlind gid f) (sender : Option Bytes)
    (peers : List Peer) (st : Store) : f (Receive.classified s gid sender peers st) = f st := by
  unfold Receive.classified
  split
  · split
    · rfl
    · split
      · exact (hf _ _ _).trans (hf _ _ _)
      · exact hf _ _ _
  · rfl

theorem classified_peers (gid : Bytes) (sender : Option Bytes) (peers : List Peer) (st : Store) :
    (Receive.classified s gid sender peers st).peers = st.peers :=
  classified_blind (f := (·.peers)) (fun _ _ _ => rfl) sender peers st

theorem peerAccepted_peers {cx : Crypto} {id signed : Bytes} {carrier : Option Bytes} {st st' : Store}
    (h : Receive.PeerAccepted cx id signed carrier st st') :
    ∃ hashes, st'.peers = (markAll hashes st).peers := by
  obtain ⟨root, body, state, manifests, t, -, -, -, rfl⟩ := h
  exact ⟨body.revokedCredentialHashes, markAll_peers_congr rfl⟩

theorem manifestAcceptOwn_peers {cx : Crypto} {signed : Bytes} {r : DeviceManifest × Bool} {st st' : Store}
    (h : manifestAcceptOwn cx signed st = (.ok r, st')) : ∃ hashes, st'.peers = (markAll hashes st).peers := by
  rcases manifestAcceptOwn_cases cx signed st with ⟨e, he⟩ | ⟨root, body, m, -, -, -, hrun⟩
  · simp [he] at h
  · rw [hrun] at h
    obtain rfl := (Prod.mk.inj h).2
    exact ⟨body.revokedCredentialHashes, markAll_peers_congr rfl⟩

theorem step_receive (w : World) (now : Int) (mailbox : Bytes) (item : EnvelopeItem) :
    (Act.step pf s w (.receive now mailbox item)).store = (Sync.receiveUnit pf s now mailbox item w.store).2 := by
  unfold Act.step Act.run
  rw [bind_pure_snd]
  rfl

theorem step_refresh (w : World) (identity signed : Bytes) :
    (Act.step pf s w (.refresh identity signed)).store =
      ((if identity = s.identityId then manifestAcceptOwn pf.crypto signed
        else Sync.refreshPeer pf identity signed) w.store).2 := by
  unfold Act.step Act.run
  rw [bind_pure_snd]
  exact mapError_snd _ _ _

theorem step_queueText (w : World) (c : Conversation) (text eventId entropy : Bytes) (order : Nat → UInt64)
    (draws : Nat → Send.Draw) :
    (Act.step pf s w (.queueText c text eventId entropy order draws)).store =
      (Send.queueText pf s c text eventId entropy order draws w.store).2 := by
  unfold Act.step Act.run
  simp only
  rw [bind_pure_snd]
  rfl

theorem step_saveConversation (w : World) (createdAt : Int) (c : Conversation) :
    (Act.step pf s w (.saveConversation createdAt c)).store = (conversationSave createdAt c w.store).2 :=
  mapError_snd _ _ _

theorem step_deviceRevoke (w : World) (device : Bytes) :
    (Act.step pf s w (.deviceRevoke device)).store = (Client.deviceRevoke pf.crypto device w.store).2 := by
  unfold Act.step Act.run
  rw [bind_pure_snd]
  exact mapError_snd _ _ _

def unmanifested (s : Store) : Store :=
  { s with
    manifest := .empty
    identityDevices := .empty
    deviceRevocations := .empty
    peerManifests := .empty
    peers := .empty
    events := .empty }

theorem unmanifested_markAll (hashes : List Bytes) (st : Store) :
    unmanifested (markAll hashes st) = unmanifested st := by
  rw [markAll_eq]
  rfl

theorem peerAccepted_rest {cx : Crypto} {id signed : Bytes} {carrier : Option Bytes} {st st' : Store}
    (h : Receive.PeerAccepted cx id signed carrier st st') : unmanifested st' = unmanifested st := by
  obtain ⟨root, body, state, manifests, t, -, -, -, rfl⟩ := h
  exact unmanifested_markAll body.revokedCredentialHashes { st with peerManifests := manifests }

theorem manifestAcceptOwn_rest (cx : Crypto) (signed : Bytes) (st : Store) :
    unmanifested (manifestAcceptOwn cx signed st).2 = unmanifested st := by
  rcases manifestAcceptOwn_cases cx signed st with ⟨e, he⟩ | ⟨root, body, m, -, -, -, hrun⟩
  · rw [he]
  · rw [hrun]
    exact unmanifested_markAll body.revokedCredentialHashes { st with manifest := m }

theorem handleManifest_rest {group gid body : Bytes} {leaf : UInt32} {st st' : Store} {ch : Receive.StateChange}
    (h : Receive.handleManifest pf s group gid leaf body st = (.ok ch, st')) : unmanifested st' = unmanifested st := by
  rcases Receive.handleManifest_ok h with ⟨id, -, -, ha⟩ | ⟨r, ha⟩
  · exact peerAccepted_rest ha
  · have hrest := manifestAcceptOwn_rest pf.crypto body st
    rw [ha] at hrest
    exact hrest

theorem step_manifests {a : Act} (h : (∃ identity signed, a = .refresh identity signed) ∨ ∃ device, a = .deviceRevoke device)
    (w : World) : unmanifested (Act.step pf s w a).store = unmanifested w.store := by
  rcases h with ⟨identity, signed, rfl⟩ | ⟨device, rfl⟩
  · rw [step_refresh]
    by_cases hown : identity = s.identityId
    · rw [if_pos hown]
      exact manifestAcceptOwn_rest pf.crypto signed w.store
    · rw [if_neg hown]
      rcases hrun : Sync.refreshPeer pf identity signed w.store with ⟨r, st'⟩
      cases r with
      | ok r => exact peerAccepted_rest (Receive.refreshPeer_ok hrun)
      | error e => exact congrArg unmanifested (unitOfWork_error hrun)
  · rw [step_deviceRevoke]
    rcases hrun : Client.deviceRevoke pf.crypto device w.store with ⟨r, st'⟩
    cases r with
    | error e => exact congrArg unmanifested (deviceRevoke_error _ hrun)
    | ok r =>
      obtain ⟨seed, root, d, row, body, -, -, -, -, -, -, ⟨-, rfl⟩ | ⟨-, mbody, m, -, -, rfl⟩⟩ :=
        deviceRevoke_ok _ hrun
      · rw [revocationStart_eq]
        exact unmanifested_markAll [d.credentialHash] w.store
      · rw [revocationStart_eq]
        exact unmanifested_markAll [d.credentialHash] { w.store with manifest := m }

theorem effect_peers {now : Int} {msg : MlsMessage} {deliveryId : Bytes} {st st' : Store}
    (h : Receive.Effect pf s now msg deliveryId st st') :
    (∃ hashes, st'.peers = (markAll hashes st).peers) ∨
      ∃ gid group leaf ev peers, Receive.SentBy pf msg st gid group leaf ev ∧ Receive.appKind ev.kind = .roster ∧
        Receive.rosterPeers pf s (Route.lines ev.body) = .ok peers ∧ st'.peers = (savePeers gid peers st).peers := by
  cases h with
  | joined hw hj => exact Or.inl ⟨[], rfl⟩
  | dropped hf hg hd => exact Or.inl ⟨[], rfl⟩
  | handshake ho hn => exact Or.inl ⟨[], rfl⟩
  | unknown hs hk => exact Or.inl ⟨[], rfl⟩
  | @roster gid group leaf ev ch st' hs hk hr =>
    obtain ⟨peers, contacts, hp, -, rfl⟩ := Receive.handleRoster_ok hr
    refine Or.inr ⟨gid, group, leaf, ev, peers, hs, hk, hp, ?_⟩
    rw [classified_peers]
    exact savePeers_peers rfl
  | manifest hs hk hr =>
    refine Or.inl ?_
    rcases Receive.handleManifest_ok hr with ⟨id, -, -, ha⟩ | ⟨r, ha⟩
    · obtain ⟨hashes, hp⟩ := peerAccepted_peers ha
      exact ⟨hashes, hp.trans (markAll_peers_congr rfl)⟩
    · obtain ⟨hashes, hp⟩ := manifestAcceptOwn_peers ha
      exact ⟨hashes, hp.trans (markAll_peers_congr rfl)⟩
  | text hs hk hr =>
    obtain ⟨t, -, rfl⟩ := Receive.handleText_ok hr
    exact Or.inl ⟨[], rfl⟩
  | file hs hk hr =>
    obtain ⟨t, -, rfl⟩ := Receive.handleFile_ok hr
    exact Or.inl ⟨[], rfl⟩
  | hello hs hk hr =>
    unfold Receive.handleHello at hr
    rw [bind_ok (Receive.eventSender_run ..)] at hr
    obtain ⟨hello, -, ⟨-, rfl⟩ | ⟨-, hellos, name, rfl | ⟨k, c, -, -, -, rfl⟩⟩⟩ := Receive.receiveHello_ok hr
    all_goals exact Or.inl ⟨[], rfl⟩

theorem step_peers (pf : Platform) (s : Session) (w : World) (a : Act) : PeersStep pf s w a := by
  by_cases hapart : a.apart = true
  · exact .of_same (congrArg (·.peers) (step_apart hapart w))
  cases a <;> try exact absurd rfl hapart
  case receive now mailbox item =>
    unfold PeersStep
    rw [step_receive]
    rcases Receive.receiveUnit_cases pf s now mailbox item w.store with
      ⟨e, he⟩ | ⟨-, hdup⟩ | ⟨t, msg, ch, st', hi, hmsg, heff, hrun⟩
    · exact Or.inl ⟨[], by rw [he]; rfl⟩
    · exact Or.inl ⟨[], by rw [hdup]; rfl⟩
    · rw [hrun]
      rcases effect_peers heff with ⟨hashes, hp⟩ | ⟨gid, group, leaf, ev, peers, hs, hk, hps, hp⟩
      · exact Or.inl ⟨hashes, hp.trans (markAll_peers_congr rfl)⟩
      · exact Or.inr ⟨gid, peers, .roster hmsg (sentBy_inbox hs) hk hps, hp.trans (savePeers_peers rfl)⟩
  case refresh identity signed =>
    refine Or.inl ?_
    rw [step_refresh]
    by_cases hown : identity = s.identityId
    · rw [if_pos hown]
      rcases manifestAcceptOwn_cases pf.crypto signed w.store with ⟨e, he⟩ | ⟨_, _, _, _, _, _, hok⟩
      · rw [he]
        exact ⟨[], rfl⟩
      · rw [hok]
        exact ⟨_, markAll_peers_congr rfl⟩
    · rw [if_neg hown]
      rcases hrun : Sync.refreshPeer pf identity signed w.store with ⟨r, st'⟩
      cases r with
      | ok r => exact peerAccepted_peers (Receive.refreshPeer_ok hrun)
      | error e => exact ⟨[], congrArg (·.peers) (unitOfWork_error hrun)⟩
  case settleInPerson relay now => exact .of_same (congrArg (·.peers) (step_settling (Or.inl ⟨relay, now, rfl⟩) w))
  case settle relay now => exact .of_same (congrArg (·.peers) (step_settling (Or.inr (Or.inl ⟨relay, now, rfl⟩)) w))
  case answer groupId accept => exact .of_same (congrArg (·.peers) (step_settling (Or.inr (Or.inr ⟨groupId, accept, rfl⟩)) w))
  case saveConversation createdAt c =>
    unfold PeersStep
    rw [step_saveConversation]
    obtain ⟨ct, -, ⟨e, he⟩ | hok⟩ := conversationSave_cases createdAt c w.store
    · exact Or.inl ⟨[], by rw [he]; rfl⟩
    · exact Or.inr ⟨c.groupId, c.peers, .person, by rw [hok]; exact savePeers_peers rfl⟩
  case queueText c text eventId entropy order draws =>
    refine .of_same ?_
    rw [step_queueText]
    exact congrArg (·.peers) (fixes_queueText c text eventId entropy order draws w.store)
  case deviceRevoke device =>
    refine Or.inl ?_
    rw [step_deviceRevoke]
    rcases hrun : Client.deviceRevoke pf.crypto device w.store with ⟨r, st'⟩
    cases r with
    | error e => exact ⟨[], congrArg (·.peers) (deviceRevoke_error _ hrun)⟩
    | ok r =>
      obtain ⟨seed, root, d, row, body, -, -, -, -, -, -, ⟨-, rfl⟩ | ⟨-, mbody, m, -, -, rfl⟩⟩ :=
        deviceRevoke_ok _ hrun
      all_goals
        rw [revocationStart_eq]
        exact ⟨_, markAll_peers_congr rfl⟩

theorem effect_identity {now : Int} {msg : MlsMessage} {deliveryId : Bytes} {st st' : Store}
    (h : Receive.Effect pf s now msg deliveryId st st') : st'.identity = st.identity := by
  cases h with
  | joined hw hj => rfl
  | dropped hf hg hd => rfl
  | handshake ho hn => rfl
  | unknown hs hk => rfl
  | roster hs hk hr =>
    obtain ⟨peers, contacts, -, -, rfl⟩ := Receive.handleRoster_ok hr
    rw [classified_blind (f := (·.identity)) fun _ _ _ => rfl, savePeers_eq]
    rfl
  | manifest hs hk hr =>
    have hrest := congrArg (·.identity) (handleManifest_rest hr)
    exact hrest
  | text hs hk hr =>
    obtain ⟨t, -, rfl⟩ := Receive.handleText_ok hr
    rfl
  | file hs hk hr =>
    obtain ⟨t, -, rfl⟩ := Receive.handleFile_ok hr
    rfl
  | hello hs hk hr =>
    unfold Receive.handleHello at hr
    rw [bind_ok (Receive.eventSender_run ..)] at hr
    obtain ⟨hello, -, ⟨-, rfl⟩ | ⟨-, hellos, name, rfl | ⟨k, c, -, -, -, rfl⟩⟩⟩ := Receive.receiveHello_ok hr
    all_goals rfl

theorem step_identity (w : World) (a : Act) : (Act.step pf s w a).store.identity = w.store.identity := by
  by_cases hapart : a.apart = true
  · exact congrArg (·.identity) (step_apart hapart w)
  cases a <;> try exact absurd rfl hapart
  case receive now mailbox item =>
    rw [step_receive]
    rcases Receive.receiveUnit_cases pf s now mailbox item w.store with
      ⟨e, he⟩ | ⟨-, hdup⟩ | ⟨t, msg, ch, st', hi, hmsg, heff, hrun⟩
    · rw [he]
    · rw [hdup]
    · rw [hrun]
      have hkept := effect_identity heff
      exact hkept
  case refresh identity signed => exact congrArg (·.identity) (step_manifests (Or.inl ⟨identity, signed, rfl⟩) w)
  case settleInPerson relay now => exact congrArg (·.identity) (step_settling (Or.inl ⟨relay, now, rfl⟩) w)
  case settle relay now => exact congrArg (·.identity) (step_settling (Or.inr (Or.inl ⟨relay, now, rfl⟩)) w)
  case answer groupId accept => exact congrArg (·.identity) (step_settling (Or.inr (Or.inr ⟨groupId, accept, rfl⟩)) w)
  case saveConversation createdAt c =>
    rw [step_saveConversation]
    obtain ⟨ct, -, ⟨e, he⟩ | hok⟩ := conversationSave_cases createdAt c w.store
    · rw [he]
    · rw [hok, savePeers_eq]
      rfl
  case queueText c text eventId entropy order draws =>
    rw [step_queueText]
    exact congrArg (·.identity) (fixes_queueText c text eventId entropy order draws w.store)
  case deviceRevoke device => exact congrArg (·.identity) (step_manifests (Or.inr ⟨device, rfl⟩) w)

end Arveil

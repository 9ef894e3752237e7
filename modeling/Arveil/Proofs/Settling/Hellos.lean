import Arveil.Spec.Settling
import Arveil.Proofs.InPerson

/-! What acts leave of invitations, and the two things a settling reads in the session: the hellos,
each under the device that the roster names for its leaf, and whether the person declined. -/

namespace Arveil.Settling

open Client Receive

variable {pf : Platform} {s : Session}

def invitations (st : Store) : Table (fun r : InvitationOperation => (r.id, r.direction)) × Table InvitationHello.groupId :=
  (st.invitationOperations, st.invitationHellos)

theorem outgoing_save (o : InvitationOperation) (st : Store) (id : Bytes) (direction : InvitationDirection) :
    invitationOperation (invitationOperationSave o st) id direction =
      if (o.id, o.direction) = (id, direction) then some o else invitationOperation st id direction := by
  show (st.invitationOperations.upsert _ _ o).get? (id, direction) = _
  rw [Table.get?_upsert]
  split
  · next hk =>
    obtain ⟨rfl, rfl⟩ := Prod.mk.inj hk
    cases ho : st.invitationOperations.get? (o.id, o.direction) with
    | none => rfl
    | some r =>
      obtain ⟨hid, hdirection⟩ := Prod.mk.inj (Table.get?_eq_some.1 ho).2
      simp [hid, hdirection]
  · rfl

theorem invitations_congr {t u : Store} (ho : t.invitationOperations = u.invitationOperations)
    (hh : t.invitationHellos = u.invitationHellos) : invitations t = invitations u := Prod.ext ho hh

theorem apart_operations {a : Act} (h : a.apart = true) (hsave : ∀ o, a ≠ .invitationOperationSave o) (w : World) :
    (Act.step pf s w a).store.invitationOperations = w.store.invitationOperations := by
  have hcontact : ContactBlind (·.invitationOperations) := fun _ _ _ => rfl
  cases a <;> try cases h
  case publish relay expiry =>
    exact Prog.fixes_bind ((fixes_publishPending relay expiry).map (·.invitationOperations)) (fun _ => Prog.fixes_pure _) w
  case acknowledge relay m => exact (fixes_acknowledge relay m).map (·.invitationOperations) w
  case setCursor mailbox cursor => rfl
  case ask relay payload =>
    exact Prog.fixes_bind (fixes_request (f := (·.invitationOperations)) relay payload) (fun _ => Prog.fixes_pure _) w
  case cardCreate kind secret now =>
    have hcard : Prog.Fixes (·.invitationOperations) (Client.cardCreate kind secret now) := (fixes_cardCreate kind secret now).map (·.invitationOperations)
    exact Prog.fixes_bind (fixes_onStore (fixes_storage hcard)) (fun _ => Prog.fixes_pure _) w
  case cardRevoke secret =>
    have hcard : Prog.Fixes (·.invitationOperations) (Client.cardRevoke secret) := (fixes_cardRevoke secret).map (·.invitationOperations)
    exact Prog.fixes_bind (fixes_onStore (fixes_storage hcard)) (fun _ => Prog.fixes_pure _) w
  case contactVerified identity how now => exact fixes_storage (fixes_updateKnownContact hcontact) w.store
  case contactRouteSave identity device route => exact fixes_storage (fixes_contactRouteSave hcontact identity device route) w.store
  case contactRename identity name => exact fixes_storage (fixes_contactRename hcontact identity name) w.store
  case invitationOperationSave o => exact absurd rfl (hsave o)
  case deviceAuthorize device now =>
    have hauthorize : Prog.Fixes (·.invitationOperations) (Client.deviceAuthorize pf.crypto device now) := by
      intro st
      rcases deviceAuthorize_cases pf.crypto device now st with ⟨e, he⟩ | ⟨seed, body, m, -, -, -, -, hrun⟩
      · rw [he]
        exact Prog.same_refl _
      · rw [hrun]
        rfl
    exact Prog.fixes_bind (fixes_onStore (fixes_storage hauthorize)) (fun _ => Prog.fixes_pure _) w
  case storeGroup state => rfl
  case remove c device chance =>
    exact Prog.fixes_bind (fixes_onStore ((fixes_remove c device chance).map (·.invitationOperations))) (fun _ => Prog.fixes_pure _) w
  case prepare chance => exact (fixes_prepare chance).map (·.invitationOperations) w.store

theorem apart_invitations {a : Act} (h : a.apart = true) (hi : invites a = false) (w : World) :
    (∀ id, invitationOperation (Act.step pf s w a).store id .outgoing = invitationOperation w.store id .outgoing) ∧
      (Act.step pf s w a).store.invitationHellos = w.store.invitationHellos := by
  refine ⟨fun id => ?_, congrArg (·.invitationHellos) (step_apart h w)⟩
  by_cases hsave : ∃ o, a = .invitationOperationSave o
  · obtain ⟨o, rfl⟩ := hsave
    show invitationOperation (invitationOperationSave o w.store) id .outgoing = _
    have hdirection : o.direction ≠ .outgoing := by simpa [invites] using hi
    rw [outgoing_save, if_neg fun hk => hdirection (Prod.mk.inj hk).2]
  · rw [invitationOperation, apart_operations h (fun o ho => hsave ⟨o, ho⟩) w, invitationOperation]

theorem step_invitations {a : Act} (hi : invites a = false) (hr : ∀ now mailbox item, a ≠ .receive now mailbox item)
    (w : World) :
    (∀ id, invitationOperation (Act.step pf s w a).store id .outgoing = invitationOperation w.store id .outgoing) ∧
      (Act.step pf s w a).store.invitationHellos = w.store.invitationHellos := by
  by_cases hapart : a.apart = true
  · exact apart_invitations hapart hi w
  have hsame (h : invitations (Act.step pf s w a).store = invitations w.store) :
      (∀ id, invitationOperation (Act.step pf s w a).store id .outgoing = invitationOperation w.store id .outgoing) ∧
        (Act.step pf s w a).store.invitationHellos = w.store.invitationHellos := by
    obtain ⟨hops, hhellos⟩ := Prod.mk.inj h
    exact ⟨fun id => by rw [invitationOperation, hops, invitationOperation], hhellos⟩
  have hcontact : ContactBlind invitations := fun _ _ _ => rfl
  refine hsame ?_
  cases a <;> try exact absurd rfl hapart
  case receive now mailbox item => exact absurd rfl (hr now mailbox item)
  case refresh identity signed => 
    have hrest := @step_manifests pf s _ (Or.inl ⟨identity, signed, rfl⟩) w
    exact invitations_congr (congrArg (·.invitationOperations) hrest) (congrArg (·.invitationHellos) hrest)
  case deviceRevoke device => 
    have hrest := @step_manifests pf s _ (Or.inr ⟨device, rfl⟩) w
    exact invitations_congr (congrArg (·.invitationOperations) hrest) (congrArg (·.invitationHellos) hrest)
  case queueText c text eventId entropy order draws =>
    rw [step_queueText]
    exact (fixes_queueText c text eventId entropy order draws).map invitations w.store
  case saveConversation createdAt c =>
    rw [step_saveConversation]
    obtain ⟨ct, -, ⟨e', hrun⟩ | hrun⟩ := conversationSave_cases createdAt c w.store
    · rw [hrun]
      rfl
    · rw [hrun, savePeers_eq]
      rfl
  case answer groupId accept => exact fixes_answer hcontact (fun _ _ => rfl) accept w.store
  case settle relay now => cases hi
  case settleInPerson relay now => exact fixes_settleInPerson pf hcontact relay now fun _ _ _ _ _ => rfl

/-- A hello that carries the secret of a stored invitation that is not revoked. -/
def Matches (st : Store) (hello : Hello) (id : Bytes) (op : InvitationOperation) : Prop :=
  hello.invitation = some id ∧ invitationOperation st id .outgoing = some op ∧ hello.secret = some op.secret ∧
    op.secret.length = 16 ∧ op.state ≠ "revoked"

theorem rememberHello_hellos {gid : Bytes} {sender : Option Bytes} {hello : Hello} {st : Store} {h : InvitationHello}
    (hh : h ∈ (rememberHello gid sender hello st).2.invitationHellos) :
    h ∈ st.invitationHellos ∨
      h.groupId = gid ∧ sender = some h.sender ∧ ∃ op, Matches st hello h.invitationId op := by
  rcases hello with ⟨_ | id, _ | secret, name⟩ <;> rcases sender with _ | from_
  case some.some.some =>
    simp only [rememberHello, Prog.bind_run, Prog.read_run] at hh
    cases hop : invitationOperation st id .outgoing with
    | none =>
      simp only [hop] at hh
      exact Or.inl hh
    | some op =>
      simp only [hop] at hh
      split at hh
      · exact Or.inl hh
      · next hm =>
        rw [not_or, not_or, not_not, not_not] at hm
        obtain ⟨rfl, hlength, hstate⟩ := hm
        rcases Table.mem_insertOrIgnore hh with hold | rfl
        · exact Or.inl hold
        · exact Or.inr ⟨rfl, rfl, op, rfl, hop, rfl, hlength, hstate⟩
  all_goals exact Or.inl hh

theorem receiveHello_hellos {now : Int} {gid body : Bytes} {sender : Option Bytes} {st st' : Store} {ch : StateChange}
    (hr : receiveHello pf s now gid sender body st = (.ok ch, st')) :
    st'.invitationOperations = st.invitationOperations ∧
    ∀ h ∈ st'.invitationHellos, h ∈ st.invitationHellos ∨
      ∃ hello, pf.decodeHello body = .ok hello ∧ h.groupId = gid ∧ sender = some h.sender ∧
        ∃ op, Matches st hello h.invitationId op := by
  unfold receiveHello at hr
  obtain ⟨hello, st₁, h1, hr⟩ := Prog.bind_eq_ok.1 hr
  obtain ⟨hd, rfl⟩ := liftProtocol_eq_ok.1 h1
  split at hr
  · obtain rfl := (Prod.mk.inj hr).2
    exact ⟨rfl, fun h hh => Or.inl hh⟩
  · obtain ⟨b, st₂, h2, hr⟩ := Prog.bind_eq_ok.1 hr
    obtain ⟨c, st₃, h3, hr⟩ := Prog.bind_eq_ok.1 hr
    obtain rfl := (Prod.mk.inj hr).2
    have hst : (rememberHello gid sender hello st).2 = st₂ := congrArg Prod.snd h2
    obtain ⟨b', hellos, hrun⟩ := rememberHello_run gid sender hello st
    have hops : st₂.invitationOperations = st.invitationOperations := by
      rw [← hst, hrun]
    have hredeem : invitations st₃ = invitations st₂ := by
      rcases redeemSecret_cases now hello.secret st₂ with hn | ⟨k, c, c', -, -, -, -, hs⟩
      · rw [h3] at hn
        rw [(Prod.mk.inj hn).2]
      · rw [h3] at hs
        rw [(Prod.mk.inj hs).2]
        rfl
    obtain ⟨hops₃, hhellos₃⟩ := Prod.mk.inj hredeem
    refine ⟨hops₃.trans hops, fun h hh => ?_⟩
    have hh₂ : h ∈ (rememberHello gid sender hello st).2.invitationHellos := by
      rw [hst, ← hhellos₃]
      exact hh
    rcases rememberHello_hellos hh₂ with hold | ⟨hgid, hsender, op, hm⟩
    · exact Or.inl hold
    · exact Or.inr ⟨hello, hd, hgid, hsender, op, hm⟩

/-- The hello an envelope brings may be remembered; its sender is whom the profile knows
for the leaf's device. -/
theorem effect_invitations {now : Int} {mailbox : Bytes} {item : EnvelopeItem} {msg : MlsMessage} {st st' : Store} {inbox}
    (hm : openedMessage pf s mailbox item = .ok msg)
    (heff : Effect pf s now msg item.deliveryId { st with inbox := inbox } st') :
    st'.invitationOperations = st.invitationOperations ∧
    ∀ h ∈ st'.invitationHellos, h ∈ st.invitationHellos ∨
      ∃ e ∈ hellosOf pf s st (.receive now mailbox item), e.groupId = h.groupId ∧ e.sender = some h.sender ∧
        ∃ op, Matches st e.hello h.invitationId op := by
  have hsame (h : invitations st' = invitations st) : st'.invitationOperations = st.invitationOperations ∧
      ∀ h ∈ st'.invitationHellos, h ∈ st.invitationHellos ∨
        ∃ e ∈ hellosOf pf s st (.receive now mailbox item), e.groupId = h.groupId ∧ e.sender = some h.sender ∧
          ∃ op, Matches st e.hello h.invitationId op := by
    obtain ⟨hops, hhellos⟩ := Prod.mk.inj h
    exact ⟨hops, fun h hh => Or.inl (hhellos ▸ hh)⟩
  cases heff with
  | joined hw hj => exact hsame rfl
  | dropped hf hg hd => exact hsame rfl
  | handshake ho hn => exact hsame rfl
  | unknown hs hk => exact hsame rfl
  | roster hs hk hr =>
    obtain ⟨peers, contacts, -, -, rfl⟩ := handleRoster_ok hr
    refine hsame ?_
    rw [classified_blind (f := invitations) fun _ _ _ => rfl, savePeers_eq]
    rfl
  | manifest hs hk hr =>
    have hrest := handleManifest_rest hr
    exact hsame (invitations_congr (congrArg (·.invitationOperations) hrest) (congrArg (·.invitationHellos) hrest))
  | text hs hk hr =>
    obtain ⟨t, -, rfl⟩ := handleText_ok hr
    exact hsame rfl
  | file hs hk hr =>
    obtain ⟨t, -, rfl⟩ := handleFile_ok hr
    exact hsame rfl
  | @hello gid group leaf ev ch st' hs hk hr =>
    unfold handleHello at hr
    rw [Prog.bind_ok (eventSender_run ..)] at hr
    obtain ⟨hops, hhellos⟩ := receiveHello_hellos hr
    refine ⟨hops, fun h hh => (hhellos h hh).imp_right ?_⟩
    rintro ⟨hello, hdec, rfl, hsender, hmatch⟩
    refine ⟨⟨h.groupId, pf.memberAtIndex group leaf, some h.sender, hello⟩, ?_, rfl, rfl, hmatch⟩
    have hknown : (((pf.memberAtIndex group leaf).bind (·.deviceId)).bind fun device => deviceIdentity st h.groupId device) =
        some h.sender := by
      rw [← hsender]
      unfold senderOf
      cases (pf.memberAtIndex group leaf).bind (·.deviceId) <;> rfl
    simp [hellosOf, heard_of_sentBy hm (sentBy_inbox hs), hk, hdec, Except.toOption, hknown]

theorem declined_eq (st : Store) (g : Bytes) : declined st g = decide (Requests.requestOf g st = some .declined) := by
  unfold declined
  rw [Requests.requestOf_eq_request]
  cases Client.request st g <;> simp

/-- A request that was not declined is not declined now. -/
def Spared (g : Bytes) (st st' : Store) : Prop :=
  Requests.requestOf g st' = some .declined → Requests.requestOf g st = some .declined

theorem Spared.declined {g : Bytes} {st st' : Store} (h : Spared g st st') (hd : declined st g = false) : declined st' g = false := by
  rw [declined_eq, decide_eq_false_iff_not] at hd ⊢
  exact fun hd' => hd (h hd')

theorem spared_of_same {g : Bytes} {st st' : Store} (h : Requests.requestOf g st' = Requests.requestOf g st) : Spared g st st' :=
  fun hd => h ▸ hd

theorem spared_resolve {gid g : Bytes} {accept : Bool} (ha : gid = g → accept = true) (st : Store) :
    Spared g st (requestResolve gid accept st) := by
  intro hd
  unfold Requests.requestOf at hd ⊢
  rw [requestResolve, Requests.get?_updateConversation] at hd
  cases hrow : st.conversations.get? g with
  | none => simp [hrow] at hd
  | some row =>
    rw [hrow] at hd
    by_cases hg : g = gid
    · simp [hg, ha hg.symm] at hd
    · simpa [hg] using hd

theorem answer_spared {gid g : Bytes} {accept : Bool} (ha : gid = g → accept = true) :
    Prog.Keeps (Spared g) (answer gid accept) := by
  have hrefl (st : Store) : Spared g st st := fun hd => hd
  have htrans (st st' st'' : Store) (h : Spared g st st') (h' : Spared g st' st'') : Spared g st st'' := fun hd => h (h' hd)
  have hcontact := Requests.contactBlind_requestOf g
  refine Prog.keeps_bind htrans (Prog.keeps_read hrefl _) fun pending => Prog.keeps_bind htrans (Prog.keeps_ofOption hrefl _ _) fun req =>
    Prog.keeps_bind htrans (Prog.keeps_when hrefl _ ?_) fun _ => Prog.keeps_modify fun st => spared_resolve ha st
  cases req.from_ with
  | none => exact Prog.keeps_pure hrefl _
  | some from_ => exact Prog.Keeps.mono (fixes_acceptSender hcontact gid from_ req.name) fun st st' => spared_of_same

/-- While a sync runs, only the person declines. -/
theorem step_spared {g : Bytes} {a : Act} (hl : locked a = false) (hi : invites a = false) (ha : a ≠ .answer g false) (w : World) :
    Spared g w.store (Act.step pf s w a).store := by
  have hsame (h : (Act.step pf s w a).store.conversations = w.store.conversations) : Spared g w.store (Act.step pf s w a).store :=
    spared_of_same (Requests.requestOf_of_conversations h)
  by_cases hapart : a.apart = true
  · exact hsame (congrArg (·.conversations) (step_apart hapart w))
  cases a <;> try exact absurd rfl hapart
  case receive now mailbox item => cases hl
  case refresh identity signed => cases hl
  case settleInPerson relay now => cases hl
  case deviceRevoke device => cases hl
  case settle relay now => cases hi
  case queueText c text eventId entropy order draws => exact hsame Requests.queueText_conversations
  case saveConversation createdAt c =>
    refine spared_of_same ?_
    rw [step_saveConversation]
    obtain ⟨ct, -, ⟨e', hrun⟩ | hrun⟩ := conversationSave_cases createdAt c w.store
    · rw [hrun]
      rfl
    · rw [hrun, savePeers_eq]
      exact Requests.requestOf_saveConversationRow createdAt c.groupId c.creator _ g
  case answer gid accept =>
    refine answer_spared (fun hg => ?_) w.store
    cases accept with
    | true => rfl
    | false => exact absurd (by rw [hg]) ha

end Arveil.Settling

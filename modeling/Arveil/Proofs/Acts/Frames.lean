import Arveil.Spec.Acts
import Arveil.Proofs.Receive

/-! Most acts leave most tables of the profile alone: contacts and requests, invitations, what is to
be published or sent. -/

namespace Arveil

open Client Delivery Prog

variable {pf : Platform} {s : Session}

theorem fixes_onStore {α γ : Type} {f : Store → γ} {p : App α} (h : Fixes f p) :
    Fixes (fun w : World => f w.store) (onStore p) := fun w => h w.store

theorem fixes_storage {α γ : Type} {f : Store → γ} {context : String} {p : Client α} (h : Fixes f p) :
    Fixes f (storage context p) := fixes_mapError _ h

theorem fixes_delivery {α γ : Type} {f : Store → γ} {context : String} {p : Sql α} (h : Fixes f p) :
    Fixes f (delivery context p) := fixes_mapError _ h

theorem fixes_request {γ : Type} {f : Store → γ} (relay : Relay) (p : Payload) :
    Fixes (fun w : World => f w.store) (Net.request relay p) := fun _ => rfl

theorem fixes_unexpected {α γ : Type} {f : World → γ} (relay : Relay) (r : Reply) :
    Fixes f (Net.unexpected relay r : Net α) := fixes_fail _

theorem fixes_loadGroup {γ : Type} {f : Store → γ} (gid : Bytes) : Fixes f (pf.loadGroup gid) := by
  refine fixes_bind (fixes_read _) fun row => ?_
  cases row with
  | none => exact fixes_fail _
  | some row => exact fixes_pure _

theorem fixes_sqlInsert {ρ κ γ : Type} {key : ρ → κ} [DecidableEq κ] {f : Store → γ} {what : String}
    {table : Store → Table key} {put : Store → Table key → Store} {row : ρ} (h : ∀ s t, f (put s t) = f s) :
    Fixes f (sqlInsert what table put row) := by
  refine fixes_tryModify fun s s' he => ?_
  cases hi : (table s).insert row with
  | none => simp [hi] at he
  | some t =>
    simp only [hi, Except.ok.injEq] at he
    rw [← he]
    exact h s t

/-- A view that shows nothing of the contacts. -/
def ContactBlind {γ : Type} (f : Store → γ) : Prop :=
  ∀ st contacts routes, f { st with contacts := contacts, contactRoutes := routes } = f st

section contacts

variable {γ : Type} {f : Store → γ}

theorem fixes_updateKnownContact (hf : ContactBlind f) {identity : Bytes} {g : ContactRow → ContactRow}
    {hg : ∀ r, (g r).identityId = r.identityId} : Fixes f (updateKnownContact identity g hg) := by
  refine fixes_bind (fixes_read _) fun c => ?_
  cases c with
  | none => exact fixes_fail _
  | some c => exact fixes_modify fun st => hf st _ st.contactRoutes

theorem fixes_contactRename (hf : ContactBlind f) (identity : Bytes) (name : String) :
    Fixes f (contactRename identity name) := by
  refine fixes_bind (fixes_read _) fun c => ?_
  cases c with
  | none => exact fixes_fail _
  | some c => exact fixes_modify fun st => hf st _ st.contactRoutes

theorem fixes_contactRouteSave (hf : ContactBlind f) (identity device route : Bytes) :
    Fixes f (contactRouteSave identity device route) := by
  refine fixes_bind (fixes_read _) fun c => ?_
  cases c with
  | none => exact fixes_fail _
  | some c => exact fixes_bind (fixes_modify fun st => hf st st.contacts _) fun _ =>
      fixes_modify fun st => hf st _ st.contactRoutes

theorem fixes_adoptName (hf : ContactBlind f) (identity : Bytes) (name : Option String) :
    Fixes f (Net.adoptName identity name) := by
  cases name with
  | none => exact fixes_pure _
  | some name => exact fixes_bind (fixes_read _) fun _ => fixes_when _ (fixes_contactRename hf _ _)

end contacts

def ConversationBlind {γ : Type} (gid : Bytes) (f : Store → γ) : Prop :=
  ∀ st g hg, f (updateConversation gid g hg st) = f st

def AnswerBlind {γ : Type} (gid : Bytes) (f : Store → γ) : Prop :=
  ∀ st accepted, f (requestResolve gid accepted st) = f st

theorem ConversationBlind.answer {γ : Type} {gid : Bytes} {f : Store → γ} (h : ConversationBlind gid f) :
    AnswerBlind gid f := fun st _ => h st _ _

def InvitationBlind {γ : Type} (f : Store → γ) : Prop :=
  ∀ st operations hellos, f { st with invitationOperations := operations, invitationHellos := hellos } = f st

section settling

variable {γ : Type} {f : Store → γ}

theorem fixes_saveSenderRoute (hf : ContactBlind f) (from_ : Bytes) (p : Peer) : Fixes f (saveSenderRoute from_ p) := by
  unfold saveSenderRoute
  split
  · split
    · exact fixes_storage (fixes_contactRouteSave hf _ _ _)
    · exact fixes_pure _
  · exact fixes_pure _

theorem fixes_acceptSender (hf : ContactBlind f) (groupId from_ : Bytes) (name : Option String) :
    Fixes f (acceptSender groupId from_ name) :=
  fixes_bind (fixes_read _) fun _ => fixes_bind (fixes_forEach _ fun _ _ => fixes_saveSenderRoute hf _ _) fun _ =>
    fixes_bind (fixes_storage (fixes_updateKnownContact hf)) fun _ => fixes_storage (fixes_adoptName hf _ _)

theorem fixes_answer {groupId : Bytes} (hf : ContactBlind f) (hc : AnswerBlind groupId f) (accept : Bool) :
    Fixes f (answer groupId accept) := by
  refine fixes_bind (fixes_read _) fun pending => fixes_bind (fixes_ofOption _ _) fun req =>
    fixes_bind (fixes_when _ ?_) fun _ => fixes_modify fun st => hc st _
  cases req.from_ with
  | none => exact fixes_pure _
  | some from_ => exact fixes_acceptSender hf _ _ _

theorem fixes_servedCredential {γ : Type} {f : Store → γ} (relay : Relay) (r : Route) :
    Fixes (fun w : World => f w.store) (Net.servedCredential relay r) := by
  refine fixes_bind (fixes_attempt (fixes_request _ _)) fun reply => ?_
  split
  · exact fixes_pure _
  · exact fixes_unexpected _ _
  · exact fixes_fail _
  · exact fixes_fail _

theorem fixes_servedManifest {γ : Type} {f : Store → γ} (relay : Relay) (identity : Bytes) :
    Fixes (fun w : World => f w.store) (Net.servedManifest relay identity) := by
  refine fixes_bind (fixes_request _ _) fun reply => ?_
  split
  · exact fixes_pure _
  · exact fixes_unexpected _ _

theorem fixes_verifiedRouteCredential {γ : Type} {f : Store → γ} (relay : Relay) (now : Int) (r : Route) :
    Fixes (fun w : World => f w.store) (Net.verifiedRouteCredential relay pf now r) :=
  fixes_bind (fixes_servedCredential _ _) fun _ => fixes_bind (fixes_when _ (fixes_fail _)) fun _ =>
    fixes_bind (fixes_servedManifest _ _) fun _ => fixes_bind (fixes_when _ (fixes_fail _)) fun _ =>
    fixes_bind (fixes_ofExcept _) fun _ => fixes_ofExcept _

theorem fixes_skipDomain {α γ : Type} {f : World → γ} {p : Net α} (h : Fixes f p) : Fixes f (Net.skipDomain p) := by
  refine fixes_bind (fixes_attempt h) fun r => ?_
  split
  · exact fixes_pure _
  · exact fixes_pure _
  · exact fixes_fail _

theorem fixes_bindPeer {γ : Type} {f : Store → γ} (relay : Relay) (now : Int) (group : Bytes) (peers : List Peer) :
    Fixes (fun w : World => f w.store) (Net.bindPeer relay pf now group peers) := by
  induction peers with
  | nil => exact fixes_pure _
  | cons peer rest ih =>
    unfold Net.bindPeer
    split
    · exact ih
    · refine fixes_bind (fixes_ofExcept _) fun parsed => fixes_bind
        (fixes_skipDomain (fixes_verifiedRouteCredential _ _ _)) fun credential => ?_
      split
      · exact ih
      · split
        · exact fixes_pure _
        · exact ih

theorem fixes_settleRequest {req : Request} (hf : ContactBlind f) (hc : ConversationBlind req.groupId f)
    (relay : Relay) (now : Int) : Fixes (fun w : World => f w.store) (Net.settleRequest relay pf now req) := by
  unfold Net.settleRequest
  split
  · exact fixes_pure _
  · refine fixes_bind (fixes_read _) fun conversation => ?_
    split
    · exact fixes_pure _
    · refine fixes_bind (fixes_onStore (fixes_loadGroup _)) fun group => fixes_bind (fixes_bindPeer _ _ _ _) fun bound => ?_
      split
      · exact fixes_bind (fixes_onStore (fixes_storage (fixes_contactRouteSave hf _ _ _))) fun _ =>
          fixes_bind (fixes_onStore (fixes_storage (fixes_updateKnownContact hf))) fun _ =>
          fixes_bind (fixes_onStore (fixes_modify fun st => hc st _ _)) fun _ =>
          fixes_when _ (fixes_onStore (fixes_modify fun st => hc st _ _))
      · exact fixes_onStore (fixes_modify fun st => hc st _ _)

theorem fixes_settleInPerson (pf : Platform) (hf : ContactBlind f) (relay : Relay) (now : Int) {w : World}
    (hc : ∀ req ∈ requestsInPersonPending w.store, ConversationBlind req.groupId f) :
    f (Net.settleInPerson relay pf now w).2.store = f w.store :=
  fixes_forEach _ (fun req hr => fixes_settleRequest hf (hc req hr) relay now) w

theorem fixes_connectInvitation {h : InvitationHello} (hf : ContactBlind f) (hc : AnswerBlind h.groupId f)
    (hi : InvitationBlind f) (op : InvitationOperation) (device text : Bytes) :
    Fixes f (Net.connectInvitation h op device text) :=
  fixes_unitOfWork (fixes_bind (fixes_contactRouteSave hf _ _ _) fun _ => fixes_bind (fixes_adoptName hf _ _) fun _ =>
    fixes_bind (fixes_modify fun st => hc st _) fun _ =>
    fixes_bind (fixes_modify fun st => hi st _ st.invitationHellos) fun _ =>
    fixes_modify fun st => hi st st.invitationOperations _)

theorem fixes_settlePeers {h : InvitationHello} (hf : ContactBlind f) (hc : AnswerBlind h.groupId f)
    (hi : InvitationBlind f) (relay : Relay) (now : Int) (group : Bytes) (op : InvitationOperation)
    (receipt : InvitationRecord) (peers : List Peer) :
    Fixes (fun w : World => f w.store) (Net.settlePeers relay pf now group h op receipt peers) := by
  induction peers with
  | nil => exact fixes_pure _
  | cons peer rest ih =>
    unfold Net.settlePeers
    split
    · exact ih
    · refine fixes_bind (fixes_ofExcept _) fun parsed => fixes_bind
        (fixes_skipDomain (fixes_verifiedRouteCredential _ _ _)) fun credential => ?_
      split
      · exact ih
      · split
        · exact fixes_bind (fixes_ofExcept _) fun _ =>
            fixes_onStore (fixes_storage (fixes_connectInvitation hf hc hi _ _ _))
        · exact ih

theorem fixes_settleHello {h : InvitationHello} (hf : ContactBlind f) (hc : AnswerBlind h.groupId f)
    (hi : InvitationBlind f) (relay : Relay) (now : Int) :
    Fixes (fun w : World => f w.store) (Net.settleHello relay pf now h) := by
  have hremove (gid : Bytes) : Fixes f (Prog.modify (invitationHelloRemove gid) : App Unit) :=
    fixes_modify fun st => hi st st.invitationOperations _
  unfold Net.settleHello
  refine fixes_bind (fixes_read _) fun op => ?_
  split
  · exact fixes_pure _
  · split
    · exact fixes_pure _
    · refine fixes_bind (fixes_attempt (fixes_request _ _)) fun reply => ?_
      split
      · exact fixes_onStore (hremove _)
      · exact fixes_fail _
      · split
        · exact fixes_pure _
        · refine fixes_bind (fixes_read _) fun dropped => ?_
          split
          · exact fixes_onStore (hremove _)
          · refine fixes_bind (fixes_read _) fun conv => ?_
            split
            · exact fixes_pure _
            · exact fixes_bind (fixes_onStore (fixes_loadGroup _)) fun _ => fixes_settlePeers hf hc hi _ _ _ _ _ _
      · exact fixes_pure _

theorem fixes_settle (pf : Platform) (hf : ContactBlind f) (hi : InvitationBlind f) (relay : Relay) (now : Int) {w : World}
    (hc : ∀ h ∈ w.store.invitationHellos.rows, AnswerBlind h.groupId f) :
    f (Net.settle relay pf now w).2.store = f w.store :=
  fixes_forEach _ (fun h hh => fixes_settleHello hf (hc h hh) hi relay now) w

end settling

def unsettled (s : Store) : Store :=
  { s with
    contacts := .empty
    contactRoutes := .empty
    conversations := .empty
    invitationOperations := .empty
    invitationHellos := .empty }

theorem unsettled_contactBlind : ContactBlind unsettled := fun _ _ _ => rfl

theorem unsettled_conversationBlind (gid : Bytes) : ConversationBlind gid unsettled := fun _ _ _ => rfl

theorem unsettled_invitationBlind : InvitationBlind unsettled := fun _ _ _ => rfl

theorem step_settling {a : Act} (h : (∃ relay now, a = .settleInPerson relay now) ∨ (∃ relay now, a = .settle relay now) ∨
    ∃ gid accept, a = .answer gid accept) (w : World) :
    unsettled (Act.step pf s w a).store = unsettled w.store := by
  rcases h with ⟨relay, now, rfl⟩ | ⟨relay, now, rfl⟩ | ⟨gid, accept, rfl⟩
  · exact fixes_settleInPerson pf unsettled_contactBlind relay now fun _ _ => unsettled_conversationBlind _
  · exact fixes_settle pf unsettled_contactBlind unsettled_invitationBlind relay now
      fun _ _ => (unsettled_conversationBlind _).answer
  · exact fixes_answer unsettled_contactBlind (unsettled_conversationBlind _).answer accept w.store

def unpublished (s : Store) : Store := { s with outbox := .empty }

theorem fixes_publishRow (relay : Relay) (expiry : UInt64) (row : OutboxRow) :
    Fixes (fun w : World => unpublished w.store) (Sync.publishRow relay expiry row) := by
  refine fixes_bind (fixes_read _) fun found => fixes_bind (fixes_ofOption _ _) fun cap =>
    fixes_bind (fixes_onStore (fixes_modify fun _ => rfl)) fun _ =>
    fixes_bind (fixes_attempt (fixes_request _ _)) fun reply => ?_
  split
  · exact fixes_bind (fixes_onStore (fixes_modify fun _ => rfl)) fun _ => fixes_pure _
  · exact fixes_unexpected _ _
  · split
    · exact fixes_bind (fixes_onStore (fixes_modify fun _ => rfl)) fun _ => fixes_pure _
    · exact fixes_fail _

theorem fixes_publishRows (relay : Relay) (expiry : UInt64) (rows : List OutboxRow) :
    Fixes (fun w : World => unpublished w.store) (Sync.publishRows relay expiry rows) := by
  induction rows with
  | nil => exact fixes_pure _
  | cons row rest ih => exact fixes_bind (fixes_publishRow _ _ _) fun _ => fixes_bind ih fun _ => fixes_pure _

theorem fixes_publishPending (relay : Relay) (expiry : UInt64) :
    Fixes (fun w : World => unpublished w.store) (Sync.publishPending relay expiry) :=
  fixes_bind (fixes_read _) fun _ => fixes_publishRows _ _ _

theorem markAcked_eq (mailbox : Bytes) (ids : List Bytes) (st : Store) :
    markAcked mailbox ids st = { st with inbox := (markAcked mailbox ids st).inbox } := by
  induction ids generalizing st with
  | nil => rfl
  | cons d ids ih => exact ih _

def unreceived (s : Store) : Store := { s with inbox := .empty, mailboxCursor := .empty }

theorem fixes_acknowledge (relay : Relay) (m : MailboxOwn) :
    Fixes (fun w : World => unreceived w.store) (Sync.acknowledge relay m) := by
  unfold Sync.acknowledge
  refine fixes_bind (fixes_read _) fun ids => ?_
  split
  · exact fixes_pure _
  · refine fixes_bind (fixes_request _ _) fun reply => ?_
    split
    · refine fixes_onStore (fixes_modify fun st => ?_)
      rw [markAcked_eq]
      rfl
    · exact fixes_unexpected _ _

def unsent (s : Store) : Store :=
  { s with mlsGroups := .empty, mlsKeyPackages := .empty, events := .empty, outbox := .empty }

theorem fixes_invalidQuery {α γ : Type} {f : Store → γ} (r : Except String α) : Fixes f (Send.invalidQuery r) :=
  fixes_mapError _ (fixes_ofExcept r)

theorem fixes_enqueue (mailbox deliveryId : Bytes) (eventId : Option Bytes) (enc ciphertext : Bytes) :
    Fixes unpublished (enqueue mailbox deliveryId eventId enc ciphertext) := by
  refine fixes_tryModify fun st st' he => ?_
  split at he
  · cases he
  · split at he
    · rw [← Except.ok.inj he]
      rfl
    · cases he

theorem fixes_enqueueFor (p : Peer) (eventId : Option Bytes) (mls : Bytes) (d : Send.Draw) :
    Fixes unpublished (Send.enqueueFor pf s p eventId mls d) := by
  unfold Send.enqueueFor
  split
  · exact fixes_bind (fixes_invalidQuery _) fun _ => fixes_bind (fixes_enqueue _ _ _ _ _) fun _ => fixes_pure _
  · exact fixes_pure _

theorem fixes_enqueueEach (eventId : Option Bytes) (mls : Bytes) (todo : List (Peer × Send.Draw)) (out : Send.FanOut) :
    Fixes unpublished (Send.enqueueEach pf s eventId mls out todo) := by
  induction todo generalizing out with
  | nil => exact fixes_pure _
  | cons pd rest ih =>
    obtain ⟨p, d⟩ := pd
    unfold Send.enqueueEach
    split
    · exact ih _
    · refine fixes_bind (fixes_enqueueFor p eventId mls d) fun delivery => ?_
      cases delivery with
      | some delivery => exact ih _
      | none => exact ih _

theorem fixes_enqueueForAll (peers : List Peer) (eventId : Option Bytes) (mls : Bytes) (order : Nat → UInt64)
    (draws : Nat → Send.Draw) :
    Fixes unpublished (Send.enqueueForAll pf s peers eventId mls order draws) := fixes_enqueueEach eventId mls _ _

theorem fixes_guardRevoked {γ : Type} {f : Store → γ} (c : Conversation) (group : Bytes) :
    Fixes f (Send.guardRevoked pf c group) := by
  unfold Send.guardRevoked
  simp only
  split
  · exact fixes_pure _
  · exact fixes_fail _

theorem fixes_queueText (c : Conversation) (text eventId entropy : Bytes) (order : Nat → UInt64)
    (draws : Nat → Send.Draw) : Fixes unsent (Send.queueText pf s c text eventId entropy order draws) := by
  refine fixes_bind (fixes_loadGroup _) fun group => fixes_bind (fixes_guardRevoked _ _) fun _ =>
    fixes_delivery (fixes_unitOfWork (fixes_bind (fixes_invalidQuery _) fun sealed => ?_))
  exact fixes_bind (fixes_modify fun _ => rfl) fun _ => fixes_bind (fixes_sqlInsert fun _ _ => rfl) fun _ =>
    (fixes_enqueueForAll _ _ _ _ _).map unsent

end Arveil

import Arveil.Spec.Store

/-! Contact cards, conversation requests and personal invitations
(`card_store.rs`, `invitation_store.rs`). -/

namespace Arveil.Client

def inPersonSeconds : Int := 10 * 60
def linkSeconds : Int := 30 * 24 * 60 * 60

def cardCreate (kind : CardKind) (secret : Bytes) (now : Int) : Client OwnCard := do
  let expiresAt := now + match kind with
    | .inPerson => inPersonSeconds
    | .link => linkSeconds
  let card : OwnCard := ⟨secret, kind, now, expiresAt, none, false⟩
  insertInto "contact_cards.secret" (·.contactCards) ({ · with contactCards := · }) card
  pure card

def cardRevoke (secret : Bytes) : Client Bool := do
  let n ← Prog.read fun s => (s.contactCards.rows.filter fun c => c.secret = secret && !c.revoked).length
  Prog.modify fun s =>
    { s with
      contactCards := s.contactCards.update (fun c => c.secret = secret && !c.revoked)
        ({ · with revoked := true }) fun _ => rfl }
  pure (n = 1)

/-- Whether a card still works: an in-person code once and briefly, a link until
it expires or is revoked. -/
def OwnCard.valid (c : OwnCard) (now : Int) : Bool :=
  !c.revoked && now < c.expiresAt && !(c.kind = .inPerson && c.usedAt.isSome)

def useCard (secret : Bytes) (now : Int) (s : Store) : Store :=
  { s with
    contactCards := s.contactCards.update (fun c => c.secret = secret)
      (fun c => { c with usedAt := some (c.usedAt.getD now) }) fun _ => rfl }

/-- Spend a card secret a conversation carried. -/
def cardRedeem (secret : Bytes) (now : Int) : Client (Option OwnCard) := do
  match (← Prog.read fun s => s.contactCards.get? secret) with
  | none => pure none
  | some c =>
      if OwnCard.valid c now then
        Prog.modify (useCard secret now)
        pure (some { c with usedAt := some (c.usedAt.getD now), revoked := false })
      else pure none

def contactIsAccepted (s : Store) (identity : Bytes) : Bool :=
  (s.contacts.get? identity).any (·.accepted)

/-- `UPDATE contacts … WHERE identity_id`; no row is no such contact. -/
def updateKnownContact (identity : Bytes) (f : ContactRow → ContactRow)
    (hf : ∀ r, (f r).identityId = r.identityId) : Client Unit := do
  match (← Prog.read (contact · identity)) with
  | none => Prog.fail (.noSuchContact (hexOf identity))
  | some _ => Prog.modify (updateContact identity f hf)

def contactAccept (identity : Bytes) : Client Unit :=
  updateKnownContact identity ({ · with accepted := true }) ContactRow.accepted_key

/-- Pin a contact as verified, saying how. -/
def contactVerified (identity : Bytes) (how : VerifiedHow) (now : Int) : Client Unit :=
  updateKnownContact identity
    ({ · with verified := true, verifiedAt := some now, verifiedHow := some how, accepted := true }) fun _ => rfl

structure Request where
  groupId : Bytes
  status : RequestStatus
  from_ : Option Bytes
  card : CardUse
  name : Option String
deriving DecidableEq, Repr

def updateConversation (groupId : Bytes) (f : ConversationRow → ConversationRow)
    (hf : ∀ r, (f r).groupId = r.groupId) (s : Store) : Store :=
  { s with conversations := s.conversations.update (fun c => c.groupId = groupId) f hf }

/-- A conversation just joined from a Welcome waits for an answer. -/
def requestOpen (groupId : Bytes) : Store → Store :=
  updateConversation groupId (fun c => { c with request := c.request.or (some .pending) }) fun _ => rfl

def request (s : Store) (groupId : Bytes) : Option Request :=
  (s.conversations.get? groupId).bind fun c =>
    c.request.map fun status => ⟨groupId, status, c.requestFrom, c.requestCard, c.requestName⟩

/-- Who started a conversation, as its first roster says. Set once. -/
def requestSetFrom (groupId identity : Bytes) : Store → Store :=
  updateConversation groupId (fun c => { c with requestFrom := c.requestFrom.or (some identity) }) fun _ => rfl

def requestSetCard (groupId : Bytes) (card : CardUse) (name : Option String) : Store → Store :=
  updateConversation groupId (fun c => { c with requestCard := card, requestName := name.or c.requestName })
    fun _ => rfl

def requestResolve (groupId : Bytes) (accepted : Bool) : Store → Store :=
  updateConversation groupId (fun c => { c with request := if accepted then none else some .declined }) fun _ => rfl

/-- Conversations whose in-person code still has to be bound to the sender's root.
An answered conversation reads as a pending one here. -/
def requestsInPersonPending (s : Store) : List Request :=
  (s.conversations.rows.filter fun c => c.requestCard = .inPersonPending).map fun c =>
    ⟨c.groupId, if c.request = some .declined then .declined else .pending, c.requestFrom, .inPersonPending,
      c.requestName⟩

def invitationOperation (s : Store) (id : Bytes) (direction : InvitationDirection) : Option InvitationOperation :=
  s.invitationOperations.get? (id, direction)

def invitationOperationSave (o : InvitationOperation) (s : Store) : Store :=
  { s with
    invitationOperations := s.invitationOperations.upsert
      (fun r n => { n with id := r.id, direction := r.direction }) (fun _ _ => rfl) o }

/-- Store only a hello already matched against this device's invitation secret. -/
def invitationHelloSave (h : InvitationHello) (s : Store) : Store :=
  { s with invitationHellos := s.invitationHellos.insertOrIgnore h }

def invitationHelloRemove (groupId : Bytes) (s : Store) : Store :=
  { s with invitationHellos := s.invitationHellos.delete fun h => h.groupId = groupId }

end Arveil.Client

import Arveil.Spec.Policy
import Arveil.Spec.Sync

/-! The life of a client. Between two moments of a profile stands a list of acts:
what the relay brought, what the person decided, what this device wrote. An act
carries everything its environment chose: the envelope, the answers of the relay,
the clock, what the system drew. -/

namespace Arveil

open Client Delivery

/-- `receive` is the receive unit of one envelope, `ask` any request to the relay that is not among
the others, `storeGroup` the group that `start` made or `add` changed, as MLS hands it out. -/
inductive Act where
  | receive (now : Int) (mailbox : Bytes) (item : EnvelopeItem)
  | refresh (identity signed : Bytes)
  | settleInPerson (relay : Relay) (now : Int)
  | settle (relay : Relay) (now : Int)
  | publish (relay : Relay) (expiry : UInt64)
  | acknowledge (relay : Relay) (mailbox : MailboxOwn)
  | setCursor (mailbox : Bytes) (cursor : Int64)
  | ask (relay : Relay) (payload : Payload)
  | answer (groupId : Bytes) (accept : Bool)
  | saveConversation (createdAt : Int) (conversation : Conversation)
  | queueText (conversation : Conversation) (text eventId entropy : Bytes) (order : Nat → UInt64)
      (draws : Nat → Send.Draw)
  | storeGroup (state : Bytes)
  | remove (conversation : Conversation) (device : Bytes) (chance : Groups.Chance)
  | prepare (chance : (device group : Bytes) → Bool → Groups.Chance)
  | cardCreate (kind : CardKind) (secret : Bytes) (now : Int)
  | cardRevoke (secret : Bytes)
  | contactVerified (identity : Bytes) (how : VerifiedHow) (now : Int)
  | contactRouteSave (identity device route : Bytes)
  | contactRename (identity : Bytes) (name : String)
  | invitationOperationSave (operation : InvitationOperation)
  | deviceAuthorize (device : DevicePublicKeys) (now : UInt64)
  | deviceRevoke (device : Bytes)

namespace Act

variable (pf : Platform) (s : Session)

/-- What an act runs; whether it returned or failed is part of the run. -/
def run : Act → Net Unit
  | .receive now mailbox item => do
      let _ ← onStore (Sync.receiveUnit pf s now mailbox item)
      pure ()
  | .refresh identity signed => do
      let _ ← onStore (storage "manifest" (if identity = s.identityId then manifestAcceptOwn pf.crypto signed
        else Sync.refreshPeer pf identity signed))
      pure ()
  | .settleInPerson relay now => Net.settleInPerson relay pf now
  | .settle relay now => Net.settle relay pf now
  | .publish relay expiry => do
      let _ ← Sync.publishPending relay expiry
      pure ()
  | .acknowledge relay m => Sync.acknowledge relay m
  | .setCursor mailbox cursor => onStore (Prog.modify (Delivery.setCursor mailbox cursor))
  | .ask relay payload => do
      let _ ← Net.request relay payload
      pure ()
  | .answer groupId accept => onStore (Arveil.answer groupId accept)
  | .saveConversation createdAt c => onStore (storage "conversation" (conversationSave createdAt c))
  | .queueText c text eventId entropy order draws => do
      let _ ← onStore (Send.queueText pf s c text eventId entropy order draws)
      pure ()
  | .storeGroup state => onStore (Prog.modify (pf.writeGroup state none))
  | .remove c device chance => do
      let _ ← onStore (Groups.remove pf s c device chance)
      pure ()
  | .prepare chance => onStore (Groups.prepare pf s chance)
  | .cardCreate kind secret now => do
      let _ ← onStore (storage "card" (Client.cardCreate kind secret now))
      pure ()
  | .cardRevoke secret => do
      let _ ← onStore (storage "card" (Client.cardRevoke secret))
      pure ()
  | .contactVerified identity how now => onStore (storage "contact" (Client.contactVerified identity how now))
  | .contactRouteSave identity device route =>
      onStore (storage "contact" (Client.contactRouteSave identity device route))
  | .contactRename identity name => onStore (storage "contact" (Client.contactRename identity name))
  | .invitationOperationSave operation => onStore (Prog.modify (Client.invitationOperationSave operation))
  | .deviceAuthorize device now => do
      let _ ← onStore (storage "device" (Client.deviceAuthorize pf.crypto device now))
      pure ()
  | .deviceRevoke device => do
      let _ ← onStore (storage "device" (Client.deviceRevoke pf.crypto device))
      pure ()

/-- The client and what it has sent after one act. -/
def step (w : World) (a : Act) : World := (run pf s a w).2

end Act

end Arveil

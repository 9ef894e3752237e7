import Arveil.Spec.Platform

/-! Writing a message: one MLS message, sealed once for each device of the
conversation and queued with the event it belongs to (`queue_text`,
`enqueue_for_all`). What the system draws is an argument. -/

namespace Arveil.Send

open Client Delivery

variable (pf : Platform)

structure Draw where
  deliveryId : Bytes
  entropy : Bytes
deriving DecidableEq, Repr

def swap (l : List Nat) (i j : Nat) : List Nat :=
  match l[i]?, l[j]? with
  | some a, some b => (l.set i b).set j a
  | _, _ => l

/-- The order of a fan-out: the copies of one message reach the relay in no fixed
order. -/
def shuffledOrder (n : Nat) (draw : Nat → UInt64) : List Nat :=
  (List.range n).tail.reverse.foldl (fun order i => swap order i ((draw i).toNat % (i + 1))) (List.range n)

def kindMls : UInt8 := 1

def invalidQuery {α : Type} (r : Except String α) : Sql α :=
  Prog.mapError (fun _ => .invalidQuery) (Prog.ofExcept r)

structure QueuedDelivery where
  mailboxId : Bytes
  deliveryId : Bytes
deriving DecidableEq, Repr

structure FanOut where
  deliveries : List QueuedDelivery
  noRoute : Nat
  revoked : Nat
deriving DecidableEq, Repr

/-- Seal for one peer and enqueue it; a peer without a route is skipped. -/
def enqueueFor (s : Session) (p : Peer) (eventId : Option Bytes) (mls : Bytes) (d : Draw) :
    Sql (Option QueuedDelivery) :=
  match p.mailbox, p.hpke with
  | some mailbox, some hpke => do
      let (enc, ciphertext) ← invalidQuery (pf.sealEnvelope d.entropy hpke ⟨1, s.realmId, mailbox, d.deliveryId⟩
        kindMls mls)
      enqueue mailbox d.deliveryId eventId enc ciphertext
      pure (some ⟨mailbox, d.deliveryId⟩)
  | _, _ => pure none

/-- The loop of `enqueue_for_all`, with what it has done so far. -/
def enqueueEach (s : Session) (eventId : Option Bytes) (mls : Bytes) : FanOut → List (Peer × Draw) → Sql FanOut
  | out, [] => pure out
  | out, (p, d) :: rest =>
      -- a device known to be revoked receives nothing more
      if p.revoked then enqueueEach s eventId mls { out with revoked := out.revoked + 1 } rest
      else do
        match (← enqueueFor pf s p eventId mls d) with
        | some delivery => enqueueEach s eventId mls { out with deliveries := out.deliveries ++ [delivery] } rest
        | none => enqueueEach s eventId mls { out with noRoute := out.noRoute + 1 } rest

/-- One envelope for each routable device that is not revoked. -/
def enqueueForAll (s : Session) (peers : List Peer) (eventId : Option Bytes) (mls : Bytes) (order : Nat → UInt64)
    (draws : Nat → Draw) : Sql FanOut :=
  enqueueEach pf s eventId mls ⟨[], 0, 0⟩
    ((shuffledOrder peers.length order).filterMap fun i => peers[i]?.map (·, draws i))

/-- Devices of the conversation that are revoked and still hold a leaf. -/
def revokedLeaves (conv : Conversation) (group : Bytes) : List Bytes :=
  (conv.peers.filter fun p => p.revoked && (pf.mlsRoster group).any fun m => m.deviceId = some p.deviceId).map
    (·.deviceId)

/-- Refuse to send while a revoked device is still a member. The text shows four
bytes of each id; on a shorter id the source panics there. -/
def guardRevoked (conv : Conversation) (group : Bytes) : App Unit :=
  let stuck := revokedLeaves pf conv group
  if stuck.isEmpty then pure ()
  else Prog.fail (.domain ("paused: " ++ toString stuck.length ++ " revoked device(s) still in the group (" ++
    ", ".intercalate (stuck.map fun d => hexOf (d.take 4)) ++ "); waiting for the committer to remove them"))

/-- What this device writes is its own, from its own identity. -/
def ownSender (s : Session) : EventSender := ⟨some s.device.keys.deviceId, some s.identityId⟩

/-- Persist text, MLS state and outgoing envelopes in one local transaction. -/
def queueText (s : Session) (conv : Conversation) (text eventId entropy : Bytes) (order : Nat → UInt64)
    (draws : Nat → Draw) : App FanOut := do
  let group ← pf.loadGroup conv.groupId
  guardRevoked pf conv group
  delivery "send unit" (Prog.unitOfWork do
    let (state, mls) ← invalidQuery (pf.mlsEncrypt entropy group (pf.encodeEvent ⟨"text", text⟩))
    Prog.modify (pf.writeGroup state none)
    recordEventBy conv.groupId eventId .sent text (some (ownSender s))
    enqueueForAll pf s conv.peers (some eventId) mls order draws)

end Arveil.Send

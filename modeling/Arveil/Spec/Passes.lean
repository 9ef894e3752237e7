import Mathlib.Logic.Function.Basic
import Arveil.Spec.Relay
import Arveil.Spec.Sync

/-! Passes over the outbox that run at once. Each has its own snapshot of the sealed
rows and waits for the reply to one put at a time; puts and replies are on their way
for any time or are lost, and a pass may stop anywhere. -/

namespace Arveil.Passes

open Client Delivery Sync RelayQueue

/-- What a reply does to its row, and whether the pass goes on (`publish_pending`). -/
def settle (row : OutboxRow) (reply : Except CliError Reply) (st : Store) : Store × Bool :=
  match reply with
  | .ok (.envelopeAccepted expiry) => (markAccepted row.id (some expiry.toInt64.toInt) st, true)
  | .ok _ => (st, false)
  | .error e =>
      if e.relayCode = some 403 ∨ e.relayCode = some 410 then (markUndeliverable row.id st, true) else (st, false)

/-- The rows a pass has not come to, and the one whose reply it waits for, with the
number of the request. -/
structure Pass where
  rows : List OutboxRow
  waiting : Option (Nat × OutboxRow)

structure Put where
  request : Nat
  row : OutboxRow
  capability : Bytes
  expiry : UInt64

/-- A reply on its way. It reaches only the request it answers: another id ends the
connection, and so does a timeout. -/
structure Answer where
  request : Nat
  reply : Except CliError Reply

inductive Event where
  | stored (row : Nat) (mailbox : Bytes) (seq : Nat)
  | undeliverable (row : Nat)
deriving DecidableEq, Repr

structure System where
  store : Store
  queue : Queue
  passes : Nat → Option Pass
  puts : List Put
  answers : List Answer
  requests : Nat
  log : List Event

inductive Action where
  /-- a delivery id is drawn at random, so that nobody else uses it -/
  | enqueue (mailbox deliveryId : Bytes) (eventId : Option Bytes) (hpkeEnc ciphertext : Bytes)
  | write (store : Store)
  | start (pass : Nat)
  | send (pass : Nat) (expiry : UInt64)
  /-- the relay takes a put; its reply may be lost -/
  | arrive (put : Nat) (access : Access) (now : Int) (lost : Bool)
  | lose (put : Nat)
  | receive (pass answer : Nat)
  | stop (pass : Nat)
  | acknowledge (mailbox : Bytes) (deliveryIds : List Bytes)
  | expire (now : Int)
  | other (mailbox deliveryId hpkeEnc ciphertext : Bytes) (expiry now : Int)

def setPass (s : System) (i : Nat) (p : Option Pass) : System := { s with passes := Function.update s.passes i p }

/-- The relay stored this put: it has an envelope it did not have. -/
def storedBy (p : Put) (q q' : Queue) : List Event :=
  match q.queued.get? (p.row.mailboxId, p.row.deliveryId), q'.queued.get? (p.row.mailboxId, p.row.deliveryId) with
  | none, some e => [.stored p.row.id e.mailboxId e.seq]
  | _, _ => []

/-- The row a reply refuses for good. -/
def refusedBy (row : OutboxRow) : Except CliError Reply → List Event
  | .error e => if e.relayCode = some 403 ∨ e.relayCode = some 410 then [.undeliverable row.id] else []
  | .ok _ => []

variable (sha256 : Bytes → Bytes)

def putOf (p : Put) (access : Access) (now : Int) : Queue → Frame × Queue :=
  envelopePut sha256 access p.row.mailboxId p.row.deliveryId p.expiry p.row.hpkeEnc p.row.ciphertext now

def takePut (s : System) (n : Nat) (p : Put) (r : Frame × Queue) (lost : Bool) : System :=
  { s with
    queue := r.2
    puts := s.puts.eraseIdx n
    answers := if lost then s.answers else s.answers ++ [⟨p.request, r.1⟩]
    log := s.log ++ storedBy p s.queue r.2 }

def takeAnswer (s : System) (i n : Nat) (rest : List OutboxRow) (row : OutboxRow) (reply : Except CliError Reply) : System :=
  { s with
    store := (settle row reply s.store).1
    passes := Function.update s.passes i (if (settle row reply s.store).2 then some ⟨rest, none⟩ else none)
    answers := s.answers.eraseIdx n
    log := s.log ++ refusedBy row reply }

def step (s : System) : Action → System
  | .enqueue mailbox deliveryId eventId hpkeEnc ciphertext =>
      if (s.queue.queued.get? (mailbox, deliveryId)).isSome then s
      else { s with store := (Delivery.enqueue mailbox deliveryId eventId hpkeEnc ciphertext s.store).2 }
  | .write store => { s with store := { store with outbox := s.store.outbox } }
  | .start i =>
      match s.passes i with
      | some _ => s
      | none => setPass s i (some ⟨pending s.store, none⟩)
  | .send i expiry =>
      match s.passes i with
      | some ⟨row :: rest, none⟩ =>
          match writeCapFor s.store row.mailboxId with
          | none => setPass s i none
          | some cap =>
              { setPass s i (some ⟨rest, some (s.requests, row)⟩) with
                store := markAttempt row.id s.store
                puts := s.puts ++ [⟨s.requests, row, cap, expiry⟩]
                requests := s.requests + 1 }
      | some ⟨[], none⟩ => setPass s i none
      | _ => s
  | .arrive n access now lost =>
      match s.puts[n]? with
      | none => s
      | some p => takePut s n p (putOf sha256 p access now s.queue) lost
  | .lose n => { s with puts := s.puts.eraseIdx n }
  | .receive i n =>
      match s.passes i, s.answers[n]? with
      | some ⟨rest, some (k, row)⟩, some a => if a.request = k then takeAnswer s i n rest row a.reply else s
      | _, _ => s
  | .stop i => setPass s i none
  | .acknowledge mailbox ids => { s with queue := ackEnvelopes mailbox ids s.queue }
  | .expire now => { s with queue := expireEnvelopes now s.queue }
  | .other mailbox deliveryId hpkeEnc ciphertext expiry now =>
      if s.store.outbox.rows.any fun r => r.mailboxId = mailbox && r.deliveryId = deliveryId then s
      else { s with queue := (putEnvelope sha256 mailbox deliveryId hpkeEnc ciphertext expiry now s.queue).2 }

end Arveil.Passes

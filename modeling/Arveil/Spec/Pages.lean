import Arveil.Spec.Relay

/-! One reader of a mailbox among everything else that happens to the relay's queue.
Each transaction is one step; the reader fetches from the cursor the page before it
returned. -/

namespace Arveil.RelayQueue

/-- A mailbox starts at number one. Its id is drawn at random, so that nobody else has it. -/
def createMailbox (mailboxId : Bytes) (q : Queue) : Queue :=
  { q with mailboxes := q.mailboxes.insertOrIgnore ⟨mailboxId, 1⟩ }

inductive Transaction where
  | create (mailboxId : Bytes)
  | put (mailboxId deliveryId hpkeEnc ciphertext : Bytes) (requestedExpiry now : Int)
  | ack (mailboxId : Bytes) (deliveryIds : List Bytes)
  | expire (now : Int)
  | fetch (mailboxId : Bytes) (cursor limit : Nat) (now : Int)

def Transaction.time : Transaction → Option Int
  | .create _ | .ack _ _ => none
  | .put _ _ _ _ _ now | .expire now | .fetch _ _ _ now => some now

variable (sha256 : Bytes → Bytes)

def Transaction.run : Transaction → Queue → Queue
  | .create mailboxId, q => createMailbox mailboxId q
  | .put mailboxId deliveryId hpkeEnc ciphertext requestedExpiry now, q =>
      (putEnvelope sha256 mailboxId deliveryId hpkeEnc ciphertext requestedExpiry now q).2
  | .ack mailboxId deliveryIds, q => ackEnvelopes mailboxId deliveryIds q
  | .expire now, q => expireEnvelopes now q
  | .fetch _ _ _ _, q => q

/-- The number a put handed out: it stored an envelope the queue did not have. -/
def Transaction.handedOut : Transaction → Queue → List (Bytes × Nat)
  | .put mailboxId deliveryId hpkeEnc ciphertext requestedExpiry now, q =>
      match q.queued.get? (mailboxId, deliveryId),
        (putEnvelope sha256 mailboxId deliveryId hpkeEnc ciphertext requestedExpiry now q).2.queued.get?
          (mailboxId, deliveryId) with
      | none, some e => [(e.mailboxId, e.seq)]
      | _, _ => []
  | _, _ => []

def nextCursor (cursor : Nat) (page : List QueuedEnvelope) : Nat := (page.getLast?.map (·.seq)).getD cursor

inductive Event where
  | other (transaction : Transaction)
  | read (limit : Nat) (now : Int)

def Event.time : Event → Option Int
  | .other t => t.time
  | .read _ now => some now

structure Reading where
  queue : Queue
  cursor : Nat
  received : List QueuedEnvelope
  /-- the numbers handed out so far, with their mailboxes -/
  numbers : List (Bytes × Nat)

variable (mailbox : Bytes)

def page (w : Reading) (limit : Nat) (now : Int) : List QueuedEnvelope := fetchEnvelopes mailbox w.cursor limit now w.queue

def readStep (w : Reading) : Event → Reading
  | .other t => { w with queue := t.run sha256 w.queue, numbers := w.numbers ++ t.handedOut sha256 w.queue }
  | .read limit now =>
      { w with
        cursor := nextCursor w.cursor (page mailbox w limit now)
        received := w.received ++ page mailbox w limit now }

/-- An empty relay and a reader that will start at a cursor of its own. -/
def unread (start : Nat) : Reading := ⟨⟨.empty, .empty⟩, start, [], []⟩

end Arveil.RelayQueue

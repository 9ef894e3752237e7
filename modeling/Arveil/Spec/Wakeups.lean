import Arveil.Spec.RelayServer

/-! Wake-ups (`relay/internal/server/watch.go`, `notify.go`): an envelope that ends the
emptiness of a mailbox sends the hint of its owner and wakes the subscription of its owner's
device. A subscription that starts while mail is waiting is woken at once. -/

namespace Arveil.Wakeups

open RelayStore

/-- The subscription of a device; its channel holds one notice at most. -/
structure Subscription where
  identity : Bytes
  device : Bytes
  woken : Bool
deriving DecidableEq, Repr

abbrev Hub := Table fun s : Subscription => (s.identity, s.device)

structure World where
  db : Db
  hub : Hub
  hinted : List String

def start : World := ⟨.empty, .empty, []⟩

def subscribe (identity device : Bytes) (woken : Bool) (hub : Hub) : Hub := hub.replace ⟨identity, device, woken⟩

def unsubscribe (identity device : Bytes) (hub : Hub) : Hub :=
  hub.delete fun s => s.identity = identity && s.device = device

def setWoken (identity device : Bytes) (woken : Bool) (hub : Hub) : Hub :=
  hub.update (fun s => s.identity = identity && s.device = device) (fun s => { s with woken := woken }) fun _ => rfl

def wake (identity device : Bytes) (hub : Hub) : Hub := setWoken identity device true hub

def mailboxOwner (mailboxId : Bytes) (db : Db) : Option (Bytes × Bytes) :=
  (db.owners.get? mailboxId).map fun o => (o.ownerIdentity, o.ownerDevice)

def deviceHasMail (identity device : Bytes) (now : Int) (db : Db) : Bool :=
  db.queue.queued.rows.any fun e => (db.owners.get? e.mailboxId).any (fun o => o.ownerIdentity = identity && o.ownerDevice = device) &&
    decide (now < e.expiresAt)

def notifyHintForMailbox (mailboxId : Bytes) (db : Db) : String :=
  (((db.owners.get? mailboxId).bind fun o => db.hints.get? o.ownerDevice).map (·.url)).getD ""

def notifyMailbox (mailboxId : Bytes) (w : World) : World :=
  let target := notifyHintForMailbox mailboxId w.db
  if target = "" then w else { w with hinted := target :: w.hinted }

def wakeMailbox (mailboxId : Bytes) (w : World) : World :=
  match mailboxOwner mailboxId w.db with
  | none => w
  | some (identity, device) => { w with hub := wake identity device w.hub }

section steps

variable (sha256 : Bytes → Bytes)

structure Put where
  mailboxId : Bytes
  writeCapability : Bytes
  deliveryId : Bytes
  hpkeEnc : Bytes
  ciphertext : Bytes
  requestedExpiry : UInt64
  now : Int

/-- What the put of a session reported, if it was taken. Only the end of emptiness is worth
a hint. -/
def envelopePut (member : Bool) (p : Put) (w : World) : Option RelayQueue.PutResult × World :=
  if member = false then (none, w)
  else match (checkCapability sha256 p.mailboxId p.writeCapability .write p.now w.db).1 with
  | .error _ => (none, w)
  | .ok () =>
      match putEnvelope sha256 p.mailboxId p.deliveryId p.hpkeEnc p.ciphertext p.requestedExpiry.toInt64.toInt p.now w.db with
      | (.error _, db) => (none, { w with db := db })
      | (.ok r, db) =>
          let w := { w with db := db }
          (some r, if r.wasEmpty = true ∧ r.duplicate = false then wakeMailbox p.mailboxId (notifyMailbox p.mailboxId w) else w)

inductive Event where
  | put (member : Bool) (p : Put)
  /-- any other call of the store: an acknowledgement, a sweep, a new mailbox -/
  | call (c : RelayServer.Call)
  | subscribe (identity device : Bytes) (now : Int)
  | deliver (identity device : Bytes)
  | unsubscribe (identity device : Bytes)

def step (w : World) : Event → World
  | .put member p => (envelopePut sha256 member p w).2
  | .call c => { w with db := (c.prog sha256 w.db).2 }
  | .subscribe identity device now =>
      { w with hub := subscribe identity device (deviceHasMail identity device now w.db) w.hub }
  | .deliver identity device => { w with hub := setWoken identity device false w.hub }
  | .unsubscribe identity device => { w with hub := unsubscribe identity device w.hub }

end steps

end Arveil.Wakeups

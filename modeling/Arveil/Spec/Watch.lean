import Arveil.Lib.Log
import Arveil.Lib.Trace
import Arveil.Spec.Wakeups

/-! The watch hub under concurrency (`relay/internal/server/watch.go`, `serveChannel`). Each
connection reads its frames in one goroutine and delivers its notices in another; the calls of
the store, and what a handler does after its call (`wakeMailbox`, `recheckWatchers`,
`dropStaleWatch`), interleave with both. The log keeps the puts that ended the emptiness of a
mailbox and what happened to subscriptions. -/

namespace Arveil.Watch

open RelayStore RelayServer

/-- Where `deliver` stands; `entitled` is past the check that follows a wake-up. -/
inductive Phase where
  | starting | waiting | taken | entitled | ended
deriving DecidableEq, Repr

structure Subscription where
  conn : Nat
  identity : Bytes
  device : Bytes
  watchKey : Option Bytes
  /-- the channel of capacity one -/
  wake : Bool
  done : Bool
  delivering : Bool
  phase : Phase
deriving DecidableEq, Repr

/-- Where the goroutine that reads a connection stands in `serveChannel`. -/
inductive Stage where
  | reading
  | checked
  | subscribed (next : Nat)
  | acking
  | leaving
  | gone
deriving DecidableEq, Repr

structure Conn where
  session : RelayServer.Session
  sub : Option Nat
  stage : Stage
  closed : Bool
  failed : Bool

def Stage.live : Stage → Bool
  | .leaving | .gone => false
  | _ => true

/-- What a handler still has to do after its call of the store. -/
inductive Pending where
  | wakeMailbox (mailboxId : Bytes)
  | recheckWatchers (identity : Bytes)
  | recheck (sub : Nat)
  | dropStaleWatch (identity device current : Bytes)
deriving DecidableEq, Repr

inductive Entry where
  /-- a put that ended the emptiness of a mailbox, whose owner was this one -/
  | put (mailboxId deliveryId : Bytes) (owner : Option (Bytes × Bytes))
  | entered (sub : Nat)
  | checked (sub : Nat) (mail : List (Bytes × Bytes))
  | taken (sub : Nat)
  | entitled (sub : Nat)
  | notice (sub : Nat)
deriving DecidableEq, Repr

def deviceKey (identity device : Bytes) : String := hexOf identity ++ "/" ++ hexOf device

structure World where
  db : Db
  /-- every subscription that was made -/
  subs : List Subscription
  hub : String → Option Nat
  conns : List Conn
  pending : List Pending
  log : List Entry

def start : World := ⟨.empty, [], fun _ => none, [], [], []⟩

namespace World

def setSub (j : Nat) (f : Subscription → Subscription) (w : World) : World := { w with subs := w.subs.modify j f }

def setConn (c : Nat) (f : Conn → Conn) (w : World) : World := { w with conns := w.conns.modify c f }

def note (e : Entry) (w : World) : World := { w with log := w.log ++ [e] }

end World

def Subscription.key (s : Subscription) : String := deviceKey s.identity s.device

def cancel (j : Nat) (w : World) : World := w.setSub j fun s => { s with done := true }

/-- `subscribe`: the device's old subscription is cancelled. -/
def hubSubscribe (s : Subscription) (w : World) : World :=
  let w := match w.hub s.key with
    | some old => cancel old w
    | none => w
  ({ w with subs := w.subs ++ [s], hub := Function.update w.hub s.key (some w.subs.length) }.note (.entered w.subs.length))

/-- `unsubscribe`: a subscription leaves the hub if it is still its device's. -/
def unsubscribe (j : Nat) (w : World) : World :=
  match w.subs[j]? with
  | none => w
  | some s =>
      if w.hub s.key = some j then { cancel j w with hub := Function.update w.hub s.key none }
      else cancel j w

/-- `wake` -/
def hubWake (identity device : Bytes) (w : World) : World :=
  match w.hub (deviceKey identity device) with
  | none => w
  | some j => w.setSub j fun s => { s with wake := true }

/-- `of`, in any order -/
def hubOf (identity : Bytes) (w : World) : List Nat :=
  (List.range w.subs.length).filter fun j => w.subs[j]?.any fun s => s.identity = identity && w.hub s.key = some j

def dropStaleWatch (identity device current : Bytes) (w : World) : World :=
  match w.hub (deviceKey identity device) with
  | none => w
  | some j =>
      match w.subs[j]? with
      | none => w
      | some s =>
          if s.watchKey = none ∨ s.watchKey = some current then w
          else cancel j { w with hub := Function.update w.hub (deviceKey identity device) none }

def deviceActive (identity device : Bytes) (now : Int) (db : Db) : Bool := (activeDevice identity device now db).isSome

def stillEntitled (s : RelayServer.Session) (now : Int) (db : Db) : Bool :=
  match s.watcher with
  | some d =>
      match (deviceByWatchKey s.remoteStatic now db).1 with
      | .ok (some d', _) => d'.identityId = d.identityId && d'.deviceId = d.deviceId
      | _ => false
  | none => s.device.any fun d => deviceActive d.identityId d.deviceId now db

def watchDevice (s : RelayServer.Session) : Option RelayStore.Device := s.watcher.or s.device

def waitingMail (identity device : Bytes) (now : Int) (db : Db) : List (Bytes × Bytes) :=
  (db.queue.queued.rows.filter fun e => Wakeups.mailboxOwner e.mailboxId db = some (identity, device) &&
    decide (now < e.expiresAt)).map fun e => (e.mailboxId, e.deliveryId)

section steps

variable (sha256 : Bytes → Bytes)

/-- What the handler of a call does next, given what the call returned. -/
def followUp : (c : Call) → Except StoreError c.Result → List Pending
  | .putEnvelope mailboxId _ _ _ _ _, .ok r => if r.wasEmpty = true ∧ r.duplicate = false then [.wakeMailbox mailboxId] else []
  | .publishManifest identity _ _ _, .ok n => if 0 < n then [.recheckWatchers identity] else []
  | .recoverIdentity e _ _, .ok _ => [.recheckWatchers e.identityId]
  | .setWatchKey identity device key, .ok _ => [.dropStaleWatch identity device key]
  | _, _ => []

def record (db : Db) : (c : Call) → Except StoreError c.Result → List Entry
  | .putEnvelope mailboxId deliveryId _ _ _ _, .ok r =>
      if r.wasEmpty = true ∧ r.duplicate = false then [.put mailboxId deliveryId (Wakeups.mailboxOwner mailboxId db)] else []
  | _, _ => []

def call (c : Call) (w : World) : World :=
  let (r, db) := c.prog sha256 w.db
  { w with db := db, pending := w.pending ++ followUp c r, log := w.log ++ record db c r }

end steps

def runPending (p : Pending) (now : Int) (w : World) : World :=
  match p with
  | .wakeMailbox mailboxId =>
      match Wakeups.mailboxOwner mailboxId w.db with
      | none => w
      | some (identity, device) => hubWake identity device w
  | .recheckWatchers identity => { w with pending := w.pending ++ (hubOf identity w).map .recheck }
  | .recheck j =>
      match w.subs[j]? with
      | none => w
      | some s => if deviceActive s.identity s.device now w.db then w else unsubscribe j w
  | .dropStaleWatch identity device current => dropStaleWatch identity device current w

/-- A frame `MailboxWatch` up to the end of the entitlement check. A session whose subscription
is active is only answered. -/
def watchFrame (c : Nat) (now : Int) (w : World) : World :=
  match w.conns[c]? with
  | none => w
  | some conn =>
      if conn.stage ≠ .reading ∨ (conn.sub.any fun j => w.subs[j]?.any fun s => !s.done) then w
      else if (watchDevice conn.session).isSome ∧ stillEntitled conn.session now w.db = true then
        w.setConn c fun conn => { conn with stage := .checked }
      else w

/-- The rest of `startWatch`. -/
def enterHub (c : Nat) (w : World) : World :=
  match w.conns[c]? with
  | some ⟨session, _, .checked, _, _⟩ =>
      match watchDevice session with
      | none => w
      | some d =>
          let watchKey := if session.watcher.isSome then some session.remoteStatic else none
          (hubSubscribe ⟨c, d.identityId, d.deviceId, watchKey, false, false, false, .starting⟩ w).setConn c
            fun conn => { conn with stage := .subscribed w.subs.length }
  | _ => w

def adopt (c : Nat) (w : World) : World :=
  match w.conns[c]? with
  | some ⟨_, old, .subscribed next, _, _⟩ =>
      (match old with
        | some j => unsubscribe j w
        | none => w).setConn c fun conn => { conn with sub := some next, stage := .acking }
  | _ => w

/-- The acknowledgement is written and `deliver` started, or the connection ends. -/
def acknowledge (c : Nat) (ok : Bool) (w : World) : World :=
  match w.conns[c]? with
  | some ⟨_, some j, .acking, _, _⟩ =>
      if ok then (w.setSub j fun s => { s with delivering := true }).setConn c fun conn => { conn with stage := .reading }
      else w.setConn c fun conn => { conn with stage := .leaving }
  | _ => w

/-- The reader returns: `cancel`, and then `unsubscribe`. -/
def hangUp (c : Nat) (w : World) : World :=
  match w.conns[c]? with
  | some ⟨_, _, .reading, _, _⟩ => w.setConn c fun conn => { conn with stage := .leaving }
  | _ => w

def leave (c : Nat) (w : World) : World :=
  match w.conns[c]? with
  | some ⟨_, sub, .leaving, _, _⟩ =>
      (match sub with
        | some j => unsubscribe j w
        | none => w).setConn c fun conn => { conn with stage := .gone }
  | _ => w

/-- The goroutine that delivers: its first check, what its `select` picks, and what follows a
wake-up. -/
inductive Delivery where
  | check (now : Int)
  | contextDone
  | subDone
  | take
  | entitle (now : Int)
  | write (ok : Bool)
deriving DecidableEq, Repr

def closeIf (c : Nat) (w : World) : World :=
  w.setConn c fun conn => if conn.session.watcher.isSome && conn.stage.live then { conn with closed := true } else conn

def Subscription.to (p : Phase) (s : Subscription) : Subscription := { s with phase := p }

def deliver (j : Nat) (s : Subscription) (conn : Conn) (w : World) : Delivery → World
  | .check now =>
      if s.phase = .starting ∧ s.delivering = true then
        -- under a cancelled context the query fails
        let mail := if conn.stage.live then waitingMail s.identity s.device now w.db else []
        (w.setSub j fun s => { s with phase := .waiting, wake := s.wake || !mail.isEmpty }).note (.checked j mail)
      else w
  | .contextDone =>
      if s.phase = .waiting ∧ conn.stage.live = false then w.setSub j (·.to .ended) else w
  | .subDone =>
      if s.phase = .waiting ∧ s.done = true then closeIf s.conn (w.setSub j (·.to .ended)) else w
  | .take =>
      if s.phase = .waiting ∧ s.wake = true then
        (w.setSub j fun s => { s with phase := .taken, wake := false }).note (.taken j)
      else w
  | .entitle now =>
      if s.phase = .taken then
        if conn.stage.live = true ∧ stillEntitled conn.session now w.db = true then (w.setSub j (·.to .entitled)).note (.entitled j)
        else closeIf s.conn (unsubscribe j (w.setSub j (·.to .ended)))
      else w
  | .write ok =>
      if s.phase = .entitled then
        if ok then (w.setSub j (·.to .waiting)).note (.notice j)
        else (w.setSub j (·.to .ended)).setConn s.conn fun conn => { conn with failed := true }
      else w

inductive Event where
  | call (c : Call)
  | pending (k : Nat) (now : Int)
  | connect (s : RelayServer.Session)
  /-- an enrollment or a recovery on the connection -/
  | authorize (c : Nat) (d : RelayStore.Device)
  | watchFrame (c : Nat) (now : Int)
  | enterHub (c : Nat)
  | adopt (c : Nat)
  | acknowledge (c : Nat) (ok : Bool)
  | hangUp (c : Nat)
  | leave (c : Nat)
  | deliver (j : Nat) (d : Delivery)

def step (sha256 : Bytes → Bytes) (w : World) : Event → World
  | .call c => call sha256 c w
  | .pending k now =>
      match w.pending[k]? with
      | none => w
      | some p => runPending p now { w with pending := w.pending.eraseIdx k }
  | .connect s => { w with conns := w.conns ++ [⟨s, none, .reading, false, false⟩] }
  | .authorize c d =>
      w.setConn c fun conn => if conn.session.watcher.isNone && conn.stage = .reading then
        { conn with session := { conn.session with device := some d } } else conn
  | .watchFrame c now => watchFrame c now w
  | .enterHub c => enterHub c w
  | .adopt c => adopt c w
  | .acknowledge c ok => acknowledge c ok w
  | .hangUp c => hangUp c w
  | .leave c => leave c w
  | .deliver j d =>
      match w.subs[j]? with
      | none => w
      | some s =>
          match w.conns[s.conn]? with
          | none => w
          | some conn => deliver j s conn w d

end Arveil.Watch

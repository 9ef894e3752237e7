import Arveil.Spec.RelayServer
import Arveil.Spec.Store

/-! Answering a link on the device that holds the root (`answer_link`,
`publish_authorization`), beside the revocations and syncs of the same profile
(`devices::revoke`, `devices::publish`). A command runs up to its next request; the relay
serves a request call by call, and whatever the other commands and sessions do lies between
two calls. The rendezvous through which the answer travels is the relay's
`store/pairing.go`. -/

namespace Arveil

namespace Rendezvous

structure PairRow where
  pairId : Bytes
  capHash : Bytes
  expiresAt : Int
deriving DecidableEq, Repr

structure SlotRow where
  pairId : Bytes
  slot : String
  data : Bytes
deriving DecidableEq, Repr

structure Pairs where
  rendezvous : Table PairRow.pairId
  slots : Table fun s : SlotRow => (s.pairId, s.slot)

def Pairs.empty : Pairs := ⟨.empty, .empty⟩

inductive PairError where
  | unknown
  | slot
  | taken
  | size
  | busy
  | sqlite
deriving DecidableEq, Repr

def maxPairData : Nat := 8 * 1024

def maxOpenRendezvous : Nat := 32

def validSlot (s : String) : Bool := s = "a" || s = "b" || s = "c"

/-- One statement, or the transaction of the sweep. -/
inductive Call where
  | countOpen (now : Int)
  | insertPair (row : PairRow)
  | pairExists (id capHash : Bytes) (now : Int)
  | slotData (id : Bytes) (slot : String)
  | insertSlot (row : SlotRow)
  | sweepPairs (now : Int)
deriving DecidableEq, Repr

abbrev Call.Result : Call → Type
  | .countOpen _ => Nat
  | .pairExists _ _ _ => Bool
  | .slotData _ _ => Option Bytes
  | .insertPair _ | .insertSlot _ | .sweepPairs _ => Unit

/-- The rendezvous that has expired goes with its slots. -/
def sweepPairs (now : Int) (p : Pairs) : Pairs where
  rendezvous := p.rendezvous.delete fun r => r.expiresAt ≤ now
  slots := p.slots.delete fun s => p.rendezvous.rows.any fun r => r.pairId = s.pairId && r.expiresAt ≤ now

def addPair (row : PairRow) (p : Pairs) : Option Pairs :=
  (p.rendezvous.insert row).map fun t => { p with rendezvous := t }

/-- A slot belongs to a rendezvous that is there. -/
def addSlot (row : SlotRow) (p : Pairs) : Option Pairs :=
  if (p.rendezvous.get? row.pairId).isNone then none else (p.slots.insert row).map fun t => { p with slots := t }

def insertInto {ρ : Type} (f : ρ → Pairs → Option Pairs) (row : ρ) : Prog Pairs PairError Unit :=
  Prog.tryModify fun p => match f row p with
    | some p => .ok p
    | none => .error .sqlite

def isOpen (id capHash : Bytes) (now : Int) (p : Pairs) : Bool :=
  p.rendezvous.rows.any fun r => r.pairId = id && r.capHash = capHash && now < r.expiresAt

def Call.prog : (c : Call) → Prog Pairs PairError c.Result
  | .countOpen now => Prog.read fun p => (p.rendezvous.rows.filter fun r => now < r.expiresAt).length
  | .insertPair row => insertInto addPair row
  | .pairExists id capHash now => Prog.read (isOpen id capHash now)
  | .slotData id slot => Prog.read fun p => (p.slots.get? (id, slot)).map (·.data)
  | .insertSlot row => insertInto addSlot row
  | .sweepPairs now => Prog.modify (Rendezvous.sweepPairs now)

def service : Service Pairs PairError := ⟨Call, Call.Result, Call.prog⟩

abbrev Handles (α : Type) := Handler service α

def ask (c : Call) : Handles (Except PairError c.Result) := Handler.ask (I := service) c

/-- Writes one slot. The same bytes again are fine, others under a slot already written are
a conflict. -/
def putPair (sha256 : Bytes → Bytes) (id capability : Bytes) (slot : String) (data : Bytes) (now : Int) :
    Handles (Except PairError Unit) :=
  if validSlot slot = false then pure (.error .slot)
  else if data.length = 0 ∨ maxPairData < data.length then pure (.error .size)
  else do
    match (← ask (.pairExists id (sha256 capability) now)) with
    | .error e => pure (.error e)
    | .ok false => pure (.error .unknown)
    | .ok true => do
        match (← ask (.slotData id slot)) with
        | .error e => pure (.error e)
        | .ok (some existing) => pure (if existing = data then .ok () else .error .taken)
        | .ok none => ask (.insertSlot ⟨id, slot, data⟩)

def pairAnswer : Except PairError Unit → RelayServer.Answer
  | .ok () => .ack
  | .error .unknown => .error 410 "unknown rendezvous, wrong capability or expired"
  | .error .slot => .error 400 "unknown slot"
  | .error .size => .error 413 "payload too large for a rendezvous slot"
  | .error .taken => .error 409 "that slot already holds different bytes"
  | .error _ => .error 500 "store error"

def pairPut (sha256 : Bytes → Bytes) (id capability : Bytes) (slot : String) (data : Bytes) (now : Int) :
    Handles RelayServer.Answer := do
  let r ← putPair sha256 id capability slot data now
  pure (pairAnswer r)

end Rendezvous

namespace Approvals

open RelayServer (Answer Outcome Handles dispatch authorize)

structure PairingGrant where
  credential : Bytes
  manifest : Bytes
  rootPublic : Bytes
deriving DecidableEq, Repr

/-- The pairing channel: an answer, encoded and sealed. A device older than the refusal
reads the bare grant. -/
structure Channel where
  grant : Bool → PairingGrant → Except CliError Bytes
  declined : Except CliError Bytes

structure Requested where
  device : DevicePublicKeys
  pairId : Bytes
  capability : Bytes
  channel : Channel
  legacy : Bool
  expiresAt : Option UInt64

/-- What a yes signed. -/
structure Authorization where
  credential : Bytes
  manifest : Bytes
  sequence : UInt64
  signedAt : UInt64
deriving DecidableEq, Repr

section commands

variable (cx : Crypto) (items : CborItems)

/-- How far an answer has come, with the request it waits for. -/
inductive Link where
  | opening (h : Handles cx (Option RelayServer.Session))
  | publishing (s : RelayServer.Session) (a : Authorization) (h : Handles cx Outcome)
  | registering (s : RelayServer.Session) (a : Authorization) (h : Handles cx Outcome)
  | granting (a : Authorization) (h : Rendezvous.Handles Answer)
  | declining (h : Rendezvous.Handles Answer)
  | answered (a : Option Authorization)
  | failed (a : Option Authorization) (e : CliError)

def clientError (context : String) : ClientError → CliError
  | .sqlite e => storageError context e.message
  | e => domainError context e.message

/-- `Payload::Ack`, or the error of any other reply. -/
def acked : Answer → Except CliError Unit
  | .ack => .ok ()
  | .error code message => .error (.relay code message)
  | _ => .error (.protocol "unexpected reply")

def slotGrant : String := "c"

def putSlot (r : Requested) (data : Bytes) (relayNow : Int) : Rendezvous.Handles Answer :=
  Rendezvous.pairPut cx.sha256 r.pairId r.capability slotGrant data relayNow

def openConnection (store : Store) (relayNow : Int) : Option (Handles cx (Option RelayServer.Session)) :=
  (Client.device store).map fun d => authorize cx d.keys.noisePublic relayNow

/-- `answer_link`, up to its connection. -/
def answerLink (store : Store) (r : Requested) (approve : Bool) (now : UInt64) (relayNow : Int) : Link cx :=
  if approve = true ∧ r.expiresAt.any (fun at_ => at_ ≤ now) = true then
    .failed none (.domain "the link expired before it was confirmed; nothing was signed. Show a new code")
  else match openConnection cx store relayNow with
  | none => .failed none (.domain "no enrolled device in this data dir")
  | some h =>
      if (Client.root store).isNone then
        .failed none (.domain "only the device that holds the identity's root can link another device")
      else .opening h

def lastSequence (store : Store) : UInt64 := ((Client.manifestState store).map (·.sequence)).getD 0

/-- The yes: sign the credential and the next manifest, and send the manifest. -/
def approveLink (r : Requested) (s : RelayServer.Session) (now : UInt64) (relayNow : Int) (store : Store) : Link cx × Store :=
  match Client.deviceAuthorize cx r.device now store with
  | (.error e, store) => (.failed none (clientError "authorize" e), store)
  | (.ok (credential, manifest), store) =>
      (.publishing s ⟨credential, manifest, lastSequence store, now⟩
        (dispatch cx items s (.manifestPut manifest) relayNow), store)

def declineLink (r : Requested) (relayNow : Int) : Link cx :=
  if r.legacy then .answered none
  else match r.channel.declined with
  | .error e => .failed none e
  | .ok sealed => .declining (putSlot cx r sealed relayNow)

/-- The credential is registered: seal the grant and put it. -/
def sealGrant (r : Requested) (a : Authorization) (relayNow : Int) (store : Store) : Link cx :=
  match Client.rootPublic store with
  | none => .failed (some a) (.domain "no identity")
  | some root =>
      match r.channel.grant r.legacy ⟨a.credential, a.manifest, root⟩ with
      | .error e => .failed (some a) e
      | .ok sealed => .granting a (putSlot cx r sealed relayNow)

/-- Go on with the reply, once it is there. -/
def Link.poll (r : Requested) (approve : Bool) (now : UInt64) (relayNow : Int) (store : Store) : Link cx → Link cx × Store
  | .opening (.done none) => (.failed none (.transport "refused"), store)
  | .opening (.done (some s)) =>
      if approve then approveLink cx items r s now relayNow store else (declineLink cx r relayNow, store)
  | .publishing s a (.done o) =>
      match acked o.answer with
      | .error e => (.failed (some a) e, store)
      | .ok () => (.registering s a (dispatch cx items s (.credentialPut a.credential) relayNow), store)
  | .registering _ a (.done o) =>
      match acked o.answer with
      | .error e => (.failed (some a) e, store)
      | .ok () => (sealGrant cx r a relayNow store, store)
  | .granting a (.done reply) =>
      match acked reply with
      | .error e => (.failed (some a) e, store)
      | .ok () => (.answered (some a), store)
  | .declining (.done reply) =>
      match acked reply with
      | .error e => (.failed none e, store)
      | .ok () => (.answered none, store)
  | l => (l, store)

/-- Both hold the same lock to their end. -/
inductive Publisher where
  | queued (revoke : Option Bytes)
  | connecting (h : Handles cx (Option RelayServer.Session))
  | publishing (pending : List Revocation) (manifest : Bytes) (h : Handles cx Outcome)
  | rest
  | finished (r : Except CliError Unit)

def Publisher.holdsLock : Publisher cx → Bool
  | .queued _ | .finished _ => false
  | _ => true

/-- `revocation_published`, for each that the request included. -/
def revocationsPublished (pending : List Revocation) (s : Store) : Store :=
  { s with
    deviceRevocations := s.deviceRevocations.update (fun r => pending.any fun p => p.deviceId = r.deviceId)
      ({ · with relayPublished := true }) fun _ => rfl }

def connectPublisher (store : Store) (relayNow : Int) : Publisher cx :=
  match openConnection cx store relayNow with
  | none => .finished (.error (.domain "no enrolled device in this data dir"))
  | some h => .connecting h

/-- The latest local manifest, if a revocation waits for its publication. -/
def publishManifest (s : RelayServer.Session) (relayNow : Int) (store : Store) : Publisher cx :=
  let pending := (Client.revocations store).filter fun r => !r.relayPublished
  if pending = [] then .rest
  else match Client.latestManifest store with
  | none => .finished (.error (.domain "no manifest"))
  | some manifest => .publishing pending manifest (dispatch cx items s (.manifestPut manifest) relayNow)

def Publisher.poll (locked : Bool) (relayNow : Int) (store : Store) : Publisher cx → Publisher cx × Store
  | .queued revoke =>
      if locked then (.queued revoke, store)
      else match revoke with
      | none => (connectPublisher cx store relayNow, store)
      | some device =>
          match Client.deviceRevoke cx device store with
          | (.error e, store) => (.finished (.error (domainError "revoke" e.message)), store)
          | (.ok _, store) => (connectPublisher cx store relayNow, store)
  | .connecting (.done none) => (.finished (.error (.transport "refused")), store)
  | .connecting (.done (some s)) => (publishManifest cx items s relayNow store, store)
  | .publishing pending _ (.done o) =>
      if o.answer = .ack then (.rest, revocationsPublished pending store)
      else (.finished (.error (.protocol "unexpected manifest publication reply")), store)
  | .rest => (.finished (.ok ()), store)
  | p => (p, store)

inductive Job where
  | link (r : Requested) (approve : Bool) (l : Link cx)
  | publisher (p : Publisher cx)

structure World where
  store : Store
  db : RelayStore.Db
  pairs : Rendezvous.Pairs
  jobs : List (Job cx)

inductive Event where
  | answerLink (r : Requested) (approve : Bool) (now : UInt64) (relayNow : Int)
  | revokeDevice (device : Bytes)
  | sync
  | poll (i : Nat) (now : UInt64) (relayNow : Int)
  | serve (i : Nat)
  /-- a revocation or a sync ends with a failure of its own -/
  | stop (i : Nat) (e : CliError)
  /-- a sync comes upon a manifest of the own identity -/
  | accept (signed : Bytes)
  /-- a call for another session -/
  | other (c : RelayServer.Call)
  | otherPair (c : Rendezvous.Call)

def World.locked (w : World cx) : Bool := w.jobs.any fun
  | .publisher p => p.holdsLock
  | .link _ _ _ => false

def Link.serve (db : RelayStore.Db) (pairs : Rendezvous.Pairs) : Link cx → Link cx × RelayStore.Db × Rendezvous.Pairs
  | .opening h => (.opening (h.step db).1, (h.step db).2, pairs)
  | .publishing s a h => (.publishing s a (h.step db).1, (h.step db).2, pairs)
  | .registering s a h => (.registering s a (h.step db).1, (h.step db).2, pairs)
  | .granting a h => (.granting a (h.step pairs).1, db, (h.step pairs).2)
  | .declining h => (.declining (h.step pairs).1, db, (h.step pairs).2)
  | l => (l, db, pairs)

def Publisher.serve (db : RelayStore.Db) : Publisher cx → Publisher cx × RelayStore.Db
  | .connecting h => (.connecting (h.step db).1, (h.step db).2)
  | .publishing pending manifest h => (.publishing pending manifest (h.step db).1, (h.step db).2)
  | p => (p, db)

def step (w : World cx) : Event → World cx
  | .answerLink r approve now relayNow =>
      { w with jobs := w.jobs ++ [.link r approve (answerLink cx w.store r approve now relayNow)] }
  | .revokeDevice device => { w with jobs := w.jobs ++ [.publisher (.queued (some device))] }
  | .sync => { w with jobs := w.jobs ++ [.publisher (.queued none)] }
  | .poll i now relayNow =>
      match w.jobs[i]? with
      | none => w
      | some (.link r approve l) =>
          let (l, store) := l.poll cx items r approve now relayNow w.store
          { w with store := store, jobs := w.jobs.set i (.link r approve l) }
      | some (.publisher p) =>
          let (p, store) := p.poll cx items w.locked relayNow w.store
          { w with store := store, jobs := w.jobs.set i (.publisher p) }
  | .serve i =>
      match w.jobs[i]? with
      | none => w
      | some (.link r approve l) =>
          let (l, db, pairs) := l.serve cx w.db w.pairs
          { w with db := db, pairs := pairs, jobs := w.jobs.set i (.link r approve l) }
      | some (.publisher p) =>
          let (p, db) := p.serve cx w.db
          { w with db := db, jobs := w.jobs.set i (.publisher p) }
  | .stop i e =>
      match w.jobs[i]? with
      | some (.publisher _) => { w with jobs := w.jobs.set i (.publisher (.finished (.error e))) }
      | _ => w
  | .accept signed => { w with store := (Client.manifestAcceptOwn cx signed w.store).2 }
  | .other c => { w with db := (c.prog cx.sha256 w.db).2 }
  | .otherPair c => { w with pairs := (c.prog w.pairs).2 }

end commands

end Approvals

end Arveil

import Arveil.Spec.Network

/-! One synchronisation of a client with its relay: the outbox is published, the
manifests are refreshed, the mailbox is read in sequence order, and what was
processed is acknowledged (`publish_pending`, `refresh_manifests`, `sync`). -/

namespace Arveil.Sync

open Client Delivery Receive

/-- Write capability for a mailbox, from any conversation that knows it: the first
one in the order conversations and their peers are listed. -/
def writeCapFor (s : Store) (mailbox : Bytes) : Option Bytes :=
  (conversations s).findSome? fun c =>
    c.peers.findSome? fun p => if p.mailbox = some mailbox then p.writeCap else none

def putPayload (row : OutboxRow) (cap : Bytes) (expiry : UInt64) : Payload :=
  .envelopePut row.mailboxId cap row.deliveryId expiry row.hpkeEnc row.ciphertext

/-- Publish one row; whether the relay accepted it. The relay codes 403 and 410
settle the row for good, every other failure stops the pass. -/
def publishRow (relay : Relay) (expiry : UInt64) (row : OutboxRow) : Net Bool := do
  let cap ← Prog.ofOption (.domain "no write capability for a pending envelope")
    (← Prog.read fun w => writeCapFor w.store row.mailboxId)
  onStore (Prog.modify (markAttempt row.id))
  match (← Prog.attempt (Net.request relay (putPayload row cap expiry))) with
  | .ok (.envelopeAccepted effectiveExpiry) =>
      onStore (Prog.modify (markAccepted row.id (some effectiveExpiry.toInt64.toInt)))
      pure true
  | .ok other => Net.unexpected relay other
  | .error e =>
      if e.relayCode = some 403 ∨ e.relayCode = some 410 then do
        onStore (Prog.modify (markUndeliverable row.id))
        pure false
      else Prog.fail e

def publishRows (relay : Relay) (expiry : UInt64) : List OutboxRow → Net Nat
  | [] => pure 0
  | row :: rest => do
      let accepted ← publishRow relay expiry row
      let n ← publishRows relay expiry rest
      pure (accepted.toNat + n)

def publishPending (relay : Relay) (expiry : UInt64) : Net Nat := do
  let rows ← Prog.read fun w => pending w.store
  publishRows relay expiry rows

/-- The manifest and its notices commit together, or neither does. -/
def refreshPeer (pf : Platform) (id signed : Bytes) : Client (DeviceManifest × Bool) :=
  Prog.unitOfWork do
    let (body, new, change) ← peerManifestAccept pf.crypto id signed
    Prog.when (new = true) (recordDeviceNotices pf id body.manifestSequence change none)
    pure (body, new)

/-- The newest manifest the relay serves for one identity. A rejected one is
reported, never applied, and does not stop the others. -/
def refreshOne (pf : Platform) (relay : Relay) (s : Session) (id : Bytes) : Net Unit := do
  let signed ← Net.servedManifest relay id
  if signed.isEmpty then pure ()
  else
    let _ ← Prog.attempt (onStore (storage "manifest"
      (if id = s.identityId then manifestAcceptOwn pf.crypto signed else refreshPeer pf id signed)))
    pure ()

/-- This identity and every identity of its conversations, each once. -/
def refreshIdentities (st : Store) (own : Bytes) : List Bytes :=
  ((conversations st).flatMap fun c => c.peers.map (·.identity)).foldl
    (fun ids id => if id ∈ ids then ids else ids ++ [id]) [own]

def refreshManifests (pf : Platform) (relay : Relay) (s : Session) : Net Unit := do
  let ids ← Prog.read fun w => refreshIdentities w.store s.identityId
  Prog.forEach ids (refreshOne pf relay s)

/-- The receive unit of one envelope: recorded, opened and processed, or nothing. -/
def receiveUnit (pf : Platform) (s : Session) (now : Int) (mailbox : Bytes) (item : EnvelopeItem) :
    App (Option StateChange) :=
  Prog.unitOfWork do
    if (← delivery "inbox" (recordIncoming mailbox item.deliveryId item.seq.toInt64)) then
      let inner ← liftProtocol "open" (pf.openEnvelope s.device.keys.hpkePrivate
        ⟨1, s.realmId, mailbox, item.deliveryId⟩ item.hpkeEnc item.ciphertext)
      let msg ← liftProtocol "mls parse" (pf.mlsFromBytes inner.payload)
      let change ← handleMls pf s now msg item.deliveryId
      pure (some change)
    else pure none

/-- Envelopes in sequence order. The first one that cannot be processed stops the
pass; returns the sequence the pass advanced to. -/
def receiveItems (pf : Platform) (s : Session) (now : Int) (mailbox : Bytes) :
    UInt64 → List EnvelopeItem → App UInt64
  | advanced, [] => pure advanced
  | advanced, item :: rest => do
      match (← Prog.attempt (receiveUnit pf s now mailbox item)) with
      | .ok _ => receiveItems pf s now mailbox item.seq rest
      | .error _ => pure advanced

/-- The parts of a synchronisation that are not modelled: what `devices` prepares
and publishes, the key packages, the attachments. -/
structure Hooks where
  prepare : Net Unit
  publishDevices : Net Unit
  replenishKeyPackages : Net Unit
  downloadPending : Net Unit

/-- `ORDER BY created_at LIMIT 1` -/
def mailboxOwn (s : Store) : Option MailboxOwn :=
  (s.mailboxOwn.rows.insertionSort fun a b => a.createdAt ≤ b.createdAt).head?

def acknowledge (relay : Relay) (m : MailboxOwn) : Net Unit := do
  let ids ← Prog.read fun w => unacked w.store m.mailboxId
  if ids.isEmpty then pure ()
  else match (← Net.request relay (.envelopeAck m.mailboxId m.readCapability ids)) with
    | .ack => onStore (Prog.modify (markAcked m.mailboxId ids))
    | other => Net.unexpected relay other

/-- What follows the outbox: the manifests, one page of the mailbox, what its
codes and invitations settle, the acknowledgement and the cursor. -/
def fetchMail (pf : Platform) (relay : Relay) (hooks : Hooks) (s : Session) (now : Int) (m : MailboxOwn) :
    Net Unit := do
  refreshManifests pf relay s
  hooks.replenishKeyPackages
  let start ← Prog.read fun w => (cursor w.store m.mailboxId).toUInt64
  match (← Net.request relay (.envelopeFetch m.mailboxId m.readCapability start 50)) with
  | .envelopes items _ =>
      let next ← onStore (receiveItems pf s now m.mailboxId start items)
      let _ ← (Prog.attempt (Net.settleInPerson relay pf now) : Net (Except CliError Unit))
      let _ ← (Prog.attempt (Net.settle relay pf now) : Net (Except CliError Unit))
      hooks.downloadPending
      acknowledge relay m
      onStore (Prog.modify (setCursor m.mailboxId next.toInt64))
  | other => Net.unexpected relay other

/-- `chat sync` -/
def sync (pf : Platform) (relay : Relay) (hooks : Hooks) (s : Session) (now : Int) (expiry : UInt64) : Net Unit := do
  let m ← Prog.ofOption (.domain "no mailbox") (← Prog.read fun w => mailboxOwn w.store)
  hooks.prepare
  hooks.publishDevices
  let _ ← publishPending relay expiry
  fetchMail pf relay hooks s now m
  hooks.prepare
  let _ ← publishPending relay expiry
  pure ()

end Arveil.Sync

import Arveil.Spec.Acts
import Arveil.Lib.Dialog

/-! The invitations a device issues, as their commands run (`invitations.rs`): issue,
list, revoke, and the settling of hellos that ends a sync. Each asks the relay and waits,
and holds the lock of the sync meanwhile, so that one of them runs at a time; what the
person does without that lock comes between. -/

namespace Arveil.Settling

open Client

/-- A hello as it came: the leaf that sent it, and the identity the profile has for the
leaf's device. -/
structure Heard where
  groupId : Bytes
  leaf : Option Member
  sender : Option Bytes
  hello : Hello
deriving DecidableEq

/-- An invitation connected to a conversation: what the relay said of it, and the profile
the change was stored in. -/
structure Connection where
  groupId : Bytes
  receipt : InvitationRecord
  before : Store

/-- A client, with the invitations it issued and their secrets, the hellos that came and
the invitations that were connected. -/
structure Desk where
  world : World
  issued : List (Bytes × Bytes)
  heard : List Heard
  connected : List Connection

namespace Desk

def store (d : Desk) : Store := d.world.store

def setStore (st : Store) (d : Desk) : Desk := { d with world := { d.world with store := st } }

def outgoing (d : Desk) (id : Bytes) : Option InvitationOperation := invitationOperation d.store id .outgoing

end Desk

def onProfile {α : Type} (p : App α) : Prog Desk CliError α := Prog.zoom Desk.store Desk.setStore p

def log (f : Desk → Desk) : Prog Desk CliError Unit := Prog.modify f

inductive Payload where
  | invitePolicyGet
  | inviteCreate (requestKey tokenHash : Bytes) (ttl : UInt64)
  | inviteList (cursor : UInt64) (limit : Nat)
  | inviteGet (invitationId : Bytes)
  | inviteRevoke (invitationId : Bytes)
  | credentialGet (identityId credentialHash : Bytes)
  | manifestGet (identityId : Bytes)
deriving DecidableEq, Repr

/-- A request, and the conversation whose sender is being bound while it waits. -/
structure Question where
  payload : Payload
  binding : Option Bytes
deriving DecidableEq, Repr

inductive Reply where
  | invitePolicy (canInvite : Bool) (serverTime ttl : UInt64)
  | invitation (record : InvitationRecord)
  | invitations (records : List InvitationRecord) (nextCursor : UInt64)
  | credentialFound (credential : Bytes)
  | manifestLatest (manifest : Bytes)
  | other (debug : String)
deriving DecidableEq, Repr

/-- What comes back, and the time it comes. -/
structure Answer where
  now : Int
  reply : Except CliError Reply

abbrev Talk (α : Type) := Dialog Desk Question Answer CliError α

def lift {α : Type} (r : Except CliError α) : Talk α := .done r

/-- `conn.request(payload)` -/
def request (payload : Payload) : Talk Answer := Dialog.question ⟨payload, none⟩

def invalidReply : CliError := Net.failure "invalid server reply"

/-- `n as i64` -/
def asI64 (n : UInt64) : Int := n.toInt64.toInt

/-- `blank(id, "outgoing")` -/
def blank (now : Int) (id : Bytes) : InvitationOperation where
  id := id
  direction := .outgoing
  link := ""
  requestKey := []
  claimKey := []
  secret := []
  state := "prepared"
  createdAt := now
  expiresAt := 0
  claimant := []
  groupId := []
  keyPackage := []
  checkedAt := 0

def save (o : InvitationOperation) : App Unit := Prog.modify (invitationOperationSave o)

/-- The outgoing operations, the newest first. -/
def operations (s : Store) : List InvitationOperation :=
  (s.invitationOperations.rows.filter fun o => o.direction = .outgoing).insertionSort fun a b =>
    b.createdAt < a.createdAt ∨ (b.createdAt = a.createdAt ∧ bytesLe a.id b.id)

def outdated (now : Int) (o : InvitationOperation) : Bool :=
  o.direction = .outgoing && o.expiresAt < now - 37 * 24 * 3600

/-- Drop no proof until both the invitation and the delivery retention have elapsed. -/
def invitationCleanup (now : Int) (s : Store) : Store :=
  { s with
    invitationOperations :=
      (s.invitationOperations.update (fun o => outdated now o || (o.direction = .incoming && o.state = "complete"))
        (fun o => { o with link := "", secret := [], keyPackage := [] }) fun _ => rfl).delete (outdated now)
    invitationHellos := s.invitationHellos.delete fun h =>
      s.invitationOperations.rows.any fun o => outdated now o && o.id = h.invitationId }

structure Policy where
  canInvite : Bool
  serverTime : UInt64
  ttl : UInt64
deriving DecidableEq, Repr

def policy : Talk Policy := do
  match (← request .invitePolicyGet).reply with
  | .ok (.invitePolicy canInvite serverTime ttl) =>
      if 0 < ttl.toNat ∧ ttl.toNat ≤ 7 * 24 * 3600 ∧ serverTime.toNat + ttl.toNat < 2 ^ 63 then
        pure ⟨canInvite, serverTime, ttl⟩
      else lift (.error invalidReply)
  | .error (.relay 400 _) => lift (.error (Net.failure "server update required"))
  | .error e => lift (.error e)
  | .ok _ => lift (.error invalidReply)

structure Draw where
  token : Bytes
  secret : Bytes
  key : Bytes
deriving DecidableEq, Repr

structure Cards where
  /-- the card of a token and a secret that expires then, with the realm and the route of the profile -/
  link : Store → (token secret : Bytes) → (expiresAt : Int) → Except CliError String
  /-- the same card with another expiry -/
  renew : (link : String) → (expiresAt : Int) → Except CliError String

section commands

variable (pf : Platform) (cards : Cards)

/-- The eight bytes of the relay's time before what was drawn. -/
def requestKey (serverTime : UInt64) (drawn : Bytes) : Bytes :=
  ((List.range 8).reverse.map fun i => (serverTime >>> (8 * UInt64.ofNat i)).toUInt8) ++ drawn

/-- The operation to issue: the named one, one that was begun, or a new one. -/
def chosen (id : Option Bytes) (draw : Draw) (policy : Policy) (now : Int) : Prog Desk CliError InvitationOperation := do
  match id with
  | some id => Prog.ofOption (Net.failure "unknown invitation") (← Prog.read (·.outgoing id))
  | none =>
      match (← Prog.read fun d => (operations d.store).find? fun o => o.state = "issuing") with
      | some op => pure op
      | none =>
          let expiresAt := asI64 (policy.serverTime + policy.ttl)
          let link ← Prog.ofExcept (cards.link (← Prog.read Desk.store) draw.token draw.secret expiresAt)
          let op := { blank now (pf.crypto.sha256 draw.token) with
            requestKey := requestKey policy.serverTime draw.key
            secret := draw.secret
            state := "issuing"
            expiresAt := expiresAt
            link := link }
          onProfile (save op)
          log fun d => { d with issued := (op.id, op.secret) :: d.issued }
          pure op

def create (op : InvitationOperation) (ttl : UInt64) : Talk InvitationOperation := do
  let answer ← request (.inviteCreate op.requestKey op.id ttl)
  match answer.reply with
  | .error e => lift (.error e)
  | .ok (.invitation record) =>
      let op ← lift (Net.applyRecord answer.now op record)
      let link ← lift (cards.renew op.link op.expiresAt)
      Dialog.call (onProfile (save { op with link := link }))
      pure { op with link := link }
  | .ok _ => lift (.error invalidReply)

def issue (id : Option Bytes) (draw : Draw) (now : Int) : Talk Unit := do
  let policy ← policy
  if policy.canInvite = false then lift (.error (Net.failure "owner permission required"))
  else
    let op ← Dialog.call (chosen pf cards id draw policy now)
    if op.state ≠ "issuing" then pure ()
    else
      let _ ← create cards op policy.ttl
      pure ()

def saveRecord (now : Int) (record : InvitationRecord) : Prog Desk CliError Unit := do
  let op := (← Prog.read (·.outgoing record.id)).getD (blank now record.id)
  let op ← Prog.ofExcept (Net.applyRecord now op record)
  onProfile (save op)

/-- The pages of the relay's list, from a cursor on. -/
def pages (cursor : UInt64) : Talk Unit := do
  let answer ← request (.inviteList cursor 50)
  match answer.reply with
  | .error e => lift (.error e)
  | .ok (.invitations records next) =>
      Dialog.call (Prog.forEach records (saveRecord answer.now))
      if records.length < 50 then pure ()
      else if h : next ≤ cursor then lift (.error (Net.failure "invalid page"))
      else pages next
  | .ok _ => lift (.error invalidReply)
termination_by 2 ^ 64 - cursor.toNat
decreasing_by
  have := UInt64.lt_iff_toNat_lt.1 (UInt64.not_le.1 h)
  have := next.toNat_lt
  omega

/-- `list(refresh: true)` -/
def list (now : Int) : Talk Unit := do
  let _ ← policy
  pages 0
  Dialog.call (onProfile (Prog.modify (invitationCleanup now)))

/-- A lost create reply is not proof that the relay did nothing: the same request is
resolved first. `true` when the relay can no longer know the invitation. -/
def resolveCreate (op : InvitationOperation) : Talk Bool := do
  match (← request (.inviteGet op.id)).reply with
  | .error (.relay 410 _) =>
      match (← request (.inviteCreate op.requestKey op.id (7 * 24 * 3600))).reply with
      | .error (.relay 410 _) => pure true
      | .error e => lift (.error e)
      | .ok _ => pure false
  | .error e => lift (.error e)
  | .ok _ => pure false

def resolve (op : InvitationOperation) : Talk Bool := if op.requestKey = [] then pure false else resolveCreate op

/-- An invitation that was used cannot be revoked; the relay says what became of it. -/
def orGet (id : Bytes) (answer : Answer) : Talk Answer :=
  match answer.reply with
  | .error (.relay 409 _) => request (.inviteGet id)
  | _ => pure answer

/-- The relay's word on an invitation to be revoked. -/
def revoked (id : Bytes) : Talk (Int × InvitationRecord) := do
  let answer ← request (.inviteRevoke id)
  let answer ← orGet id answer
  match answer.reply with
  | .ok (.invitation record) => pure (answer.now, record)
  | .error e => lift (.error e)
  | .ok _ => lift (.error invalidReply)

def withdrawn (op : InvitationOperation) : InvitationOperation := { op with link := "", secret := [] }

def finishRevoke (op : InvitationOperation) : Talk Unit := do
  let (now, record) ← revoked op.id
  let op ← lift (Net.applyRecord now op record)
  Dialog.call (onProfile (save (if op.state = "revoked" then withdrawn op else op)))

def intend (id : Bytes) : Prog Desk CliError InvitationOperation := do
  let op ← Prog.ofOption (Net.failure "unknown invitation") (← Prog.read (·.outgoing id))
  Prog.when (op.groupId ≠ []) (Prog.fail (Net.failure "already used"))
  let op := { op with state := "revoke-pending" }
  onProfile (save op)
  pure op

def revoke (id : Bytes) : Talk Unit := do
  let op ← Dialog.call (intend id)
  let gone ← resolve op
  if gone then Dialog.call (onProfile (save (withdrawn { op with state := "revoked" })))
  else finishRevoke op

def bindingRequest (groupId : Bytes) (payload : Payload) : Talk Answer := Dialog.question ⟨payload, some groupId⟩

def servedCredential (groupId : Bytes) (r : Route) : Talk Bytes := do
  match (← bindingRequest groupId (.credentialGet r.identityId r.credentialHash)).reply with
  | .ok (.credentialFound c) => pure c
  | .error (.relay 400 "unsupported frame") =>
      lift (.error (.domain "route: this server is too old to check routes; update the relay first"))
  | .error e => lift (.error e)
  | .ok _ => lift (.error (.protocol "unexpected reply"))

/-- The credential the relay serves for a route of the conversation, checked with the
newest manifest it serves under the route's own root. -/
def verifiedRouteCredential (groupId : Bytes) (r : Route) : Talk (Int × DeviceCredential) := do
  let credential ← servedCredential groupId r
  if credential = [] then
    lift (.error (.domain "route: the server holds no credential for this device; ask for a new route"))
  else
    let answer ← bindingRequest groupId (.manifestGet r.identityId)
    match answer.reply with
    | .error e => lift (.error e)
    | .ok (.manifestLatest []) => lift (.error (.domain "route: the server holds no device list for this person"))
    | .ok (.manifestLatest manifest) =>
        let root ← lift (r.root pf.crypto)
        let c ← lift (match Identity.verifyClaimedDevice pf.crypto ⟨root, r.deviceId, r.credentialHash, r.hpkePublic⟩
            credential manifest (Net.asU64 answer.now) with
          | .ok c => .ok c
          | .error e => .error (.domain ("route: " ++ e.message ++ "; nothing was sent")))
        pure (answer.now, c)
    | .ok _ => lift (.error (.protocol "unexpected reply"))

/-- The outcome of a check that a domain error only skips. -/
def skipDomain {α : Type} (p : Talk α) : Talk (Option α) := do
  match (← Dialog.attempt p) with
  | .ok a => pure (some a)
  | .error (.domain _) => pure none
  | .error e => lift (.error e)

/-- Accept the claimant, with the route that bound. -/
def connect (h : InvitationHello) (op : InvitationOperation) (receipt : InvitationRecord) (now : Int)
    (device text : Bytes) : Prog Desk CliError Unit := do
  let op ← Prog.ofExcept (Net.applyRecord now op receipt)
  let before ← Prog.read Desk.store
  onProfile (storage "invitation contact" (Net.connectInvitation h
    { op with state := "connected", groupId := h.groupId, link := "" } device text))
  log fun d => { d with connected := ⟨h.groupId, receipt, before⟩ :: d.connected }

def settlePeers (group : Bytes) (h : InvitationHello) (op : InvitationOperation) (receipt : InvitationRecord) :
    List Peer → Talk Unit
  | [] => pure ()
  | peer :: rest =>
      match routeOfPeer peer with
      | none => settlePeers group h op receipt rest
      | some text => do
          let parsed ← lift (Route.parse pf.crypto text)
          match (← skipDomain (verifiedRouteCredential pf h.groupId parsed)) with
          | none => settlePeers group h op receipt rest
          | some (now, credential) =>
              if Net.someLeafBinds (pf.mlsRoster group) parsed.deviceId credential.mlsSignaturePublicKey then
                Dialog.call (connect h op receipt now parsed.deviceId text)
              else settlePeers group h op receipt rest

def forget (h : InvitationHello) : Talk Unit := Dialog.call (onProfile (Prog.modify (invitationHelloRemove h.groupId)))

/-- What the relay's receipt makes of a hello. -/
def settleClaim (h : InvitationHello) (op : InvitationOperation) (receipt : InvitationRecord) : Talk Unit := do
  if receipt.id ≠ op.id ∨ receipt.state ≠ "used" ∨ receipt.claimedIdentity ≠ h.sender ∨
      receipt.expiresAt < receipt.claimedAt then pure ()
  else
    let declined ← Dialog.call (Prog.read fun d => Receive.declined d.store h.groupId)
    if declined then forget h
    else
      match (← Dialog.call (Prog.read fun d => (conversations d.store).find? fun c => c.groupId = h.groupId)) with
      | none => pure ()
      | some conv =>
          let group ← Dialog.call (onProfile (pf.loadGroup h.groupId))
          settlePeers pf group h op receipt (conv.peers.filter fun p => p.identity = h.sender)

/-- One hello that carried an invitation secret of this device. -/
def settleHello (h : InvitationHello) : Talk Unit := do
  match (← Dialog.call (Prog.read (·.outgoing h.invitationId))) with
  | none => pure ()
  | some op =>
      if op.state = "revoked" ∨ op.state = "revoke-pending" ∨ (op.groupId ≠ [] ∧ op.groupId ≠ h.groupId) then pure ()
      else
        match (← request (.inviteGet op.id)).reply with
        -- a receipt beyond retention proves no consent
        | .error (.relay 410 _) => forget h
        | .error e => lift (.error e)
        | .ok (.invitation receipt) => settleClaim pf h op receipt
        | .ok _ => pure ()

def settleHellos : List InvitationHello → Talk Unit
  | [] => pure ()
  | h :: rest => do
      settleHello pf h
      settleHellos rest

def settle : Talk Unit := do
  let hellos ← Dialog.call (Prog.read fun d => d.store.invitationHellos.rows)
  settleHellos pf hellos

inductive Command where
  | settle
  | issue (id : Option Bytes) (draw : Draw) (now : Int)
  | list (now : Int)
  | revoke (id : Bytes)

def talk : Command → Talk Unit
  | .settle => settle pf
  | .issue id draw now => issue pf cards id draw now
  | .list now => list now
  | .revoke id => revoke id

inductive Event where
  | act (a : Act)
  /-- `list(refresh: false)`, which takes no lock -/
  | cleanup (now : Int)
  | start (c : Command)
  | answer (a : Answer)
  | stop

/-- A client and the command that holds the lock of the sync. -/
structure Round where
  desk : Desk
  job : Option (Talk Unit)

/-- The conversation whose sender is being bound. -/
def Round.binding (r : Round) : Option Bytes := (r.job.bind Dialog.asks).bind (·.binding)

def proceed (t : Talk Unit) (d : Desk) : Round :=
  match Dialog.go t d with
  | (.ask q k, d) => ⟨d, some (.ask q k)⟩
  | (_, d) => ⟨d, none⟩

def locked : Act → Bool
  | .receive .. | .refresh .. | .settleInPerson .. | .acknowledge .. | .setCursor .. | .prepare .. | .deviceRevoke .. =>
      true
  | _ => false

/-- The acts that are commands here: they write outgoing invitations. -/
def invites : Act → Bool
  | .settle .. => true
  | .invitationOperationSave o => o.direction = .outgoing
  | _ => false

variable (s : Session)

/-- The hello an envelope brings. -/
def hellosOf (st : Store) : Act → List Heard
  | .receive _ mailbox item =>
      ((Receive.heard pf s st mailbox item).toList.filter fun e => Receive.appKind e.2.2.2.kind = .hello).filterMap
        fun (gid, group, leaf, ev) => (pf.decodeHello ev.body).toOption.map fun hello =>
          ⟨gid, pf.memberAtIndex group leaf,
            ((pf.memberAtIndex group leaf).bind (·.deviceId)).bind fun device => deviceIdentity st gid device, hello⟩
  | _ => []

def act (a : Act) (d : Desk) : Desk :=
  { d with world := Act.step pf s d.world a, heard := hellosOf pf s d.store a ++ d.heard }

def step (r : Round) : Event → Round
  | .act a => if invites a ∨ (locked a ∧ r.job.isSome) then r else { r with desk := act pf s a r.desk }
  | .cleanup now => { r with desk := r.desk.setStore (invitationCleanup now r.desk.store) }
  | .start c => if r.job.isSome then r else proceed (talk pf cards c) r.desk
  | .answer a => match r.job with
      | some t => proceed (t.reply a) r.desk
      | none => r
  | .stop => { r with job := none }

end commands

end Arveil.Settling

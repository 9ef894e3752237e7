import Arveil.Spec.Store

/-! The outbox, the inbox, the mailbox cursor and the local events
(`delivery.rs`). -/

namespace Arveil.Delivery

/-- The row id SQLite gives a new row. -/
def nextId (rows : List OutboxRow) : Nat := (rows.map (·.id)).foldl max 0 + 1

theorem lt_nextId {rows : List OutboxRow} {r : OutboxRow} (h : r ∈ rows) : r.id < nextId rows := by
  have hle : ∀ (ids : List Nat) (m : Nat), m ≤ ids.foldl max m ∧ ∀ i ∈ ids, i ≤ ids.foldl max m := by
    intro ids
    induction ids with
    | nil => simp
    | cons a ids ih =>
      intro m
      obtain ⟨h1, h2⟩ := ih (max m a)
      refine ⟨by simp only [List.foldl_cons]; omega, ?_⟩
      intro i hi
      rcases List.mem_cons.1 hi with rfl | hi
      · simp only [List.foldl_cons]; omega
      · exact h2 i hi
  have := (hle (rows.map (·.id)) 0).2 r.id (List.mem_map_of_mem h)
  unfold nextId
  omega

def enqueue (mailboxId deliveryId : Bytes) (eventId : Option Bytes) (hpkeEnc ciphertext : Bytes) : Sql Unit :=
  Prog.tryModify fun s =>
    if s.outbox.rows.any (fun r => r.mailboxId = mailboxId && r.deliveryId = deliveryId) then
      .error (.constraint "outbox.mailbox_id, outbox.delivery_id")
    else
      match s.outbox.insert ⟨nextId s.outbox.rows, mailboxId, deliveryId, eventId, hpkeEnc, ciphertext, .sealed, 0,
          none⟩ with
      | some t => .ok { s with outbox := t }
      | none => .error (.constraint "outbox.id")

def pending (s : Store) : List OutboxRow :=
  (s.outbox.rows.filter fun r => r.state = .sealed).insertionSort fun a b => a.id ≤ b.id

def updateOutbox (id : Nat) (f : OutboxRow → OutboxRow) (hf : ∀ r, (f r).id = r.id) (s : Store) : Store :=
  { s with outbox := s.outbox.update (fun r => r.id = id) f hf }

def markAttempt (id : Nat) : Store → Store :=
  updateOutbox id (fun r => { r with attempts := r.attempts + 1 }) fun _ => rfl

/-- The relay refused this envelope for good. -/
def markUndeliverable (id : Nat) : Store → Store :=
  updateOutbox id (fun r => { r with state := .undeliverable }) fun _ => rfl

def markAccepted (id : Nat) (expiresAt : Option Int) : Store → Store :=
  updateOutbox id (fun r => { r with state := .accepted, expiresAt := expiresAt.or r.expiresAt }) fun _ => rfl

/-- Record an incoming delivery; `false` if it was already recorded. -/
def recordIncoming (mailboxId deliveryId : Bytes) (seq : Int64) : Sql Bool := fun s =>
  match s.inbox.insert ⟨mailboxId, deliveryId, seq, false⟩ with
  | some t => (.ok true, { s with inbox := t })
  | none => (.ok false, s)

/-- Deliveries recorded but not yet acknowledged to the relay. -/
def unacked (s : Store) (mailboxId : Bytes) : List Bytes :=
  ((s.inbox.rows.filter fun r => r.mailboxId = mailboxId && !r.acked).insertionSort
    fun a b => a.seq ≤ b.seq).map (·.deliveryId)

def markAcked (mailboxId : Bytes) (deliveryIds : List Bytes) (s : Store) : Store :=
  deliveryIds.foldl (fun s d =>
    { s with
      inbox := s.inbox.update (fun r => r.mailboxId = mailboxId && r.deliveryId = d)
        ({ · with acked := true }) fun _ => rfl }) s

def cursor (s : Store) (mailboxId : Bytes) : Int64 := (s.mailboxCursor.get? mailboxId).elim 0 (·.cursor)

/-- The cursor only moves forward. -/
def setCursor (mailboxId : Bytes) (c : Int64) (s : Store) : Store :=
  { s with
    mailboxCursor := s.mailboxCursor.upsert (fun r n => { r with cursor := max r.cursor n.cursor })
      (fun _ _ => rfl) ⟨mailboxId, c⟩ }

/-- The device that wrote an event, as MLS authenticated it, and the identity
this profile knows for it. A notice has no device. -/
structure EventSender where
  deviceId : Option Bytes
  identityId : Option Bytes
deriving DecidableEq, Repr

/-- Record a local event together with who wrote it. -/
def recordEventBy (groupId eventId : Bytes) (kind : EventKind) (body : Bytes) (sender : Option EventSender) :
    Sql Unit :=
  sqlInsert "events.event_id" (·.events) ({ · with events := · })
    ⟨groupId, eventId, kind, body, sender.bind (·.deviceId), sender.bind (·.identityId)⟩

def bigEndian (k n : Nat) : Bytes := ((List.range k).map fun i => UInt8.ofNat (n / 256 ^ i)).reverse

/-- One notice per conversation for each manifest sequence of an identity. -/
def noticeEventId (cx : Crypto) (identity : Bytes) (sequence : UInt64) (group : Bytes) : Bytes :=
  (cx.sha256 (utf8 "arveil/devices-changed/v1" ++ bigEndian 4 (identity.length % 2 ^ 32) ++ identity ++
    bigEndian 8 sequence.toNat ++ group)).take 16

end Arveil.Delivery

import Arveil.Spec.Relay

/-! Opening a relay database of schema 5 (`initDelivery` in `relay/internal/store/delivery.go`):
one queue numbered for the whole realm becomes a queue numbered by each mailbox. Row ids and
the order of rows are random and order nothing; they are left out. -/

namespace Arveil.RelayMigration

open RelayQueue (QueuedEnvelope)

structure LegacyEnvelope where
  seq : Nat
  mailboxId : Bytes
  deliveryId : Bytes
  bodyHash : Bytes
  hpkeEnc : Bytes
  ciphertext : Bytes
  expiresAt : Int64
deriving DecidableEq, Repr

/-- The old table, with the number SQLite keeps for its AUTOINCREMENT. Numbers are 64-bit integers. -/
structure Legacy where
  envelopes : Table LegacyEnvelope.seq
  unique : (envelopes.rows.map fun e => (e.mailboxId, e.deliveryId)).Nodup
  sequence : Option Nat
  bounded : (∀ e ∈ envelopes, e.seq < 2 ^ 63) ∧ ∀ n ∈ sequence, n < 2 ^ 63

structure MailboxRow where
  mailboxId : Bytes
  nextSeq : Int
deriving DecidableEq, Repr

/-- The table of mailboxes, without the counter as in schema 5 or with it. -/
inductive Mailboxes where
  | absent
  | plain (rows : Table fun id : Bytes => id)
  | counted (rows : Table MailboxRow.mailboxId)

structure Database where
  mailboxes : Mailboxes
  queued : Option (Table fun e : QueuedEnvelope => (e.mailboxId, e.deliveryId))
  legacy : Option Legacy

/-- `ALTER TABLE mailboxes ADD COLUMN next_seq INTEGER NOT NULL DEFAULT 1` -/
def addColumn (t : Table fun id : Bytes => id) : Table MailboxRow.mailboxId where
  rows := t.rows.map fun id => ⟨id, 1⟩
  nodup := by
    have hsame : (t.rows.map fun id => (⟨id, 1⟩ : MailboxRow)).map MailboxRow.mailboxId = t.rows.map fun id => id := by
      rw [List.map_map]
      rfl
    rw [hsame]
    exact t.nodup

def addNextSeq (db : Database) : Database :=
  match db.mailboxes with
  | .plain t => { db with mailboxes := .counted (addColumn t) }
  | _ => db

/-- `CREATE TABLE IF NOT EXISTS` -/
def deliverySchema (db : Database) : Database :=
  { db with
    mailboxes := match db.mailboxes with
      | .absent => .counted .empty
      | t => t
    queued := some (db.queued.getD .empty) }

/-- The highest number the old table ever handed out. -/
def Legacy.high (l : Legacy) : Nat := max (l.sequence.getD 0) ((l.envelopes.rows.map (·.seq)).foldr max 0)

/-- The `CASE` of the statement: `coarseExpiry` in SQL. -/
def coarseCase (expiresAt now : Int) : Int :=
  if 172800 ≤ expiresAt - now then expiresAt - expiresAt.tmod 86400
  else if 7200 ≤ expiresAt - now then expiresAt - expiresAt.tmod 3600
  else if 120 ≤ expiresAt - now then expiresAt - expiresAt.tmod 60
  else expiresAt

/-- `coarseExpiry` as the relay computes it, in 64-bit integers whose difference wraps around. The
`CASE` compares without wrapping: where an integer difference overflows, SQLite goes on with a real. -/
def coarseExpiry64 (expiry now : Int64) : Int64 :=
  let life := expiry - now
  if 2 * 86400 ≤ life then expiry - expiry % 86400
  else if 2 * 3600 ≤ life then expiry - expiry % 3600
  else if 2 * 60 ≤ life then expiry - expiry % 60
  else expiry

def moved (now : Int64) (e : LegacyEnvelope) : QueuedEnvelope :=
  ⟨e.mailboxId, e.seq, e.deliveryId, e.bodyHash, e.hpkeEnc, e.ciphertext, coarseCase e.expiresAt.toInt now.toInt⟩

/-- `INSERT … SELECT`, refused on a taken number or delivery id. -/
def insertAll (now : Int64) :
    Table (fun e : QueuedEnvelope => (e.mailboxId, e.deliveryId)) → List LegacyEnvelope →
      Option (Table fun e : QueuedEnvelope => (e.mailboxId, e.deliveryId))
  | t, [] => some t
  | t, e :: es =>
    if t.rows.any fun r => r.mailboxId = e.mailboxId && r.seq = e.seq then none
    else (t.insert (moved now e)).bind fun t => insertAll now t es

/-- `high+1`, in the relay's 64-bit arithmetic. -/
def next (high : Nat) : Int := (high + 1 : Int).bmod (2 ^ 64)

/-- One transaction: `none` where a statement fails. -/
def migrateEnvelopeQueue (now : Int64) (db : Database) : Option Database :=
  match db.legacy with
  | none => some db
  | some l =>
    match db.mailboxes, db.queued with
    | .counted t, some q =>
      (insertAll now q l.envelopes.rows).map fun q =>
        { mailboxes := .counted (t.update (fun m => m.nextSeq ≤ l.high) (fun m => { m with nextSeq := next l.high }) fun _ => rfl)
          queued := some q
          legacy := none }
    | _, _ => none

def initDelivery (now : Int64) (db : Database) : Option Database := migrateEnvelopeQueue now (deliverySchema (addNextSeq db))

def schema5 (mailboxes : Table fun id : Bytes => id) (l : Legacy) : Database := ⟨.plain mailboxes, none, some l⟩

/-- The numbers a cursor may hold. -/
def HandedOut (l : Legacy) (n : Nat) : Prop := n ≤ l.sequence.getD 0 ∨ ∃ e ∈ l.envelopes, n = e.seq

/-- What a client could fetch from the old table after its cursor, oldest first. -/
def legacyFetch (mailboxId : Bytes) (cursor : Nat) (now : Int) (expiry : LegacyEnvelope → Int) (l : Legacy) : List LegacyEnvelope :=
  (l.envelopes.rows.filter fun e => e.mailboxId = mailboxId && decide (cursor < e.seq) && decide (now < expiry e)).insertionSort
    fun a b => a.seq ≤ b.seq

end Arveil.RelayMigration

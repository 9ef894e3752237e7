import Mathlib.Data.List.Sort
import Arveil.Spec.Network

/-! The relay's queue of envelopes (`relay/internal/store/delivery.go`) and the frames
that reach it (`relay/internal/server/delivery.go`). Who is a member and which
capabilities hold is decided elsewhere; here it comes with the frame. -/

namespace Arveil.RelayQueue

def maxEnvelopeBytes : Nat := 256 * 1024 + 64
def maxMailboxQueue : Nat := 1000
def defaultEnvelopeTtl : Int := 30 * 24 * 3600

structure MailboxRow where
  mailboxId : Bytes
  nextSeq : Nat
deriving DecidableEq, Repr

theorem MailboxRow.taken_key (r : MailboxRow) : ({ r with nextSeq := r.nextSeq + 1 } : MailboxRow).mailboxId = r.mailboxId := rfl

structure QueuedEnvelope where
  mailboxId : Bytes
  seq : Nat
  deliveryId : Bytes
  bodyHash : Bytes
  hpkeEnc : Bytes
  ciphertext : Bytes
  expiresAt : Int
deriving DecidableEq, Repr

structure Queue where
  mailboxes : Table MailboxRow.mailboxId
  queued : Table fun e : QueuedEnvelope => (e.mailboxId, e.deliveryId)

inductive StoreError where
  | envelopeTooBig
  | mailboxFull
  | deliveryConflict
  | unknownMailbox
  | sqlite
deriving DecidableEq, Repr

structure PutResult where
  effectiveExpiry : Int
  duplicate : Bool
  wasEmpty : Bool
deriving DecidableEq, Repr

/-- An expiry that tells little: whole days, hours or minutes, as its life is long. -/
def coarseExpiry (expiry now : Int) : Int :=
  let life := expiry - now
  if 2 * 86400 ≤ life then expiry - expiry.tmod 86400
  else if 2 * 3600 ≤ life then expiry - expiry.tmod 3600
  else if 2 * 60 ≤ life then expiry - expiry.tmod 60
  else expiry

def boundedExpiry (requested now : Int) : Int :=
  if requested ≤ 0 ∨ now + defaultEnvelopeTtl < requested then now + defaultEnvelopeTtl else requested

/-- Stores an envelope under the mailbox's next number. A retry with the same bytes
changes nothing; other bytes under the same delivery id are a conflict. -/
def putEnvelope (sha256 : Bytes → Bytes) (mailboxId deliveryId hpkeEnc ciphertext : Bytes) (requestedExpiry now : Int) :
    Prog Queue StoreError PutResult := fun q =>
  if maxEnvelopeBytes < ciphertext.length ∨ 64 < hpkeEnc.length ∨ deliveryId.length = 0 ∨ 32 < deliveryId.length then
    (.error .envelopeTooBig, q)
  else
    let expiry := coarseExpiry (boundedExpiry requestedExpiry now) now
    let bodyHash := sha256 (hpkeEnc ++ ciphertext)
    match q.queued.get? (mailboxId, deliveryId) with
    | some e =>
        if e.bodyHash ≠ bodyHash then (.error .deliveryConflict, q) else (.ok ⟨e.expiresAt, true, false⟩, q)
    | none =>
        let queued := (q.queued.rows.filter fun e => e.mailboxId = mailboxId).length
        if maxMailboxQueue ≤ queued then (.error .mailboxFull, q)
        else match q.mailboxes.get? mailboxId with
          | none => (.error .unknownMailbox, q)
          | some m =>
              -- past the largest integer SQLite adds in floating point, and the scan fails
              if 2 ^ 63 - 1 ≤ m.nextSeq then (.error .sqlite, q)
              else match q.queued.insert ⟨mailboxId, m.nextSeq, deliveryId, bodyHash, hpkeEnc, ciphertext, expiry⟩ with
                | none => (.error .sqlite, q)
                | some t =>
                    (.ok ⟨expiry, false, queued = 0⟩,
                      { mailboxes := q.mailboxes.update (fun r => r.mailboxId = mailboxId)
                          (fun r => { r with nextSeq := r.nextSeq + 1 }) MailboxRow.taken_key
                        queued := t })

def fetchEnvelopes (mailboxId : Bytes) (cursor limit : Nat) (now : Int) (q : Queue) : List QueuedEnvelope :=
  let limit := if limit = 0 ∨ 100 < limit then 100 else limit
  ((q.queued.rows.filter fun e => e.mailboxId = mailboxId && decide (cursor < e.seq) && decide (now < e.expiresAt)).insertionSort
    fun a b => a.seq ≤ b.seq).take limit

def ackEnvelopes (mailboxId : Bytes) (deliveryIds : List Bytes) (q : Queue) : Queue :=
  { q with queued := q.queued.delete fun e => e.mailboxId = mailboxId && e.deliveryId ∈ deliveryIds }

def expireEnvelopes (now : Int) (q : Queue) : Queue :=
  { q with queued := q.queued.delete fun e => e.expiresAt ≤ now }

abbrev Frame := Except CliError Reply

def StoreError.putFrame : StoreError → CliError
  | .deliveryConflict => .relay 409 "delivery id reused with a different body"
  | .envelopeTooBig => .relay 413 "envelope too large"
  | .mailboxFull => .relay 429 "mailbox queue full"
  | .unknownMailbox | .sqlite => .relay 500 "store error"

/-- What the relay found of the session and of the capability of a frame. -/
structure Access where
  member : Bool
  capability : Bool
deriving DecidableEq, Repr

def envelopePut (sha256 : Bytes → Bytes) (access : Access) (mailboxId deliveryId : Bytes) (requestedExpiry : UInt64)
    (hpkeEnc ciphertext : Bytes) (now : Int) (q : Queue) : Frame × Queue :=
  if access.member = false then (.error (.relay 401 "not a member session"), q)
  else if access.capability = false then (.error (.relay 403 "write capability rejected"), q)
  else match putEnvelope sha256 mailboxId deliveryId hpkeEnc ciphertext requestedExpiry.toInt64.toInt now q with
    | (.ok r, q) => (.ok (.envelopeAccepted (UInt64.ofInt r.effectiveExpiry)), q)
    | (.error e, q) => (.error e.putFrame, q)

def envelopeItem (e : QueuedEnvelope) : EnvelopeItem := ⟨UInt64.ofNat e.seq, e.deliveryId, e.hpkeEnc, e.ciphertext⟩

end Arveil.RelayQueue

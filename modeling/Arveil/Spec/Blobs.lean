import Arveil.Spec.RelayServer
import Arveil.Lib.Trace

/-! Blobs over whole runs (`store/blobs.go`): what sweeps and restarts do to rows and files,
the upload of one ciphertext whose chunk calls may be cut off between two operations, and
any members' uploads, one call after the other. -/

namespace Arveil.Blobs

open RelayStore RelayServer

def stagingTtl : Int := 24 * 3600

/-- A committed blob that has expired, or an upload that was never committed. -/
def victim (now : Int) (b : BlobRow) : Bool :=
  (b.state = .committed && decide (b.expiresAt ≤ now)) || (b.state = .staging && decide (b.createdAt ≤ now - stagingTtl))

/-- Rows go with the file their state says they have. -/
def sweep (now : Int) (db : Db) : Db :=
  { db with
    blobs := db.blobs.delete (victim now)
    staging := db.staging.delete fun f => (db.blobs.get? f.blobId).any fun b => b.state = .staging && victim now b
    files := db.files.delete fun f => (db.blobs.get? f.blobId).any fun b => b.state = .committed && victim now b }

/-- Removes files that have no matching row. A file that was renamed before its row was
updated goes with the row. -/
def reconcile (db : Db) : Db :=
  let blobs := db.blobs.delete fun b => b.state ≠ .committed && (db.files.get? b.blobId).isSome
  { db with
    blobs := blobs
    files := db.files.delete fun f => (db.blobs.get? f.blobId).all fun b => b.state ≠ .committed
    staging := db.staging.delete fun f => (blobs.get? f.blobId).isNone }

section uploads

variable (cx : Crypto)

structure Upload where
  remoteStatic : Bytes
  device : RelayStore.Device
  blobId : Bytes
  readCap : Bytes
  ciphertext : Bytes

def Upload.session (u : Upload) : RelayServer.Session := ⟨u.remoteStatic, some u.device, none⟩

def Upload.slice (u : Upload) (offset n : Nat) : Bytes := (u.ciphertext.drop offset).take n

/-- A chunk call that is cut off after some of its operations on the store, or the relay
starts again. -/
inductive Event where
  | chunk (offset n cut : Nat)
  | restart
deriving DecidableEq, Repr

def Upload.step (u : Upload) (db : Db) : Event → Db
  | .chunk offset n cut => (Handler.steps cut (blobChunk cx u.session u.blobId offset (u.slice offset n)) db).2
  | .restart => reconcile db

/-- Ask how much the relay holds, and send what comes next. -/
def Upload.resume (u : Upload) (n : Nat) (db : Db) : Db :=
  match (blobResume cx u.session u.blobId).finish db with
  | (⟨.blobOffset offset, _⟩, db) => ((blobChunk cx u.session u.blobId offset (u.slice offset n)).finish db).2
  | (_, db) => db

def Upload.resumes (u : Upload) (n : Nat) : Nat → Db → Db
  | 0, db => db
  | rounds + 1, db => Upload.resumes u n rounds (u.resume cx n db)

inductive Act where
  | begin (s : RelayServer.Session) (size : Nat) (id readCap : Bytes) (now : Int)
  | chunk (s : RelayServer.Session) (id : Bytes) (offset : Nat) (data : Bytes)
  | commit (s : RelayServer.Session) (id hash : Bytes) (requestedExpiry : UInt64) (now : Int)
  | sweep (now : Int)

def act (db : Db) : Act → Db
  | .begin s size id readCap now => ((blobUploadBegin cx s size id readCap now).finish db).2
  | .chunk s id offset data => ((blobChunk cx s id offset data).finish db).2
  | .commit s id hash requestedExpiry now => ((blobCommit cx s id hash requestedExpiry now).finish db).2
  | .sweep now => sweep now db

end uploads

def committedBytes (identity : Bytes) (db : Db) : Nat :=
  ((db.blobs.rows.filter fun b => b.ownerIdentity = identity && b.state = .committed).map (·.storedSize)).sum

end Arveil.Blobs

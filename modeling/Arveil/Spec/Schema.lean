import Arveil.Spec.Base

/-! The versioned schema of the profile database (`arveil-core/src/schema.rs`) and two
connections that bring it up to date, each statement that reads or takes the lock a step of its
own. `ρ` is what the tables hold. -/

namespace Arveil.Schema

inductive StorageError where
  | sqlite
  | schemaTooNew (found supported : Nat)
  | unsupportedSchema (table detail : String)
deriving DecidableEq, Repr

structure Database (ρ : Type) where
  userVersion : Int
  rows : ρ
deriving DecidableEq, Repr

/-- One step from `version - 1` to `version`. -/
structure Migration (ρ : Type) where
  version : Nat
  apply : ρ → Except StorageError ρ

variable {ρ : Type}

def schemaVersion (db : Database ρ) : Except StorageError Nat :=
  if db.userVersion < 0 then
    .error (.unsupportedSchema "user_version" ("negative schema version " ++ toString db.userVersion))
  else .ok db.userVersion.toNat

/-- What `PRAGMA user_version = v` records: SQLite reads a 32-bit integer, and zero where it does not fit. -/
def pragmaUserVersion (v : Nat) : Int := if v < 2 ^ 31 then v else 0

def supported (migrations : List (Migration ρ)) : Nat := migrations.getLast?.elim 0 (·.version)

/-- The body of one step, under the write lock; the version it applied, if it did. -/
def body (m : Migration ρ) (db : Database ρ) : Except StorageError (Option Nat × Database ρ) := do
  let current ← schemaVersion db
  if m.version ≤ current then return (none, db)
  let rows ← m.apply db.rows
  return (some m.version, ⟨pragmaUserVersion m.version, rows⟩)

/-- Where a run of `migrate_with` stands. -/
inductive Run (ρ : Type) where
  | idle
  /-- the steps that the version it read leaves to do -/
  | pending (todo : List (Migration ρ))
  | begun (m : Migration ρ) (todo : List (Migration ρ))
  /-- before `COMMIT`, with what it wrote -/
  | ready (applied : Option Nat) (db : Database ρ) (todo : List (Migration ρ))
  | done (result : Except StorageError Unit)

def Run.locked : Run ρ → Bool
  | .begun .. | .ready .. => true
  | _ => false

/-- Between the reading of the version and the return. -/
def Run.underway : Run ρ → Bool
  | .pending _ | .begun .. | .ready .. => true
  | _ => false

inductive Side where
  | newer
  | older
deriving DecidableEq, Repr

def Side.other : Side → Side
  | .newer => .older
  | .older => .newer

structure World (ρ : Type) where
  db : Database ρ
  runs : Side → Run ρ
  log : List Nat

def World.set (w : World ρ) (side : Side) (r : Run ρ) : World ρ := { w with runs := fun s => if s = side then r else w.runs s }

structure Event where
  side : Side
  fails : Bool
deriving DecidableEq, Repr

/-- A statement of `migrate_with`. A failure inside a transaction rolls it back; after a failed
`COMMIT` the connection is closed, which discards what it wrote. -/
def step (lists : Side → List (Migration ρ)) (w : World ρ) (e : Event) : World ρ :=
  match w.runs e.side with
  | .idle =>
    if e.fails then w.set e.side (.done (.error .sqlite))
    else match schemaVersion w.db with
      | .error err => w.set e.side (.done (.error err))
      | .ok found =>
        if supported (lists e.side) < found then w.set e.side (.done (.error (.schemaTooNew found (supported (lists e.side)))))
        else w.set e.side (.pending ((lists e.side).filter fun m => decide (found < m.version)))
  | .pending [] => w.set e.side (.done (.ok ()))
  | .pending (m :: todo) =>
    if e.fails then w.set e.side (.done (.error .sqlite))
    -- `BEGIN IMMEDIATE` waits for the other's lock
    else if (w.runs e.side.other).locked then w
    else w.set e.side (.begun m todo)
  | .begun m todo =>
    if e.fails then w.set e.side (.done (.error .sqlite))
    else match body m w.db with
      | .error err => w.set e.side (.done (.error err))
      | .ok (applied, db) => w.set e.side (.ready applied db todo)
  | .ready applied db todo =>
    if e.fails then w.set e.side (.done (.error .sqlite))
    else { w.set e.side (.pending todo) with db := db, log := w.log ++ applied.toList }
  | .done _ => w

def start (db : Database ρ) : World ρ := ⟨db, fun _ => .idle, []⟩

/-- A build's list and that of the same or an older build. -/
def builds (migrations : List (Migration ρ)) (n : Nat) : Side → List (Migration ρ)
  | .newer => migrations
  | .older => migrations.take n

end Arveil.Schema

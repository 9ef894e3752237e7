import Arveil.Lib.Trace

/-! The client's one SQLite connection (`arveil-core/src/storage.rs`): statements, transactions
and the unit of work that every durable step is made of. `δ` is what the database holds. -/

namespace Arveil.Storage

/-- Outside a transaction every statement commits by itself. -/
structure Connection (δ : Type) where
  committed : δ
  transaction : Option δ
deriving DecidableEq, Repr

inductive SqliteError where
  | nested
  | busy
  | notOpen
  | failed
deriving DecidableEq, Repr

/-- A `COMMIT` succeeds, fails and leaves the transaction open, or fails and ends it. -/
inductive CommitOutcome where
  | succeeds
  | leavesOpen
  | rollsBack
deriving DecidableEq, Repr

/-- What the database does at the two ends of a transaction. -/
structure Weather where
  busy : Bool
  commit : CommitOutcome
deriving DecidableEq, Repr

inductive Exit (ε α : Type) where
  | ok (a : α)
  | err (e : ε)
  | panicked
deriving DecidableEq, Repr

section

variable {δ ε α : Type}

namespace Connection

def view (c : Connection δ) : δ := c.transaction.getD c.committed

def write (c : Connection δ) (d : δ) : Connection δ :=
  match c.transaction with
  | some _ => { c with transaction := some d }
  | none => { c with committed := d }

/-- Statements that neither begin nor end a transaction. -/
def execute {β : Type} (f : δ → β × δ) (c : Connection δ) : β × Connection δ := ((f c.view).1, c.write (f c.view).2)

def beginImmediate (busy : Bool) (c : Connection δ) : Except SqliteError (Connection δ) :=
  if c.transaction.isSome then .error .nested
  else if busy then .error .busy
  else .ok { c with transaction := some c.committed }

def commit (outcome : CommitOutcome) (c : Connection δ) : Except SqliteError Unit × Connection δ :=
  match c.transaction with
  | none => (.error .notOpen, c)
  | some d =>
    match outcome with
    | .succeeds => (.ok (), ⟨d, none⟩)
    | .leavesOpen => (.error .busy, c)
    | .rollsBack => (.error .failed, ⟨c.committed, none⟩)

/-- Succeeds where a transaction is open, and is ignored where none is. -/
def rollback (c : Connection δ) : Connection δ := { c with transaction := none }

end Connection

open Connection

/-- Run `f` inside one transaction. Its guard rolls back when it is dropped; it is forgotten
before the `COMMIT` and after a rollback. -/
def unitOfWork (fromSqlite : SqliteError → ε) (f : δ → Exit ε α × δ) (w : Weather) (c : Connection δ) : Exit ε α × Connection δ :=
  match c.beginImmediate w.busy with
  | .error e => (.err (fromSqlite e), c)
  | .ok c =>
    match c.execute f with
    | (.ok value, c) =>
      match c.commit w.commit with
      | (.ok (), c) => (.ok value, c)
      | (.error e, c) => (.err (fromSqlite e), c)
    | (.err e, c) => (.err e, c.rollback)
    | (.panicked, c) => (.panicked, c.rollback)

inductive Step (δ ε α : Type) where
  | unitOfWork (f : δ → Exit ε α × δ) (w : Weather)
  | statement (f : δ → δ)

def step (fromSqlite : SqliteError → ε) (c : Connection δ) : Step δ ε α → Connection δ
  | .unitOfWork f w => (unitOfWork fromSqlite f w c).2
  | .statement f => (c.execute fun d => ((), f d)).2

end

end Arveil.Storage

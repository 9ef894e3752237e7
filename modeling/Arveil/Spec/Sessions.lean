import Mathlib.Logic.Function.Basic

/-! The sessions of one profile directory in one process: `Application::open`, `close`
and the drop of handles (`executor_for`, `shutdown`, `mark_closing`, `forget_session`).
Each critical section under the session registry is one step, and so are the fall of the
last handle, each step of a shutdown and the end of a worker. The file lock is shared
inside the process, so a worker that lives never keeps `profile_lock` from succeeding. -/

namespace Arveil.Sessions

/-- `SerialExecutor` and its worker. `handles` is the strong count, `borrowed` how many
calls of `close` are under way; `worker` says that the join handle was not taken, `running`
how many commands were admitted and have not finished. -/
structure Executor where
  handles : Nat
  borrowed : Nat
  sender : Bool
  worker : Bool
  alive : Bool
  running : Nat
deriving DecidableEq, Repr

inductive SessionSlot where
  | opened (executor : Nat)
  | closing
deriving DecidableEq, Repr

inductive Pc where
  | takeSender
  | takeWorker
  | markClosing
  | join
  | forget
  | returned
deriving DecidableEq, Repr

/-- A shutdown of an executor: a call of `close`, or the drop of its last handle. -/
structure Shutdown where
  executor : Nat
  close : Bool
  pc : Pc
deriving DecidableEq, Repr

structure System where
  executors : Nat → Option Executor
  slot : Option SessionSlot
  shutdowns : Nat → Option Shutdown

inductive Action where
  /-- `works` says that files, database and threads do -/
  | openProfile (executor : Nat) (works : Bool)
  | clone (executor : Nat)
  | drop (executor shutdown : Nat)
  | close (executor shutdown : Nat)
  | advance (shutdown : Nat)
  | submit (executor : Nat)
  | finish (executor : Nat)
  | workerEnds (executor : Nat)
deriving DecidableEq, Repr

def onExecutor (s : System) (e : Nat) (f : Executor → Executor) : System :=
  { s with executors := Function.update s.executors e ((s.executors e).map f) }

def setShutdown (s : System) (i : Nat) (sh : Shutdown) : System :=
  { s with shutdowns := Function.update s.shutdowns i (some sh) }

/-- `executor_for` finds a session: one that is closing, or one with handles left. -/
def refuses (s : System) : Bool :=
  match s.slot with
  | some .closing => true
  | some (.opened e) => (s.executors e).any fun x => 0 < x.handles
  | none => false

def returned (s : System) (i : Nat) (sh : Shutdown) : System :=
  onExecutor (setShutdown s i { sh with pc := .returned }) sh.executor
    fun x => if sh.close then { x with borrowed := x.borrowed - 1 } else x

/-- One step of `shutdown`. -/
def advance (s : System) (i : Nat) (sh : Shutdown) (x : Executor) : System :=
  match sh.pc with
  | .takeSender =>
      onExecutor (setShutdown s i { sh with pc := .takeWorker }) sh.executor fun x => { x with sender := false }
  | .takeWorker =>
      if x.worker then
        onExecutor (setShutdown s i { sh with pc := .markClosing }) sh.executor fun x => { x with worker := false }
      -- nothing left to close
      else returned s i sh
  -- whatever slot the directory has
  | .markClosing => { setShutdown s i { sh with pc := .join } with slot := s.slot.map fun _ => .closing }
  | .join => if x.alive then s else setShutdown s i { sh with pc := .forget }
  | .forget => { returned s i sh with slot := none }
  | .returned => s

def step (s : System) : Action → System
  | .openProfile e works =>
      if refuses s || !works || (s.executors e).isSome then s
      else
        { s with
          executors := Function.update s.executors e (some ⟨1, 0, true, true, true, 0⟩)
          slot := some (.opened e) }
  | .clone e => onExecutor s e fun x => if 0 < x.handles then { x with handles := x.handles + 1 } else x
  | .drop e i =>
      match s.executors e with
      | none => s
      | some x =>
          if 1 < x.handles then onExecutor s e fun x => { x with handles := x.handles - 1 }
          else if x.handles = 1 ∧ x.borrowed = 0 ∧ s.shutdowns i = none then
            onExecutor (setShutdown s i ⟨e, false, .takeSender⟩) e fun x => { x with handles := 0 }
          else s
  | .close e i =>
      match s.executors e with
      | none => s
      | some x =>
          if 0 < x.handles ∧ s.shutdowns i = none then
            onExecutor (setShutdown s i ⟨e, true, .takeSender⟩) e fun x => { x with borrowed := x.borrowed + 1 }
          else s
  | .advance i =>
      match s.shutdowns i with
      | none => s
      | some sh =>
          match s.executors sh.executor with
          | none => s
          | some x => advance s i sh x
  | .submit e =>
      onExecutor s e fun x => if 0 < x.handles ∧ x.sender = true then { x with running := x.running + 1 } else x
  | .finish e => onExecutor s e fun x => { x with running := x.running - 1 }
  -- admission has stopped, and everything admitted is done
  | .workerEnds e =>
      onExecutor s e fun x => if x.sender = false ∧ x.running = 0 then { x with alive := false } else x

def start : System := ⟨fun _ => none, none, fun _ => none⟩

end Arveil.Sessions

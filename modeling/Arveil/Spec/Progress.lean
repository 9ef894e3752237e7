import Arveil.Lib.Trace
import Mathlib.Algebra.Order.Ring.Nat
import Mathlib.Data.List.Basic

/-! The progress streams of a profile (`Subscribers`, `Subscription`, `Application::watch` and
`close` in `arveil-app/src/lib.rs`). A publication sends to one subscriber after the other; what
a subscriber does meanwhile matters only between the two sends that are for itself. -/

namespace Arveil.Progress

inductive ProgressKind (κ : Type) where
  | change (k : κ)
  | gap (dropped : Nat)
deriving DecidableEq, Repr

structure ProgressEvent (ω κ : Type) where
  sequence : Nat
  operation : ω
  kind : ProgressKind κ
deriving DecidableEq, Repr

def watchCapacity : Nat := 256

/-- A subscription and the registry's side of it. -/
structure Watcher (ω κ : Type) where
  buffer : List (ProgressEvent ω κ)
  dropped : Nat
  subscribed : Bool
  registered : Bool
  /-- the registry's sequence when it subscribed, and what it has received since -/
  first : Nat
  received : List (ProgressEvent ω κ)

inductive Sent where
  | ok
  | full
  | disconnected
deriving DecidableEq, Repr

section

variable {ω χ κ : Type}

def Watcher.trySend (e : ProgressEvent ω κ) (s : Watcher ω κ) : Sent × Watcher ω κ :=
  if !s.subscribed then (.disconnected, s)
  else if watchCapacity ≤ s.buffer.length then (.full, s)
  else (.ok, { s with buffer := s.buffer ++ [e] })

inductive Own where
  | receive
  | unsubscribe
deriving DecidableEq, Repr

def Watcher.own (s : Watcher ω κ) : Own → Watcher ω κ
  | .receive =>
    if s.subscribed then
      match s.buffer with
      | e :: rest => { s with buffer := rest, received := s.received ++ [e] }
      | [] => s
    else s
  | .unsubscribe => { s with subscribed := false, buffer := [] }

/-- `usize` and `AtomicU64` count up to here. -/
def wrap (n : Nat) : Nat := n % 2 ^ 64

/-- The event itself, after the gap where one was due. -/
def Watcher.sendEvent (e : ProgressEvent ω κ) (s : Watcher ω κ) : Watcher ω κ :=
  match s.trySend e with
  | (.ok, s) => s
  | (.full, s) => { s with dropped := wrap (s.dropped + 1) }
  | (.disconnected, s) => { s with registered := false }

/-- One subscriber's turn in `publish`; `between` is what it does after its gap was sent. -/
def Watcher.publish (sequence : Nat) (operation : ω) (kind : κ) (between : List Own) (s : Watcher ω κ) : Watcher ω κ :=
  if !s.registered then s
  else if 0 < s.dropped then
    match s.trySend ⟨sequence, operation, .gap s.dropped⟩ with
    | (.ok, s) => (between.foldl Watcher.own { s with dropped := 0 }).sendEvent ⟨sequence, operation, .change kind⟩
    | (.full, s) => { s with dropped := wrap (s.dropped + 1) }
    | (.disconnected, s) => { s with registered := false }
  else s.sendEvent ⟨sequence, operation, .change kind⟩

/-- The profile: its registry, the handles of its application and whether `close` has returned. -/
structure World (ω κ : Type) where
  watchers : List (Watcher ω κ)
  sequence : Nat
  handles : Nat
  closed : Bool
  /-- what was published while somebody was registered -/
  published : List (ω × κ)

inductive Event (ω χ : Type) where
  | publish (operation : ω) (change : χ) (between : Nat → List Own)
  | watch
  | own (i : Nat) (o : Own)
  /-- a wait that takes an event, or tells that there is none -/
  | wait (i : Nat)
  | clone
  | close
  /-- a handle is dropped; the last one closes the profile and drops the registry -/
  | dropHandle

inductive Waited (ω κ : Type) where
  | event (e : ProgressEvent ω κ)
  | idle
  | closed
deriving DecidableEq, Repr

/-- What a wait finds when it has waited long enough. -/
def Watcher.waited (s : Watcher ω κ) : Waited ω κ :=
  match s.buffer with
  | e :: _ => .event e
  | [] => if s.registered then .idle else .closed

def World.publish (w : World ω κ) (operation : ω) (kind : κ) (between : Nat → List Own) : World ω κ :=
  if w.watchers.any (·.registered) then
    { w with
      watchers := w.watchers.mapIdx fun i s => s.publish w.sequence operation kind (between i)
      sequence := wrap (w.sequence + 1)
      published := w.published ++ [(operation, kind)] }
  else w

def step (project : χ → Option κ) (w : World ω κ) : Event ω χ → World ω κ
  | .publish operation change between =>
    -- the worker has ended when `close` returns
    if w.closed then w
    else match project change with
      | some kind => w.publish operation kind between
      | none => w
  | .watch => if w.handles = 0 then w else { w with watchers := w.watchers ++ [⟨[], 0, true, true, w.sequence, []⟩] }
  | .own i o => { w with watchers := w.watchers.modify i (·.own o) }
  | .wait i => { w with watchers := w.watchers.modify i (·.own .receive) }
  | .clone => if w.handles = 0 then w else { w with handles := w.handles + 1 }
  | .close => if w.handles = 0 then w else { w with closed := true }
  | .dropHandle =>
    match w.handles with
    | 0 => w
    | 1 => { w with handles := 0, closed := true, watchers := w.watchers.map fun s => { s with registered := false } }
    | n + 1 => { w with handles := n }

def start : World ω κ := ⟨[], 0, 1, false, []⟩

end

end Arveil.Progress

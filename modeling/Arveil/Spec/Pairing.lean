import Arveil.Spec.Approvals
import Arveil.Lib.Trace

/-! Rendezvous at the relay, statement by statement. A request reads and then writes without
a transaction around the two; whatever other requests and the sweep do lies between its
statements. -/

namespace Arveil.Rendezvous

/-- The seconds of a time in nanoseconds. -/
def unix (t : Int) : Int := t / 10 ^ 9

section requests

variable (sha256 : Bytes → Bytes)

def insertsPair (id capability : Bytes) (now ttl : Int) : Handles (Except PairError (Bytes × Bytes × Int)) := do
  match (← ask (.insertPair ⟨id, sha256 capability, unix (now + ttl)⟩)) with
  | .error e => pure (.error e)
  | .ok () => pure (.ok (id, capability, unix (now + ttl)))

/-- Creates a rendezvous under the id and the capability drawn for it. -/
def beginPair (id capability : Bytes) (now ttl : Int) : Handles (Except PairError (Bytes × Bytes × Int)) := do
  match (← ask (.countOpen (unix now))) with
  | .error e => pure (.error e)
  | .ok count => if maxOpenRendezvous ≤ count then pure (.error .busy) else insertsPair sha256 id capability now ttl

def getPair (id capability : Bytes) (slot : String) (now : Int) : Handles (Except PairError (Option Bytes)) :=
  if validSlot slot = false then pure (.error .slot)
  else do
    match (← ask (.pairExists id (sha256 capability) now)) with
    | .error e => pure (.error e)
    | .ok false => pure (.error .unknown)
    | .ok true => ask (.slotData id slot)

inductive Request where
  | beginPair (id capability : Bytes) (ttl : Int)
  | putPair (id capability : Bytes) (slot : String) (data : Bytes)
  | getPair (id capability : Bytes) (slot : String)
deriving DecidableEq, Repr

inductive Reply where
  | begun (r : Except PairError (Bytes × Bytes × Int))
  | put (r : Except PairError Unit)
  | got (r : Except PairError (Option Bytes))

def Request.handler (now : Int) : Request → Handles Reply
  | .beginPair id capability ttl => Rendezvous.beginPair sha256 id capability now ttl >>= fun r => pure (.begun r)
  | .putPair id capability slot data => Rendezvous.putPair sha256 id capability slot data (unix now) >>= fun r => pure (.put r)
  | .getPair id capability slot => Rendezvous.getPair sha256 id capability slot (unix now) >>= fun r => pure (.got r)

structure Running where
  request : Request
  started : Int
  handler : Handles Reply

structure World where
  pairs : Pairs
  clock : Int
  running : List Running

def World.start (clock : Int) : World := ⟨.empty, clock, []⟩

/-- A request comes in, one makes its next statement, the sweep runs, time passes. -/
inductive Event where
  | call (r : Request)
  | step (i : Nat)
  | sweep
  | tick (d : Nat)
deriving DecidableEq, Repr

def World.step (w : World) : Event → World
  | .call r => { w with running := w.running ++ [⟨r, w.clock, r.handler sha256 w.clock⟩] }
  | .step i =>
      match w.running[i]? with
      | none => w
      | some r =>
          let (h, pairs) := r.handler.step w.pairs
          { w with pairs, running := w.running.set i { r with handler := h } }
  | .sweep => { w with pairs := Rendezvous.sweepPairs (unix w.clock) w.pairs }
  | .tick d => { w with clock := w.clock + d }

def World.reply (w : World) : Event → Option (Running × Reply)
  | .call r =>
      match r.handler sha256 w.clock with
      | .done a => some (⟨r, w.clock, .done a⟩, a)
      | _ => none
  | .step i =>
      match w.running[i]? with
      | none => none
      | some r =>
          match r.handler.next, (r.handler.step w.pairs).1 with
          | some _, .done a => some (r, a)
          | _, _ => none
  | _ => none

end requests

def World.live (w : World) : Nat := (w.pairs.rendezvous.rows.filter fun r => unix w.clock < r.expiresAt).length

end Arveil.Rendezvous

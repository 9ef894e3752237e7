import Arveil.Lib.Trace
import Arveil.Lib.Window
import Mathlib.Algebra.Order.Ring.Nat

/-! What one address can take from the realm (`relay/internal/limits/limits.go`): connection
slots, rendezvous and invitation requests. Times are in nanoseconds. -/

namespace Arveil.Limits

structure Config where
  invitationsPerAddr : Int
  maxTotal : Int
  maxPerAddr : Int
  pairingsPerAddr : Int
  pairingWindow : Int
deriving DecidableEq, Repr

def minute : Int := 60 * 10 ^ 9

/-- Default values sized for a family realm behind a home connection. -/
def default : Config := ⟨120, 256, 8, 4, 10 * minute⟩

abbrev GoMap (ν : Type) := String → Option ν

def GoMap.set {ν : Type} (m : GoMap ν) (addr : String) (v : Option ν) : GoMap ν := fun a => if a = addr then v else m a

structure Gate where
  cfg : Config
  total : Int
  perAddr : GoMap Int
  pairings : GoMap (List Int)
  invitations : GoMap (List Int)

def new (cfg : Config) : Gate := ⟨cfg, 0, fun _ => none, fun _ => none, fun _ => none⟩

namespace Gate

/-- One connection slot for `addr`, unless a limit refuses it. -/
def acquire (g : Gate) (addr : String) : Bool × Gate :=
  if 0 < g.cfg.maxTotal ∧ g.cfg.maxTotal ≤ g.total then (false, g)
  else if 0 < g.cfg.maxPerAddr ∧ g.cfg.maxPerAddr ≤ (g.perAddr addr).getD 0 then (false, g)
  else (true, { g with total := g.total + 1, perAddr := g.perAddr.set addr (some ((g.perAddr addr).getD 0 + 1)) })

/-- What a release does the first time it is called. -/
def release (g : Gate) (addr : String) : Gate :=
  let n := (g.perAddr addr).getD 0 - 1
  { g with total := g.total - 1, perAddr := g.perAddr.set addr (if 0 < n then some n else none) }

def allowPairing (g : Gate) (addr : String) (now : Int) : Bool × Gate :=
  if g.cfg.pairingsPerAddr ≤ 0 then (true, g)
  else
    let (ok, kept) := Window.allow g.cfg.pairingsPerAddr g.cfg.pairingWindow ((g.pairings addr).getD []) now
    (ok, { g with pairings := g.pairings.set addr (some kept) })

/-- Entries expire on traffic. -/
def expire (m : GoMap (List Int)) (cutoff : Int) : GoMap (List Int) := fun a =>
  (m a).filter fun items => items.getLast?.any fun last => decide (cutoff < last)

/-- Bounds administrative request attempts independently of login. -/
def allowInvitation (g : Gate) (addr : String) (now : Int) : Bool × Gate :=
  if g.cfg.invitationsPerAddr ≤ 0 then (true, g)
  else
    let invitations := expire g.invitations (now - minute)
    let (ok, kept) := Window.allow g.cfg.invitationsPerAddr minute ((invitations addr).getD []) now
    (ok, { g with invitations := invitations.set addr (some kept) })

end Gate

/-- A slot that was acquired, and whether its release has been called. -/
structure Slot where
  addr : String
  released : Bool
deriving DecidableEq, Repr

inductive Op where
  | acquire (addr : String)
  /-- the release that the acquisition of a slot returned, called once more or for the first time -/
  | release (slot : Nat)
  | allowPairing (addr : String) (now : Int)
  | allowInvitation (addr : String) (now : Int)

def Op.time : Op → Option Int
  | .acquire _ | .release _ => none
  | .allowPairing _ now | .allowInvitation _ now => some now

/-- The gate, the slots taken of it, and which calls were allowed when. -/
structure World where
  gate : Gate
  slots : List Slot
  pairings : List (String × Int)
  invitations : List (String × Int)

def start (cfg : Config) : World := ⟨new cfg, [], [], []⟩

def step (w : World) : Op → World
  | .acquire addr =>
    let (ok, gate) := w.gate.acquire addr
    { w with gate := gate, slots := if ok then w.slots ++ [⟨addr, false⟩] else w.slots }
  | .release i =>
    match w.slots[i]? with
    | some slot =>
      if slot.released then w
      else { w with gate := w.gate.release slot.addr, slots := w.slots.set i { slot with released := true } }
    | none => w
  | .allowPairing addr now =>
    let (ok, gate) := w.gate.allowPairing addr now
    { w with gate := gate, pairings := if ok then w.pairings ++ [(addr, now)] else w.pairings }
  | .allowInvitation addr now =>
    let (ok, gate) := w.gate.allowInvitation addr now
    { w with gate := gate, invitations := if ok then w.invitations ++ [(addr, now)] else w.invitations }

/-- The clock never goes back from one call to the next. -/
def Clocked (ops : List Op) : Prop := (ops.filterMap Op.time).Pairwise (· ≤ ·)

def World.held (w : World) : List Slot := w.slots.filter fun s => !s.released

def timesOf (addr : String) (log : List (String × Int)) : List Int := (log.filter fun e => e.1 = addr).map (·.2)

end Arveil.Limits

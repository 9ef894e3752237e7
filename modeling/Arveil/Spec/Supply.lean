import Arveil.Lib.Trace
import Arveil.Spec.RelayServer

/-! The supply of key packages (`key_packages.rs` over `client.rs`, with the first batch of
`onboarding.rs`). A run asks the relay how many packages are left and publishes a batch when
they run low; the batch is stored before it is sent and sent again until the relay has
acknowledged it. A run may be cut off after any step, what it sent may reach the relay later,
and the other calls of the relay go on between its steps. The first publication runs under
the locks of enrolling and linking and the upkeep under that of the syncs, so that one of
each may be under way. -/

namespace Arveil.Supply

open RelayStore RelayServer

def keyPackageFloor : Nat := 3
def keyPackageTarget : Nat := 10
def initialKeyPackageCount : Nat := 5

structure PendingKeyPackages where
  packages : List Bytes
  previous : Nat
deriving DecidableEq, Repr

structure KeyPackageObservation where
  available : Nat
  checkedAt : Int
deriving DecidableEq, Repr

/-- What the profile holds about the packages of its device; a stored batch is the value its
bytes encode. -/
structure Profile where
  enrollmentComplete : Bool
  /-- `initial_key_package_publication`: no row, a batch, or `NULL` -/
  initial : Option (Option (List Bytes))
  /-- `key_package_replenishment` -/
  replenishment : Option PendingKeyPackages
  observation : Option KeyPackageObservation
  generated : List Bytes
deriving DecidableEq, Repr

section client

-- what the MLS engine generates next, or how it fails
variable (draw : Nat → Except String Bytes)

/-- Each package is stored with its private key as it is generated. -/
def keyPackages : Nat → Prog Profile String (List Bytes)
  | 0 => pure []
  | n + 1 => do
      let packages ← keyPackages n
      let package ← Prog.ofExcept (draw n)
      Prog.modify fun p => { p with generated := p.generated ++ [package] }
      pure (packages ++ [package])

def initialKeyPackages : Prog Profile String (Option (List Bytes)) := Prog.unitOfWork do
  match ← Prog.read (·.initial) with
  | some batch => pure batch
  | none =>
      if ← Prog.read (·.enrollmentComplete) then
        -- a profile that an older version completed is not seeded again
        Prog.modify fun p => { p with initial := some none }
        pure none
      else
        let packages ← keyPackages draw initialKeyPackageCount
        Prog.modify fun p => { p with initial := some (some packages) }
        pure (some packages)

def initialKeyPackagesAcknowledged : Prog Profile String Unit := do
  let row ← Prog.read (·.initial)
  Prog.when (row = none) (Prog.fail "no prepared batch")
  Prog.modify fun p => { p with initial := some none }

def keyPackageObserve (available : Nat) (checkedAt : Int) : Prog Profile String Unit :=
  Prog.modify fun p => { p with observation := some ⟨available, checkedAt⟩ }

def prepareKeyPackageReplenishment (available : Nat) : Prog Profile String (Option PendingKeyPackages) := Prog.unitOfWork do
  match ← Prog.read (·.replenishment) with
  | some pending => pure (some pending)
  | none =>
      if keyPackageFloor < available then pure none
      else
        let packages ← keyPackages draw (keyPackageTarget - available)
        Prog.modify fun p => { p with replenishment := some ⟨packages, available⟩ }
        pure (some ⟨packages, available⟩)

def keyPackageReplenishmentAcknowledged : Prog Profile String Unit :=
  Prog.modify fun p => { p with replenishment := none }

end client

inductive KeyPackageLevel where
  | unknown | empty | low | ready
deriving DecidableEq, Repr

structure KeyPackageSupply where
  available : Option Nat
  checkedAt : Option Int
  level : KeyPackageLevel
  publicationPending : Bool
  target : Nat
deriving DecidableEq, Repr

def keyPackageLevel : Option Nat → KeyPackageLevel
  | none => .unknown
  | some 0 => .empty
  | some n => if n ≤ keyPackageFloor then .low else .ready

/-- `local` -/
def localSupply (p : Profile) : KeyPackageSupply :=
  { available := p.observation.map (·.available)
    checkedAt := p.observation.map (·.checkedAt)
    level := keyPackageLevel (p.observation.map (·.available))
    publicationPending := p.replenishment.isSome
    target := keyPackageTarget }

inductive Kind where
  | initial | replenishment
deriving DecidableEq, Repr

/-- Where a run stands. -/
inductive Activity where
  | idle
  | counting (replenish : Bool)
  | counted (replenish : Bool) (available : Nat)
  | observed (available : Nat)
  | publishing (batch : List Bytes)
  | answered (batch : List Bytes) (ack : Bool)
deriving DecidableEq, Repr

inductive Entry where
  | prepared (kind : Kind) (batch : List Bytes)
  | sent (kind : Kind) (batch : List Bytes)
  | acknowledged (kind : Kind) (batch : List Bytes)
deriving DecidableEq, Repr

structure World where
  db : Db
  profile : Profile
  /-- the run of each kind that is under way -/
  activity : Kind → Activity
  /-- publications on their way whose run was cut off -/
  late : List (List Bytes)
  log : List Entry

inductive Event where
  | relay (c : Call)
  | complete
  | check (replenish : Bool)
  /-- `publish_initial_key_packages` -/
  | enroll (draw : Nat → Except String Bytes)
  | served (kind : Kind) (now : Int)
  /-- the run takes up the answer -/
  | next (kind : Kind) (draw : Nat → Except String Bytes) (now : Int)
  | cut (kind : Kind)
  /-- a publication arrives after its run was cut off -/
  | late (i : Nat) (now : Int)

/-- Only sessions of the device publish for it. -/
def publishes (deviceId : Bytes) : Call → Bool
  | .publishKeyPackages _ device _ _ => device = deviceId
  | _ => false

variable (sha256 : Bytes → Bytes) (identityId deviceId : Bytes)

def World.go (w : World) (kind : Kind) (a : Activity) : World := { w with activity := Function.update w.activity kind a }

/-- The batch goes out; a log entry says if it is a new one. -/
def send (kind : Kind) (batch : List Bytes) (fresh : Bool) (profile : Profile) (w : World) : World :=
  { w.go kind (.publishing batch) with
    profile := profile
    log := w.log ++ (if fresh then [.prepared kind batch] else []) ++ [.sent kind batch] }

def enroll (draw : Nat → Except String Bytes) (w : World) : World :=
  match initialKeyPackages draw w.profile with
  | (.ok (some batch), p) => send .initial batch w.profile.initial.isNone p w
  | (_, p) => { w with profile := p }

/-- The publication is served: the relay's answer, and what the store holds after it. -/
def publish (batch : List Bytes) (now : Int) (db : Db) : Bool × Db :=
  match publishKeyPackages sha256 identityId deviceId batch now db with
  | (.ok _, db') => (true, db')
  | (.error _, db') => (false, db')

def served (kind : Kind) (now : Int) (w : World) : World :=
  match w.activity kind with
  | .counting replenish => w.go kind (.counted replenish (available deviceId w.db))
  | .publishing batch =>
      { w.go kind (.answered batch (publish sha256 identityId deviceId batch now w.db).1) with
        db := (publish sha256 identityId deviceId batch now w.db).2 }
  | _ => w

/-- `maintain` or `publish_initial_key_packages`, from the answer it waits for to its next request. -/
def next (kind : Kind) (draw : Nat → Except String Bytes) (now : Int) (w : World) : World :=
  match kind, w.activity kind with
  | .replenishment, .counted replenish available =>
      { w.go .replenishment (if replenish then .observed available else .idle) with
        profile := (keyPackageObserve available now w.profile).2 }
  | .replenishment, .observed available =>
      match prepareKeyPackageReplenishment draw available w.profile with
      | (.ok (some pending), p) => send .replenishment pending.packages w.profile.replenishment.isNone p w
      | (_, p) => { w.go .replenishment .idle with profile := p }
  | .replenishment, .answered batch true =>
      -- a claim may have come between: ask again
      { w.go .replenishment (.counting false) with
        profile := (keyPackageReplenishmentAcknowledged w.profile).2
        log := w.log ++ [.acknowledged .replenishment batch] }
  | .initial, .answered batch true =>
      { w.go .initial .idle with
        profile := (initialKeyPackagesAcknowledged w.profile).2
        log := w.log ++ [.acknowledged .initial batch] }
  | kind, .answered _ false => w.go kind .idle
  | _, _ => w

def step (w : World) : Event → World
  | .relay c => if publishes deviceId c then w else { w with db := (c.prog sha256 w.db).2 }
  | .complete => { w with profile := { w.profile with enrollmentComplete := true } }
  | .check replenish =>
      match w.activity .replenishment with
      | .idle => w.go .replenishment (.counting replenish)
      | _ => w
  | .enroll draw =>
      match w.activity .initial with
      | .idle => enroll draw w
      | _ => w
  | .served kind now => served sha256 identityId deviceId kind now w
  | .next kind draw now => next kind draw now w
  | .cut kind =>
      match w.activity kind with
      | .publishing batch => { w.go kind .idle with late := w.late ++ [batch] }
      | _ => w.go kind .idle
  | .late i now =>
      match w.late[i]? with
      | some batch => { w with db := (publish sha256 identityId deviceId batch now w.db).2, late := w.late.eraseIdx i }
      | none => w

def start : World := ⟨.empty, ⟨false, none, none, none, []⟩, fun _ => .idle, [], []⟩

def after (evs : List Event) : World := Trace.run (step sha256 identityId deviceId) start evs

end Arveil.Supply

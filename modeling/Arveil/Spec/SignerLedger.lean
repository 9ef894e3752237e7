import Arveil.Spec.UpdateSigner
import Arveil.Lib.Trace

/-! Several runs of `client_updates.sign` over one ledger file. Reading the ledger and replacing
it are one step each, as the writing of an envelope is; whatever else a run does lies between
its two readings and can only make it fail. -/

namespace Arveil.Updates.Signer.Ledger

inductive Channel where
  | stable
  | beta
deriving DecidableEq, Repr

def Channel.text : Channel → String
  | .stable => "stable"
  | .beta => "beta"

/-- What a run was started with: the channel of its configuration, the sequence asked for and
what its entry says beside the sequence. -/
structure Args where
  channel : Channel
  requested : Option Int
  details : List (String × Json)

def ledgerEntry (n : Int) (details : List (String × Json)) : Json := .map (("sequence", .int n) :: details)

def appendEntry (channel : String) (e : Json) : List (String × Json) → List (String × Json)
  | [] => [(channel, .list [e])]
  | (c, v) :: rest =>
    if c = channel then
      (c, match v with
        | .list es => .list (es ++ [e])
        | v => v) :: rest
    else (c, v) :: appendEntry channel e rest

def ledgerFile (channels : List (String × Json)) : LedgerFile := .holds (.map [("schema", .int 1), ("channels", .map channels)])

/-- Where a run of `sign` stands. -/
inductive Phase where
  | ready
  /-- after `choose_sequence` -/
  | chosen (n : Int)
  /-- inside `record_sequence`, with the ledger it read again -/
  | reread (n : Int) (channels : List (String × Json))
  | recorded (n : Int)
  | written
  | failed

/-- A sequence of a channel and the run that signed it. -/
structure Mark where
  signer : Nat
  channel : Channel
  sequence : Int
deriving DecidableEq, Repr

structure World where
  ledger : LedgerFile
  phases : Nat → Phase
  recorded : List Mark
  envelopes : List Mark

structure Event where
  signer : Nat
  fails : Bool
deriving DecidableEq, Repr

def World.goto (w : World) (i : Nat) (p : Phase) : World := { w with phases := fun j => if j = i then p else w.phases j }

/-- `choose_sequence(read_ledger(ledger), channel, args.sequence)` -/
def choose (a : Args) (ledger : LedgerFile) : Except PyError Int := do
  let channels ← readLedger ledger
  chooseSequence (lastSequence channels a.channel.text) a.channel.text a.requested

/-- The first half of `record_sequence`. -/
def readAgain (a : Args) (n : Int) (ledger : LedgerFile) : Except PyError (List (String × Json)) := do
  let channels ← readLedger ledger
  check ((lastSequence channels a.channel.text).getD 0 < n) "The sequence ledger changed while signing; nothing was written."
  return channels

def step (args : Nat → Args) (w : World) (e : Event) : World :=
  if e.fails then w.goto e.signer .failed
  else match w.phases e.signer with
    | .ready =>
      match choose (args e.signer) w.ledger with
      | .ok n => w.goto e.signer (.chosen n)
      | .error _ => w.goto e.signer .failed
    | .chosen n =>
      match readAgain (args e.signer) n w.ledger with
      | .ok channels => w.goto e.signer (.reread n channels)
      | .error _ => w.goto e.signer .failed
    | .reread n channels =>
      { w.goto e.signer (.recorded n) with
        ledger := ledgerFile (appendEntry (args e.signer).channel.text (ledgerEntry n (args e.signer).details) channels)
        recorded := w.recorded ++ [⟨e.signer, (args e.signer).channel, n⟩] }
    | .recorded n =>
      { w.goto e.signer .written with envelopes := w.envelopes ++ [⟨e.signer, (args e.signer).channel, n⟩] }
    | .written | .failed => w

def start (ledger : LedgerFile) : World := ⟨ledger, fun _ => .ready, [], []⟩

/-- What the ledger holds of a channel; nothing where it cannot be read. -/
def entries (ledger : LedgerFile) (channel : Channel) : List Json :=
  match readLedger ledger with
  | .ok channels =>
    match field channels channel.text with
    | .list es => es
    | _ => []
  | .error _ => []

def sequenceOf : Json → Option Int
  | .map fields =>
    match field fields "sequence" with
    | .int n => some n
    | _ => none
  | _ => none

end Arveil.Updates.Signer.Ledger

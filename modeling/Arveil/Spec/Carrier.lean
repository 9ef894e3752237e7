import Arveil.Lib.Trace
import Arveil.Spec.Base

/-! One connection of the client (`carrier.rs`). The caller makes one call after another,
each to its end: a request waits for the reply with its id, `next_wakeup` for a notice, and
pings when nothing comes. What the socket brings, when a timer runs out and whether a write
goes through is the environment's choice. -/

namespace Arveil.Carrier

/-- The payloads the carrier looks at, and any other one. -/
inductive Payload where
  | mailboxWatch
  | mailboxWakeup
  | ping
  | pong
  | ack
  | error (code : UInt16) (message : String)
  | other (value : Bytes)
deriving DecidableEq, Repr

structure Frame where
  id : UInt64
  payload : Payload
deriving DecidableEq, Repr

/-- What a read of the WebSocket brings. -/
inductive Incoming where
  | binary (message : Bytes)
  | control
  | text
  | close (reason : String)
  | failed (e : String)
  | ended
deriving DecidableEq, Repr

/-- The Noise channel with its fragments, by what it does to its state. -/
structure Codec (χ : Type) where
  sealFrame : χ → Frame → Except String (List Bytes) × χ
  sealPadded : χ → Frame → Except String (List Bytes) × χ
  openMessage : χ → Bytes → Except String (Option Frame) × χ
  debug : Payload → String

structure Connection (χ : Type) where
  /-- the socket and the channel; they are dropped together -/
  channel : Option χ
  nextId : UInt64
  requestTimeout : Nat
  padded : Bool
  wakePending : Bool

/-- Who waits for a reply: the caller, or `next_wakeup` with its ping. -/
inductive Caller where
  | request
  | keepalive
deriving DecidableEq, Repr

inductive Phase where
  | idle
  | sending (caller : Caller) (id : UInt64) (messages : List Bytes)
  | waiting (caller : Caller) (id : UInt64)
  | listening
deriving DecidableEq, Repr

inductive Entry where
  | asked (id : UInt64) (payload : Payload)
  | refused (payload : Payload)
  | sent (message : Bytes)
  | read (i : Incoming)
  | frame (f : Frame)
  | answered (id : UInt64) (r : Except CliError Payload)
  | timedOut
  /-- `next_wakeup` is called, and returns -/
  | listened
  | woke
  | wakeupFailed (e : CliError)
deriving Repr

structure World (χ : Type) where
  conn : Connection χ
  phase : Phase
  log : List Entry

inductive Event where
  | request (payload : Payload)
  | nextWakeup
  | written (failure : Option String)
  | arrives (i : Incoming)
  | elapsed
deriving DecidableEq, Repr

def isWakeup (f : Frame) : Bool := f.id = 0 && f.payload = .mailboxWakeup

def invalidated : CliError := .transport "connection invalidated; reconnect required"

def timedOut (phase : String) (after : Nat) : CliError :=
  .transport (phase ++ " timed out after " ++ toString after ++ " ms; operation cancelled")

/-- What ends a read without a message; a control frame ends nothing. -/
def Incoming.failure : Incoming → Option CliError
  | .binary _ | .control => none
  | .text => some (.protocol "text frame on channel")
  | .close reason => some (.transport ("closed: " ++ reason))
  | .failed e => some (.transport ("websocket: " ++ e))
  | .ended => some (.transport "connection ended")

variable {χ : Type} (codec : Codec χ)

namespace World

def note (w : World χ) (es : List Entry) : World χ := { w with log := w.log ++ es }

def goTo (w : World χ) (p : Phase) : World χ := { w with phase := p }

def setChannel (w : World χ) (c : Option χ) : World χ := { w with conn := { w.conn with channel := c } }

def setPending (w : World χ) (b : Bool) : World χ := { w with conn := { w.conn with wakePending := b } }

/-- `next_wakeup` returns. -/
def failWakeup (w : World χ) (e : CliError) : World χ := (w.note [.wakeupFailed e]).goTo .idle

/-- The head of the loop of `next_wakeup`. -/
def listen (w : World χ) : World χ :=
  if w.conn.wakePending then ((w.setPending false).note [.woke]).goTo .idle
  else if w.conn.channel.isNone then w.failWakeup invalidated
  else w.goTo .listening

def finish (w : World χ) (caller : Caller) (id : UInt64) (r : Except CliError Payload) : World χ :=
  let w := w.note [.answered id r]
  match caller, r with
  | .request, _ => w.goTo .idle
  | .keepalive, .ok .pong => w.listen
  | .keepalive, .ok other => w.failWakeup (.protocol ("unexpected reply to Ping: " ++ codec.debug other))
  | .keepalive, .error e => w.failWakeup e

/-- The loop over the messages of a request, and then the wait for its reply. -/
def proceed (w : World χ) (caller : Caller) (id : UInt64) : List Bytes → World χ
  | [] => w.goTo (.waiting caller id)
  | messages => w.goTo (.sending caller id messages)

/-- `request` up to its first wait. -/
def ask (w : World χ) (caller : Caller) (payload : Payload) : World χ :=
  match w.conn.channel with
  | none =>
      match caller with
      | .request => (w.note [.refused payload]).goTo .idle
      | .keepalive => (w.note [.refused payload]).failWakeup invalidated
  | some channel =>
      let id := w.conn.nextId
      let (r, channel) := (if w.conn.padded then codec.sealPadded else codec.sealFrame) channel ⟨id, payload⟩
      let w := { w with conn := { w.conn with channel := some channel, nextId := w.conn.nextId + 1 } }.note [.asked id payload]
      match r with
      | .error e => w.finish codec caller id (.error (.transport ("seal: " ++ e)))
      | .ok messages => w.proceed caller id messages

def reply (w : World χ) (caller : Caller) (id : UInt64) (f : Frame) : World χ :=
  let w := w.note [.frame f]
  if isWakeup f then w.setPending true
  else if f.id ≠ id then
    w.finish codec caller id (.error (.protocol ("reply id " ++ toString f.id ++ " for request " ++ toString id)))
  else match f.payload with
    | .error code message => w.finish codec caller id (.error (.relay code.toNat message))
    | p => w.finish codec caller id (.ok p)

def answer (w : World χ) (caller : Caller) (id : UInt64) (i : Incoming) : World χ :=
  let w := w.note [.read i]
  match i with
  | .binary message =>
      match w.conn.channel with
      | none => w
      | some channel =>
          let (r, channel) := codec.openMessage channel message
          let w := w.setChannel (some channel)
          match r with
          | .error e => w.finish codec caller id (.error (.transport ("open: " ++ e)))
          | .ok none => w
          | .ok (some f) => w.reply codec caller id f
  | i =>
      match i.failure with
      | none => w
      | some e => w.finish codec caller id (.error e)

def notice (w : World χ) (f : Frame) : World χ :=
  let w := w.note [.frame f]
  if isWakeup f then (w.note [.woke]).goTo .idle
  else w.failWakeup (.protocol ("unsolicited frame " ++ toString f.id ++ " on a watched session"))

def hear (w : World χ) (i : Incoming) : World χ :=
  let w := w.note [.read i]
  match i with
  | .binary message =>
      match w.conn.channel with
      | none => w.failWakeup invalidated
      | some channel =>
          let (r, channel) := codec.openMessage channel message
          let w := w.setChannel (some channel)
          match r with
          | .error e => w.failWakeup (.transport ("open: " ++ e))
          | .ok none => w.listen
          | .ok (some f) => w.notice f
  | i =>
      match i.failure with
      | none => w
      | some e => w.failWakeup e

/-- The timer of a request: socket and channel are dropped. -/
def giveUp (w : World χ) (caller : Caller) (id : UInt64) : World χ :=
  ((w.setChannel none).note [.timedOut]).finish codec caller id (.error (timedOut "request" w.conn.requestTimeout))

end World

def step (w : World χ) : Event → World χ
  | .request payload =>
      match w.phase with
      | .idle => w.ask codec .request payload
      | _ => w
  | .nextWakeup =>
      match w.phase with
      | .idle => (w.note [.listened]).listen
      | _ => w
  | .written failure =>
      match w.phase with
      | .sending caller id (message :: rest) =>
          match failure with
          | none => (w.note [.sent message]).proceed caller id rest
          | some e => w.finish codec caller id (.error (.transport ("send: " ++ e)))
      | _ => w
  | .arrives i =>
      match w.phase with
      | .waiting caller id => w.answer codec caller id i
      | .listening => w.hear codec i
      | _ => w
  | .elapsed =>
      match w.phase with
      | .sending caller id _ | .waiting caller id => w.giveUp codec caller id
      | .listening => w.ask codec .keepalive .ping
      | .idle => w

def opened (channel : χ) (requestTimeout : Nat) (padded : Bool) : World χ :=
  ⟨⟨some channel, 1, requestTimeout, padded, false⟩, .idle, []⟩

def after (w : World χ) (evs : List Event) : World χ := Trace.run (step codec) w evs

end Arveil.Carrier

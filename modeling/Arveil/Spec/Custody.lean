import Arveil.Lib.Trace
import Arveil.Spec.Acts
import Arveil.Spec.Pages

/-! How an envelope passes from the relay's queue to the profile (`sync` beside
`delivery.go`). A sync asks for one page of its mailbox, processes it envelope by envelope,
acknowledges what the inbox holds and moves the cursor. Between two of its steps the relay,
the senders and the other commands of the profile go on; it may be cut off after any step,
and an acknowledgement it sent may reach the relay later. -/

namespace Arveil.Custody

open RelayQueue Client Delivery

inductive Phase where
  | idle
  | fetching (start : UInt64)
  | receiving (advanced : UInt64) (items : List EnvelopeItem)
  | received (next : UInt64)
  | acknowledging (next : UInt64) (ids : List Bytes)
  | acknowledged (next : UInt64) (ids : List Bytes)
  | closing (next : UInt64)

/-- `stored` is what the relay has taken for the mailbox and `clock` the latest time it has read;
`processed` the envelopes whose receive unit committed with an effect; `late` the acknowledgements
on their way whose sync was cut off. -/
structure World where
  queue : Queue
  clock : Int
  profile : Arveil.World
  phase : Phase
  late : List (List Bytes)
  stored : List QueuedEnvelope
  processed : List EnvelopeItem

/-- `relay` is a transaction of others at the relay, `act` another command of the profile; `cut` is
a sync that fails, times out or crashes. -/
inductive Event where
  | relay (t : Transaction)
  | act (a : Act)
  | fetch
  | page (now : Int)
  | receive (now : Int)
  | acknowledge
  | served
  | mark
  | close
  | cut
  | late (i : Nat)

/-- What only the sync of this mailbox does to the inbox and the cursor. -/
def ofSync : Act → Bool
  | .receive .. | .acknowledge .. | .setCursor .. => true
  | _ => false

/-- Only the holder of the read capability can acknowledge, and that is this profile. -/
def acks (mailbox : Bytes) : Transaction → Bool
  | .ack m _ => m = mailbox
  | _ => false

variable (sha256 : Bytes → Bytes) (pf : Platform) (s : Session) (mailbox : Bytes)

def ticked (w : World) : Option Int → Int
  | none => w.clock
  | some now => max w.clock now

def taken (q q' : Queue) : List QueuedEnvelope :=
  q'.queued.rows.filter fun e => e.mailboxId = mailbox && decide (e ∉ q.queued.rows)

/-- The next envelope of a pass; the first one that fails ends it. -/
def received (now : Int) (advanced : UInt64) (item : EnvelopeItem) (rest : List EnvelopeItem) (w : World) : World :=
  match Sync.receiveUnit pf s now mailbox item w.profile.store with
  | (.ok (some _), st) =>
      { w with
        profile := { w.profile with store := st }
        phase := .receiving item.seq rest
        processed := w.processed ++ [item] }
  | (.ok none, st) => { w with profile := { w.profile with store := st }, phase := .receiving item.seq rest }
  | (.error _, st) => { w with profile := { w.profile with store := st }, phase := .received advanced }

def step (w : World) : Event → World
  | .relay t =>
      if acks mailbox t then w
      else
        { w with
          queue := t.run sha256 w.queue
          clock := ticked w t.time
          stored := w.stored ++ taken mailbox w.queue (t.run sha256 w.queue) }
  | .act a => if ofSync a then w else { w with profile := Act.step pf s w.profile a }
  | .fetch =>
      match w.phase with
      | .idle => { w with phase := .fetching (cursor w.profile.store mailbox).toUInt64 }
      | _ => w
  | .page now =>
      match w.phase with
      | .fetching start =>
          { w with
            clock := ticked w (some now)
            phase := .receiving start ((fetchEnvelopes mailbox start.toNat 50 now w.queue).map envelopeItem) }
      | _ => w
  | .receive now =>
      match w.phase with
      | .receiving advanced [] => { w with phase := .received advanced }
      | .receiving advanced (item :: rest) => received pf s mailbox now advanced item rest w
      | _ => w
  | .acknowledge =>
      match w.phase with
      | .received next =>
          let ids := unacked w.profile.store mailbox
          { w with phase := if ids.isEmpty then .closing next else .acknowledging next ids }
      | _ => w
  | .served =>
      match w.phase with
      | .acknowledging next ids => { w with queue := ackEnvelopes mailbox ids w.queue, phase := .acknowledged next ids }
      | _ => w
  | .mark =>
      match w.phase with
      | .acknowledged next ids =>
          { w with profile := { w.profile with store := markAcked mailbox ids w.profile.store }, phase := .closing next }
      | _ => w
  | .close =>
      match w.phase with
      | .closing next =>
          { w with profile := { w.profile with store := setCursor mailbox next.toInt64 w.profile.store }, phase := .idle }
      | _ => w
  | .cut =>
      match w.phase with
      | .acknowledging _ ids => { w with phase := .idle, late := w.late ++ [ids] }
      | _ => { w with phase := .idle }
  | .late i =>
      match w.late[i]? with
      | some ids => { w with queue := ackEnvelopes mailbox ids w.queue, late := w.late.eraseIdx i }
      | none => w

def start (profile : Arveil.World) : World :=
  ⟨⟨.empty, .empty⟩, 0, { profile with store := { profile.store with inbox := .empty, mailboxCursor := .empty } }, .idle, [], [], []⟩

def after (w : World) (evs : List Event) : World := Trace.run (step sha256 pf s mailbox) w evs

end Arveil.Custody

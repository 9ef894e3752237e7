import Arveil.Lib.LockOrder
import Arveil.Lib.Trace
import Arveil.Spec.Commands

/-! The executor of one profile (`SerialExecutor`, `command_future`, `run_executor`): slots
taken on the threads of the callers, one thread that takes requests off the channel and
polls the commands under way, the exclusions between them, and the flag a panic leaves
behind. What a command does is a number of stretches between waits, of which the last one
ends or panics. -/

namespace Arveil.Executor

open Commands (Lock)

inductive InvitationAction where
  | policy | create | retryIssue | list (refresh : Bool) | revoke | accept | pending
deriving DecidableEq, Repr

inductive ClientCommand where
  | invitations (action : InvitationAction)
  | queueAttachment | resumeAttachment | cancelAttachment | exportAttachment
  | createIdentity | enroll
  | createLinkRequest | authorizeLink | completeLink
  | beginPairing | awaitPairing | approvePairing | confirmPairing | cancelPairing | queryPendingPairing
  | offerLink | awaitLinkRequest | answerLink | joinLink
  | offerCard | closeCard | querySharedCards | setCardName | queryCardName | previewCard | startFromCard
  | answerRequest
  | exportArchive | importArchive | queryArchivePage | exportArchiveFile
  | exportKit | confirmKitSaved | restoreKit | resumeRecovery | queryOnboarding
  | queryKeyPackageSupply | checkKeyPackages | replenishKeyPackages
  | setNotificationHint | registerWatchKey | clearWatchKey | queryWatchCredentials
  | queryDevices | queryContacts | saveContact | renameContact | verifyContact | createContactConversation
  | queryOwnRoute | previewRoutes | createRouteConversation
  | queueMessage | createConversation | addDevice | removeDevice | sendMessage | sendFile
  | sync | revokeDevice
  | queryConversations | queryPeers | queryHistoryPage | searchHistory | markRead | queryArchived
deriving DecidableEq, Repr

inductive Admission where
  | sync | mutation | query
deriving DecidableEq, Repr

def maxActiveSyncs : Nat := 2

def maxActiveMutations : Nat := 32

def maxActiveQueries : Nat := 128

def Admission.limit : Admission → Nat
  | .sync => maxActiveSyncs
  | .mutation => maxActiveMutations
  | .query => maxActiveQueries

def ClientCommand.admission : ClientCommand → Admission
  | .invitations .pending | .invitations (.list false) => .query
  | .sync => .sync
  | .queryConversations | .queryPeers | .queryHistoryPage | .searchHistory | .queryArchived | .queryArchivePage
  | .exportArchiveFile | .queryOnboarding | .queryOwnRoute | .exportAttachment | .queryDevices | .queryContacts
  | .previewRoutes | .queryKeyPackageSupply | .queryPendingPairing | .querySharedCards | .queryCardName
  | .previewCard => .query
  | _ => .mutation

/-- The locks `command_future` takes around a command, in its order. -/
def ClientCommand.exclusions : ClientCommand → List Lock
  | .invitations .pending | .invitations (.list false) => []
  | .invitations _ => [.enrollment, .sync]
  | .sync | .revokeDevice | .checkKeyPackages | .replenishKeyPackages | .setNotificationHint | .registerWatchKey
  | .clearWatchKey => [.sync]
  | .resumeAttachment => [.attachment]
  | .enroll | .restoreKit | .resumeRecovery => [.enrollment]
  | .completeLink | .confirmPairing | .beginPairing | .joinLink => [.linkCompletion]
  | .awaitPairing | .approvePairing | .awaitLinkRequest => [.pairingWait]
  | _ => []

inductive Refusal where
  | stopped
  | saturated (active : Nat)
  | panicked
deriving DecidableEq, Repr

inductive Reply where
  | result
  | panicked
deriving DecidableEq, Repr

/-- How far a command has come, on its caller's thread down to `refused` and from `queued` on
the worker's. -/
inductive Phase where
  | checking
  | loading
  | swapping (current : Nat)
  | sending
  | releasing
  | refused (r : Refusal)
  | queued
  | fresh
  | turnedAway
  | acquiring (held wanted : List Lock)
  /-- the stretches before its last one -/
  | working (held : List Lock) (left : Nat)
  | panicked
  | returned (r : Reply)
  | replied
  | done
deriving DecidableEq, Repr

structure Request where
  command : ClientCommand
  waits : Nat
  panics : Bool
deriving DecidableEq, Repr

structure Submit where
  request : Request
  phase : Phase
deriving DecidableEq, Repr

structure World where
  /-- every call of `submit`, in the order in which they began -/
  submits : List Submit
  channel : List Nat
  sender : Bool
  accepting : Bool
  ended : Bool
  current : Option Nat
  active : Admission → Nat
  poisoned : Bool
  panicked : Bool
  replies : List (Nat × Reply)
  /-- each stretch, with whether a command had panicked before it -/
  ran : List (Nat × Bool)

def start : World where
  submits := []
  channel := []
  sender := true
  accepting := true
  ended := false
  current := none
  active := fun _ => 0
  poisoned := false
  panicked := false
  replies := []
  ran := []

namespace World

def move (i : Nat) (p : Phase) (w : World) : World := { w with submits := w.submits.modify i fun s => { s with phase := p } }

def poll (current : Option Nat) (w : World) : World := { w with current := current }

def setActive (k : Admission) (n : Nat) (w : World) : World := { w with active := Function.update w.active k n }

def release (k : Admission) (w : World) : World := w.setActive k (w.active k - 1)

def reply (i : Nat) (r : Reply) (w : World) : World := { w with replies := w.replies ++ [(i, r)] }

def runs (i : Nat) (w : World) : World := { w with ran := w.ran ++ [(i, w.panicked)] }

end World

def Phase.held : Phase → List Lock
  | .acquiring held _ | .working held _ => held
  | _ => []

/-- The lock a command waits for, if another holds it. -/
def Phase.wants : Phase → Option Lock
  | .acquiring _ (l :: _) => some l
  | _ => none

def isHeld (l : Lock) (w : World) : Bool := w.submits.any fun s => l ∈ s.phase.held

/-- One atomic step of `submit` on its caller's thread. `weak` is a `compare_exchange_weak` that
fails without a reason. -/
def submitStep (i : Nat) (weak : Bool) (s : Submit) (w : World) : World :=
  let k := s.request.command.admission
  match s.phase with
  | .checking => if w.poisoned then w.move i (.refused .panicked) else w.move i .loading
  | .loading => w.move i (.swapping (w.active k))
  | .swapping current =>
      if k.limit ≤ current then w.move i (.refused (.saturated current))
      else if w.active k = current ∧ weak = false then (w.setActive k (current + 1)).move i .sending
      else w.move i (.swapping (w.active k))
  | .sending =>
      if w.sender = true ∧ w.ended = false then { w.move i .queued with channel := w.channel ++ [i] }
      else w.move i .releasing
  | .releasing => (w.release k).move i (.refused .stopped)
  | _ => w

/-- One step of the poll of a command; a poll goes on until the command waits or is over. -/
def pollStep (i : Nat) (s : Submit) (w : World) : World :=
  match s.phase with
  | .fresh =>
      if w.poisoned then (w.move i .turnedAway).poll (some i)
      else (w.move i (.acquiring [] s.request.command.exclusions)).poll (some i)
  | .turnedAway => ((w.reply i .panicked).move i .done).poll none
  | .acquiring held (l :: wanted) =>
      if isHeld l w then w.poll none else (w.move i (.acquiring (l :: held) wanted)).poll (some i)
  | .acquiring held [] => (w.move i (.working held s.request.waits)).poll (some i)
  | .working held (left + 1) => ((w.runs i).move i (.working held left)).poll none
  -- the guards are dropped with the command, whether it returns or unwinds
  | .working _ 0 =>
      if s.request.panics then ({ w.runs i with panicked := true }.move i .panicked).poll (some i)
      else ((w.runs i).move i (.returned .result)).poll (some i)
  | .panicked => ({ w with poisoned := true }.move i (.returned .panicked)).poll (some i)
  | .returned r => ((w.reply i r).move i .replied).poll (some i)
  | .replied => ((w.release s.request.command.admission).move i .done).poll none
  | _ => w

/-- In the worker's hands: received, and not yet over. -/
def Phase.running : Phase → Bool
  | .fresh | .turnedAway | .acquiring .. | .working .. | .panicked | .returned _ | .replied => true
  | _ => false

inductive Event where
  | submit (r : Request)
  | caller (i : Nat) (weak : Bool)
  /-- `shutdown` takes the sender; it then waits for the worker -/
  | shutdown
  | receive
  | close
  | stop
  | turn (i : Nat)
deriving DecidableEq, Repr

/-- What the worker does; the rest is done on other threads. -/
def Event.isWorker : Event → Bool
  | .receive | .close | .stop | .turn _ => true
  | _ => false

def step (w : World) : Event → World
  | .submit r => { w with submits := w.submits ++ [⟨r, .checking⟩] }
  | .caller i weak =>
      match w.submits[i]? with
      | some s => submitStep i weak s w
      | none => w
  | .shutdown => { w with sender := false }
  | .receive =>
      match w.accepting, w.current, w.channel with
      | true, none, i :: rest => { w.move i .fresh with channel := rest }
      | _, _, _ => w
  | .close =>
      if w.accepting = true ∧ w.current = none ∧ w.channel = [] ∧ w.sender = false then { w with accepting := false }
      else w
  | .stop =>
      if w.accepting = false ∧ w.current = none ∧ w.submits.all (fun s => !s.phase.running) then { w with ended := true }
      else w
  | .turn i =>
      if w.current = none ∨ w.current = some i then
        match w.submits[i]? with
        | some s => if s.phase.running then pollStep i s w else w
        | none => w
      else w

end Arveil.Executor

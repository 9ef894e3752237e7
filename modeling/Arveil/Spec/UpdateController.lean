import Arveil.Lib.Await
import Arveil.Spec.Updates

/-! The app's update controller: controller.dart. One operation runs at a time, under `_busy`, and waits
for the platform, the store and the network at its questions; between two of them nothing else
runs. The process may end at any moment, and the store then holds the old content or, when a
write was on its way, the new one. The log keeps what an outside observer would note. -/

namespace Arveil.Updates

open Dialog

/-- The rollback history of one update identity. -/
structure History where
  identity : Hex64
  sequence : Int
  digest : Option Hex64
  shaped : 0 ≤ sequence ∧ sequence ≤ maxSequence ∧ (sequence = 0 ↔ digest = none)

abbrev Histories := Table History.identity

def put (t : Histories) (h : History) : Histories := t.upsert (fun r new => { new with identity := r.identity }) (fun _ _ => rfl) h

/-- `_histories`, the automatic checks and the last attempt, in UTC. -/
structure Saved where
  automatic : Bool
  lastAttempt : Option Int
  histories : Histories

variable (cx : Dart)

def digestJson : Option Hex64 → Json
  | none => .null
  | some d => .str d.1

def attemptJson : Option Int → Json
  | none => .null
  | some t => .str (cx.toIso8601String t)

def historyJson (h : History) : String × Json :=
  (h.identity.1, .map [("sequence", .int h.sequence), ("digest", digestJson h.digest)])

def Saved.json (s : Saved) : Json :=
  .map [("schema", .int 2), ("automatic", .bool s.automatic), ("lastAttempt", attemptJson cx s.lastAttempt),
    ("feeds", .map (s.histories.rows.map historyJson))]

def stateFailure : Failure := .update "state"

def hex64 (j : Json) : Except Failure Hex64 :=
  match j with
  | .str s => if h : isHex64 s = true then .ok ⟨s, h⟩ else .error stateFailure
  | _ => .error stateFailure

def history (identity : Hex64) (sequence digest : Json) : Except Failure History :=
  match sequence with
  | .int n =>
    if hn : 0 ≤ n ∧ n ≤ maxSequence then
      if h0 : n = 0 then
        match digest with
        | .null => .ok ⟨identity, n, none, hn.1, hn.2, iff_of_true h0 rfl⟩
        | _ => .error stateFailure
      else do
        let d ← hex64 digest
        return ⟨identity, n, some d, hn.1, hn.2, iff_of_false h0 nofun⟩
    else .error stateFailure
  | _ => .error stateFailure

def restoreFeeds : Histories → List (String × Json) → Except Failure Histories
  | t, [] => .ok t
  | t, (key, value) :: rest => do
    let identity ← hex64 (.str key)
    match value with
    | .map fields =>
      let h ← history identity (field fields "sequence") (field fields "digest")
      restoreFeeds (put t h) rest
    | _ => .error stateFailure

def restoreHistories (data : List (String × Json)) : Except Failure Histories :=
  -- builds up to 0.1.0+18 kept a single history at the top level
  if (field data "schema").isInt 1 then do
    let identity ← hex64 (field data "identity")
    let h ← history identity (field data "sequence") (field data "digest")
    return put .empty h
  else if (field data "schema").isInt 2 then
    match field data "feeds" with
    | .map stored => restoreFeeds .empty stored
    | _ => .error stateFailure
  else .error stateFailure

def restoreAttempt (stamp : Json) : Except Failure (Option Int) :=
  match stamp with
  | .null => .ok none
  | .str s =>
    match cx.parseDate s with
    | some t => if t.isUtc then .ok (some t.micros) else .error stateFailure
    | none => .error .other
  | _ => .error stateFailure

def restore (data : Json) : Except Failure Saved :=
  match data with
  | .map fields =>
    match field fields "automatic" with
    | .bool automatic => do
      let histories ← restoreHistories fields
      let lastAttempt ← restoreAttempt cx (field fields "lastAttempt")
      return ⟨automatic, lastAttempt, histories⟩
    | _ => .error stateFailure
  | _ => .error stateFailure

/-- The file of the store: missing, text that is no JSON, or a value. -/
inductive File where
  | missing
  | damaged
  | holds (data : Json)

/-- What `load` takes from the store. -/
def File.load : File → Except Failure Saved
  | .missing => .ok ⟨false, none, .empty⟩
  | .damaged => .error .other
  | .holds data => restore cx data

inductive Phase where
  | idle | checking | current | available | downloading | ready | installing | incompatible
deriving DecidableEq, Repr

def Phase.offers : Phase → Bool
  | available | downloading | ready | installing => true
  | _ => false

structure Controller where
  config : Option UpdateConfig
  /-- On the Mac: it offers, and never downloads or installs. -/
  notifyOnly : Bool
  automatic : Bool
  lastAttempt : Option Int
  histories : Histories
  stateFailed : Bool
  busy : Bool
  disposed : Bool
  cancelled : Bool
  error : Option String
  phase : Phase
  device : Option UpdateDevice
  manifest : Option UpdateManifest
  apk : Option String
  needsPermission : Bool

/-- What an announcement offers one platform. -/
inductive PlatformUpdate where
  | android (u : AndroidUpdate)
  | mac (u : MacUpdate)

def PlatformUpdate.newerThan : PlatformUpdate → UpdateDevice → Bool
  | .android u, d => u.newerThan d
  | .mac u, d => u.newerThan d

def PlatformUpdate.compatibleWith : PlatformUpdate → UpdateDevice → Except Failure Bool
  | .android u, d => .ok (u.compatibleWith d)
  | .mac u, d => u.compatibleWith cx d

/-- What is noted of a run: a content reached the store, an offer passed the freshness test against
the accepted history, the platform told its device, an announcement was offered, a download or an installation began. -/
inductive Entry where
  | wrote (data : Json)
  | fresh (identity : Hex64) (m : UpdateManifest) (now : Int)
  | device (d : UpdateDevice)
  | offered (identity : Hex64) (m : UpdateManifest) (u : PlatformUpdate) (d : UpdateDevice)
  | download (m : UpdateManifest) (now : Int)
  | install (m : UpdateManifest) (apk : String) (now : Int)

structure World where
  me : Controller
  disk : File
  now : Int
  log : List Entry

def identity (config : UpdateConfig) : Hex64 := cx.sha256 (config.publicKey ++ utf8 config.channel)

/-- `_sequence` -/
def sequenceIn (t : Histories) (i : Hex64) : Int :=
  match t.get? i with
  | some h => h.sequence
  | none => 0

/-- `_digest` -/
def digestIn (t : Histories) (i : Hex64) : Option Hex64 := (t.get? i).bind (·.digest)

namespace Controller

def available (c : Controller) : Bool := c.manifest.isSome && c.phase.offers

def target (c : Controller) (m : UpdateManifest) : Option PlatformUpdate :=
  if c.notifyOnly then m.macos.map .mac else some (.android m.android)

def freshness (c : Controller) (i : Hex64) (m : UpdateManifest) (now : Int) : Except Failure Unit :=
  m.checkFreshness now (sequenceIn c.histories i) (digestIn c.histories i)

end Controller

inductive Question where
  | write (data : Json)
  | device
  | manifest (feed : Uri)
  | download (u : AndroidUpdate)
  | allowed
  | permission
  | install (apk : String) (u : AndroidUpdate)
  | remove (apk : String)

/-- An answer, or an exception. A write that failed may have reached the store. -/
inductive Answer where
  | done
  | device (d : UpdateDevice)
  | wire (b : Bytes)
  | file (path : String)
  | allowed (b : Bool)
  | failed (e : Failure) (landed : Bool)

abbrev Op (α : Type) := Dialog World Question Answer Failure α

def writes (data : Json) (w : World) : World := { w with disk := .holds data, log := w.log ++ [.wrote data] }

def land : Question → Answer → World → World
  | .write data, .done => writes data
  | .write data, .failed _ true => writes data
  | _, _ => id

def set (f : Controller → Controller) : Op Unit := write fun w => { w with me := f w.me }

def note (e : Entry) : Op Unit := write fun w => { w with log := w.log ++ [e] }

def throws {α : Type} (e : Failure) : Op α := .done (.error e)

def ofExcept {α : Type} (r : Except Failure α) : Op α := .done r

/-- The exception of an answer; an answer of another kind is a failed call. -/
def Answer.exception : Answer → Failure
  | .failed e _ => e
  | _ => .other

def askDone (q : Question) : Op Unit := do
  match ← question q with
  | .done => return ()
  | a => throws a.exception

def askDevice : Op UpdateDevice := do
  match ← question .device with
  | .device d =>
    note (.device d)
    set fun c => { c with device := some d }
    return d
  | a => throws a.exception

def askManifest (feed : Uri) : Op Bytes := do
  match ← question (.manifest feed) with
  | .wire b => return b
  | a => throws a.exception

def askDownload (u : AndroidUpdate) : Op String := do
  match ← question (.download u) with
  | .file path => return path
  | a => throws a.exception

def askAllowed : Op Bool := do
  match ← question .allowed with
  | .allowed b => return b
  | a => throws a.exception

def Controller.saving (c : Controller) (i : Hex64) (enabled : Option Bool) (attempt : Option Int) (accepted : Option UpdateManifest) :
    Saved where
  automatic := enabled.getD c.automatic
  lastAttempt := attempt.or c.lastAttempt
  histories :=
    match accepted with
    | some m => put c.histories ⟨i, m.sequence, some m.digest, by have := m.bounds; omega, m.bounds.2, by have := m.bounds; simp; omega⟩
    | none => c.histories

def Controller.adopt (c : Controller) (s : Saved) : Controller :=
  { c with automatic := s.automatic, lastAttempt := s.lastAttempt, histories := s.histories }

def save (i : Hex64) (enabled : Option Bool) (attempt : Option Int) (accepted : Option UpdateManifest) : Op Unit := do
  let w ← look
  match ← question (.write ((w.me.saving i enabled attempt accepted).json cx)) with
  | .done => set fun c => c.adopt (c.saving i enabled attempt accepted)
  | _ =>
    set fun c => { c with stateFailed := true }
    throws (.update "state")

def removeApk : Op Unit := do
  let w ← look
  set fun c => { c with apk := none }
  match w.me.apk with
  | some path => askDone (.remove path)
  | none => return ()

def dropOffer : Op Unit := do
  set fun c => { c with manifest := none }
  removeApk
  set fun c => { c with phase := .idle }

def fresh (config : UpdateConfig) (selected : UpdateManifest) : Op Unit := do
  let w ← look
  match w.me.freshness (identity cx config) selected w.now with
  | .ok () => note (.fresh (identity cx config) selected w.now)
  | .error e =>
    dropOffer
    throws e

def keepOffer (config : UpdateConfig) (previous : Phase) : Op Unit := do
  let w ← look
  match w.me.manifest with
  | some offered =>
    if previous = .available ∨ previous = .ready then
      match w.me.freshness (identity cx config) offered w.now with
      | .ok () => set fun c => { c with phase := previous }
      | .error _ => dropOffer
    else dropOffer
  | none => dropOffer

/-- The phase of a verified announcement on a device. -/
def assess (u : Option PlatformUpdate) (device : UpdateDevice) : Except Failure Phase :=
  match u with
  | none => .ok .current
  | some u =>
    if u.newerThan device then do
      if ← u.compatibleWith cx device then return .available else return .incompatible
    else .ok .current

/-- The phase of the controller once an announcement is accepted. -/
def offer (config : UpdateConfig) (candidate : UpdateManifest) (device : UpdateDevice) : Op Unit := do
  let w ← look
  let phase ← ofExcept (assess cx (w.me.target candidate) device)
  match w.me.target candidate, phase with
  | some u, .available => note (.offered (identity cx config) candidate u device)
  | _, _ => pure ()
  set fun c => { c with phase := phase }

def tryCheck (config : UpdateConfig) : Op Unit := do
  let w ← look
  -- the attempt is kept before networking, so failures and restarts do not poll
  save cx (identity cx config) none (some w.now) none
  let device ← askDevice
  let wire ← askManifest config.feed
  let candidate ← ofExcept (verify cx wire config)
  let w ← look
  ofExcept (w.me.freshness (identity cx config) candidate w.now)
  save cx (identity cx config) none none (some candidate)
  let w ← look
  if w.me.disposed || w.me.cancelled then return ()
  removeApk
  set fun c => { c with manifest := some candidate }
  offer cx config candidate device

def check (config : UpdateConfig) : Op Unit := do
  let w ← look
  let previous := w.me.phase
  set fun c => { c with phase := .checking }
  match ← attempt (tryCheck cx config) with
  | .ok () => return ()
  | .error e =>
    keepOffer cx config previous
    throws e

/-- What follows a download that was not cancelled. -/
def downloaded (config : UpdateConfig) (selected : UpdateManifest) : Op Unit := do
  fresh cx config selected
  let allowed ← askAllowed
  set fun c => { c with needsPermission := !allowed, phase := .ready }

def download (config : UpdateConfig) : Op Unit := do
  let w ← look
  if w.me.notifyOnly then return ()
  match w.me.manifest with
  | none => return ()
  | some selected =>
    if !w.me.available then return ()
    fresh cx config selected
    set fun c => { c with phase := .downloading }
    note (.download selected w.now)
    let file ← askDownload selected.android
    set fun c => { c with apk := some file }
    let w ← look
    if w.me.disposed || w.me.cancelled then
      removeApk
      return ()
    match ← attempt (downloaded cx config selected) with
    | .ok () => return ()
    | .error e =>
      removeApk
      throws e

/-- What follows once the platform told that it may install. -/
def handOver (selected : UpdateManifest) : Op Unit := do
  set fun c => { c with phase := .installing }
  let w ← look
  match w.me.apk with
  | none => throws .other
  | some apk =>
    note (.install selected apk w.now)
    match ← attempt (askDone (.install apk selected.android)) with
    | .ok () =>
      removeApk
      set fun c => { c with phase := .current }
    | .error e =>
      if e = .platform "package" then
        removeApk
        set fun c => { c with phase := .available }
      throws e

def install (config : UpdateConfig) : Op Unit := do
  let w ← look
  if w.me.notifyOnly then return ()
  match w.me.manifest with
  | none => return ()
  | some selected =>
    if w.me.apk.isNone || w.me.phase ≠ .ready then return ()
    fresh cx config selected
    let device ← askDevice
    if !selected.android.newerThan device then
      removeApk
      set fun c => { c with phase := .current }
    else if !selected.android.compatibleWith device then
      removeApk
      set fun c => { c with phase := .incompatible }
    else
      let allowed ← askAllowed
      set fun c => { c with needsPermission := !allowed }
      if !allowed then throws (.update "permission")
      handOver selected

def errorOf (cancelled : Bool) : Failure → Option String
  | .update code => if cancelled then none else some code
  | .platform code => some (if ["permission", "package", "storage", "cancelled"].contains code then code else "install")
  | .other => some "network"

def Phase.settled : Phase → Phase
  | checking => idle
  | downloading => available
  | installing => ready
  | p => p

/-- `_run`, from the moment it takes `_busy`. -/
def run (operation : Op Unit) : Op Unit := do
  set fun c => { c with busy := true, cancelled := false, error := none }
  match ← attempt operation with
  | .ok () => pure ()
  | .error e => set fun c => { c with error := errorOf c.cancelled e }
  set fun c => { c with busy := false, phase := c.phase.settled }

structure System where
  world : World
  task : Option (Op Unit)

inductive Event where
  | setAutomatic (enabled : Bool)
  | checkAutomatically
  | check
  | download
  | permission
  | install
  | answer (a : Answer)
  | cancelDownload
  | dispose
  | refreshed (allowed : Bool)
  | openDownload
  | clock (now : Int)
  /-- The process ends, with a write on its way or not, and a new one loads the store or fails to read it. -/
  | restart (landed : Bool) (config : Option UpdateConfig) (notifyOnly : Bool) (readable : Bool)

def Controller.new (config : Option UpdateConfig) (notifyOnly : Bool) : Controller where
  config := config
  notifyOnly := notifyOnly
  automatic := false
  lastAttempt := none
  histories := .empty
  stateFailed := false
  busy := false
  disposed := false
  cancelled := false
  error := none
  phase := .idle
  device := none
  manifest := none
  apk := none
  needsPermission := false

def Controller.load (c : Controller) (disk : File) (readable : Bool) : Controller :=
  if c.config.isNone then c
  else
    match if readable then disk.load cx else .error .other with
    | .ok s => c.adopt s
    | .error _ => { c with stateFailed := true, error := some "state" }

def System.at (t : Op Unit × World) : System :=
  match t with
  | (.done _, w) => ⟨w, none⟩
  | (t, w) => ⟨w, some t⟩

/-- `_run` -/
def System.begin (s : System) (operation : UpdateConfig → Op Unit) : System :=
  match s.world.me.config with
  | none => s
  | some config =>
    if s.world.me.busy || s.world.me.disposed then s
    else if s.world.me.stateFailed then { s with world.me.error := some "state" }
    else .at (go (run (operation config)) s.world)

def day : Int := 86400000000

/-- Whether `checkAutomatically` goes on to `check`. -/
def Controller.due (c : Controller) (now : Int) : Bool :=
  c.automatic && !c.busy && c.config.isSome && !c.stateFailed && !c.disposed &&
    !(c.lastAttempt.any fun last => last ≤ now && now - last < day) && c.phase ≠ .ready

/-- `openDownload`: an offer that is no longer fresh is dropped; no package is kept here. -/
def Controller.openDownload (c : Controller) (now : Int) : Controller :=
  match c.config, c.manifest with
  | some config, some selected =>
    if !c.notifyOnly || c.disposed then c
    else
      match c.freshness (identity cx config) selected now with
      | .ok () => c
      | .error (.update code) => { c with manifest := none, phase := .idle, error := some code }
      | .error _ => c
  | _, _ => c

/-- The store when the process ends at a question. -/
def System.left (s : System) (landed : Bool) : World :=
  match s.task.bind asks with
  | some q => if landed then land q .done s.world else s.world
  | none => s.world

def step (s : System) : Event → System
  | .setAutomatic enabled => s.begin fun config => save cx (identity cx config) (some enabled) none none
  | .checkAutomatically => if s.world.me.due s.world.now then s.begin (check cx) else s
  | .check => s.begin (check cx)
  | .download => s.begin (download cx)
  | .permission => s.begin fun _ => askDone .permission
  | .install => s.begin (install cx)
  | .answer a =>
    match s.task with
    | some t =>
      match t.asks with
      | some q => .at (go (t.reply a) (land q a s.world))
      | none => s
    | none => s
  | .cancelDownload => { s with world.me.cancelled := true }
  | .dispose => { s with world.me.disposed := true }
  | .refreshed allowed => { s with world.me.needsPermission := !allowed }
  | .openDownload => { s with world.me := s.world.me.openDownload cx s.world.now }
  | .clock now => { s with world.now := now }
  | .restart landed config notifyOnly readable =>
    let w := s.left landed
    ⟨{ w with me := (Controller.new config notifyOnly).load cx w.disk readable }, none⟩

def start (disk : File) (now : Int) (config : Option UpdateConfig) (notifyOnly : Bool) (readable : Bool) : System :=
  ⟨⟨(Controller.new config notifyOnly).load cx disk readable, disk, now, []⟩, none⟩

end Arveil.Updates

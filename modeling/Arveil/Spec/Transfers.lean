import Arveil.Lib.Chunks
import Arveil.Lib.Dialog
import Arveil.Spec.Archive
import Arveil.Spec.Blobs

/-! Attachments that a person sends, downloads and cancels (`attachment_ui.rs`,
`attachment_store.rs`). One transfer runs at a time; whatever else the profile does lies
between its requests, and it may be cut off after any of its writes. The relay handles one
request after the other, each as a whole or cut off between two operations on its store.
What MLS, the outbox and the conversation say when the descriptor is sent is an argument. -/

namespace Arveil.Transfers

open Archive (maxFileBytes maxAttachmentBytes descriptor joinChunks verifiedPlaintext)
open RelayServer (Frame Answer)

structure TransferRow extends AttachmentRow where
  committed : Bool
  expiresAt : Option UInt64
deriving DecidableEq, Repr

/-- What is kept of an attachment's history: its descriptor was put in the outbox, or a
cancellation returned. -/
inductive Deed where
  | queued (id : Bytes) (d : FileDescriptor)
  | cancelled (id : Bytes)
deriving DecidableEq, Repr

def Deed.id : Deed → Bytes
  | .queued id _ => id
  | .cancelled id => id

/-- A profile and its relay. The deeds have the newest first; `held` has each blob the relay
held committed after it was asked to commit. -/
structure State where
  events : Table EventRow.eventId
  transfers : Table fun r : TransferRow => r.eventId
  chunks : Table fun c : ChunkRow => (c.eventId, c.offset)
  deeds : List Deed
  db : RelayStore.Db
  held : List (Bytes × Bytes)

abbrev Local (α : Type) := Prog State CliError α

def check {α : Type} (f : State → Except CliError α) : Local α := fun s => (f s, s)

def sqlite : CliError := .storage ("sqlite: " ++ SqlError.invalidQuery.message)

def updateTransfer (id : Bytes) (f : TransferRow → TransferRow) (hf : ∀ r, (f r).eventId = r.eventId) (s : State) : State :=
  { s with transfers := s.transfers.update (fun r => r.eventId = id) f hf }

def attachmentCreate (row : TransferRow) : Local Unit := fun s =>
  match s.transfers.insert row with
  | none => (.error sqlite, s)
  | some t => (.ok (), { s with transfers := t })

def attachmentState (id : Bytes) (state : TransferState) : Local Unit :=
  Prog.modify (updateTransfer id (fun r => { r with state := state }) fun _ => rfl)

def attachmentOffset (id : Bytes) (offset : Nat) : Local Unit :=
  Prog.modify (updateTransfer id (fun r => { r with offset := UInt64.ofNat offset }) fun _ => rfl)

/-- An expiry that SQLite cannot hold is refused. -/
def attachmentDescriptor (id bytes : Bytes) (expiry : Option UInt64) : Local Unit := fun s =>
  if expiry.any fun t => 2 ^ 63 ≤ t.toNat then (.error sqlite, s)
  else (.ok (), updateTransfer id (fun r => { r with descriptor := bytes, committed := expiry.isSome, expiresAt := expiry }) (fun _ => rfl) s)

def attachmentChunk (id : Bytes) (offset : Nat) (data : Bytes) : Local Unit := fun s =>
  match s.chunks.insert ⟨id, UInt64.ofNat offset, data⟩ with
  | none => (.error sqlite, s)
  | some t => (.ok (), { s with chunks := t })

/-- `ORDER BY offset` -/
def chunksOf (s : State) (id : Bytes) : List ChunkRow :=
  (s.chunks.rows.filter fun c => c.eventId = id).insertionSort fun a b => a.offset ≤ b.offset

def attachmentBytes (s : State) (id : Bytes) : Except CliError Bytes := joinChunks maxFileBytes [] (chunksOf s id)

def attachmentClearBytes (id : Bytes) : Local Unit := do
  Prog.modify fun s => { s with chunks := s.chunks.delete fun c => c.eventId = id }
  attachmentOffset id 0

def updateEvent (id : Bytes) (kind : EventKind) (body : Bytes) : Local Unit := Prog.modify fun s =>
  { s with events := s.events.update (fun e => e.eventId = id) (fun e => { e with kind := kind, body := body }) (EventRow.written_key kind body) }

section commands

variable (pf : Platform) (encodeFile : FileDescriptor → Bytes)

def checkedEvent (group id : Bytes) (s : State) : Except CliError EventRow :=
  match s.events.get? id with
  | none => .error (.domain "no attachment in this conversation")
  | some e => if e.groupId = group then .ok e else .error (.domain "no attachment in this conversation")

def newRow (id : Bytes) (outgoing : Bool) (d : FileDescriptor) (descriptor : Bytes) : TransferRow where
  eventId := id
  outgoing := outgoing
  name := d.safeName
  size := d.size
  state := .pending
  descriptor := descriptor
  offset := 0
  committed := false
  expiresAt := none

def ensureRow (group id : Bytes) : Local TransferRow := do
  let e ← check (checkedEvent group id)
  match (← Prog.read fun s => s.transfers.get? id) with
  | some row => pure row
  | none => do
      Prog.when (e.kind ≠ .filePending) (Prog.fail (.domain "attachment has no managed copy"))
      let d ← Prog.ofExcept (descriptor pf e.body true)
      let row := newRow id false d e.body
      attachmentCreate row
      pure row

def blobChunk : Nat := 60 * 1024

/-- A file as the person chose it, and what encryption and the conversation made of it. -/
structure NewFile where
  group : Bytes
  id : Bytes
  name : String
  size : Nat
  fileKey : Bytes
  nonce : Bytes
  ciphertextHash : Bytes
  ciphertext : Bytes
  ready : Except CliError Unit

def NewFile.descriptor (f : NewFile) : FileDescriptor :=
  let d : FileDescriptor := ⟨1, [], [], f.fileKey, f.nonce, f.ciphertextHash, UInt64.ofNat f.size, f.name, "application/octet-stream"⟩
  { d with name := d.safeName }

def storeChunks (id : Bytes) : Nat → List Bytes → Local Unit
  | _, [] => pure ()
  | index, chunk :: rest => do
      attachmentChunk id (index * blobChunk) chunk
      storeChunks id (index + 1) rest

def queue (f : NewFile) : Local Unit := do
  Prog.when (maxAttachmentBytes < f.size) (Prog.fail (.domain "attachment exceeds size limit"))
  Prog.ofExcept f.ready
  Prog.unitOfWork do
    Prog.modify fun s => { s with events := s.events.insertOrIgnore ⟨f.group, f.id, .fileOutgoing, [], none, none⟩ }
    attachmentCreate (newRow f.id true f.descriptor (encodeFile f.descriptor))
    storeChunks f.id 0 (Chunks.chunks blobChunk f.ciphertext)

def cancel (group id : Bytes) : Local Unit := Prog.unitOfWork do
  let row ← ensureRow pf group id
  Prog.when (row.state = .sent ∨ row.state = .ready) (Prog.fail (.domain "completed attachments cannot be cancelled"))
  attachmentClearBytes id
  attachmentState id .cancelled
  Prog.modify fun s => { s with deeds := .cancelled id :: s.deeds }

inductive Request where
  | connect
  | blobResume (blobId : Bytes)
  | blobUploadBegin (size : Nat)
  | blobChunk (blobId : Bytes) (offset : Nat) (data : Bytes)
  | blobCommit (blobId ciphertextHash : Bytes) (requestedExpiry : UInt64)
  | blobFetch (blobId readCapability : Bytes) (offset length : Nat)
  | publish
  | close
deriving DecidableEq, Repr

abbrev Reply := Except CliError Answer

abbrev Command (α : Type) := Dialog State Request Reply CliError α

/-- `conn.request(..).await?` -/
def request (q : Request) : Command Answer := do
  match (← Dialog.question q) with
  | .error e => Dialog.fail e
  | .ok a => pure a

def lift {α : Type} (r : Except CliError α) : Command α := Dialog.done r

def isActive (s : State) (id : Bytes) : Bool := (s.transfers.get? id).any fun r => r.state = .transferring

def active (id : Bytes) : Command Bool := Dialog.call (Prog.read fun s => isActive s id)

/-- Go on if the transfer was not cancelled meanwhile. -/
def whileActive {α : Type} (id : Bytes) (k : Command (Option α)) : Command (Option α) := do
  if (← active id) = true then k else pure none

structure Resume where
  group : Bytes
  id : Bytes
  bootstrap : Except CliError Unit
  now : UInt64
  requestedExpiry : UInt64
  ready : Except CliError Unit

section upload

variable (a : Resume) (bytes : Bytes)

/-- Where the relay says that an upload stands; `none` starts a new one. -/
def resumeOffset (d : FileDescriptor) : Command (Option Nat) :=
  if d.blobId.isEmpty then pure none
  else do
    match (← Dialog.question (.blobResume d.blobId)) with
    | .ok (.blobOffset offset) =>
        if offset ≤ bytes.length then pure (some offset) else Dialog.fail (.protocol "invalid upload offset")
    | .ok _ => Dialog.fail (.protocol "invalid upload offset")
    | .error e => if e.relayCode = some 403 ∨ e.relayCode = some 409 ∨ e.relayCode = some 410 then pure none else Dialog.fail e

def beginUpload : Command (Bytes × Bytes) := do
  match (← request (.blobUploadBegin bytes.length)) with
  | .blobUploadStarted blobId readCapability => pure (blobId, readCapability)
  | _ => Dialog.fail (.protocol "unexpected reply")

/-- The chunks from an offset on; each is at least one byte. -/
def sendChunks (d : FileDescriptor) : Nat → Nat → Command (Option Unit)
  | 0, _ => pure (some ())
  | fuel + 1, offset =>
      if bytes.length ≤ offset then pure (some ())
      else do
        let stop := min (offset + blobChunk) bytes.length
        let reply ← request (.blobChunk d.blobId offset ((bytes.drop offset).take (stop - offset)))
        whileActive a.id do
          if reply ≠ .ack then Dialog.fail (.protocol "unexpected upload reply")
          else do
            Dialog.call (attachmentOffset a.id stop)
            sendChunks d fuel stop

def commitBlob (d : FileDescriptor) : Command (Option FileDescriptor) := do
  let reply ← request (.blobCommit d.blobId d.ciphertextHash a.requestedExpiry)
  whileActive a.id do
    match reply with
    | .blobCommitted effectiveExpiry => do
        Dialog.call (attachmentDescriptor a.id (encodeFile d) (some (UInt64.ofInt effectiveExpiry)))
        let _ ← Dialog.question .close
        pure (some d)
    | _ => Dialog.fail (.protocol "unexpected blob commit reply")

def sendFrom (d : FileDescriptor) (offset : Nat) : Command (Option FileDescriptor) := do
  Dialog.call (attachmentOffset a.id offset)
  match (← sendChunks a bytes d (bytes.length - offset) offset) with
  | none => pure none
  | some () => commitBlob encodeFile a d

def uploadBytes (d : FileDescriptor) : Command (Option FileDescriptor) := do
  let _ ← request .connect
  whileActive a.id do
    let resumed ← resumeOffset bytes d
    whileActive a.id do
      match resumed with
      | some offset => sendFrom encodeFile a bytes d offset
      | none => do
          let (blobId, readCapability) ← beginUpload bytes
          whileActive a.id do
            let d := { d with blobId := blobId, readCapability := readCapability }
            Dialog.call (attachmentDescriptor a.id (encodeFile d) none)
            sendFrom encodeFile a bytes d 0

/-- The event, the state and the message in the outbox change together. -/
def sendDescriptor (d : FileDescriptor) : Local Unit := do
  Prog.ofExcept a.ready
  Prog.unitOfWork do
    updateEvent a.id .sentFile []
    attachmentState a.id .sent
    Prog.modify fun s => { s with deeds := .queued a.id d :: s.deeds }

/-- A blob that was committed and has not expired is not uploaded again. -/
def ensureUploaded (row : TransferRow) (d : FileDescriptor) : Command (Option FileDescriptor) :=
  if row.committed = false ∨ row.expiresAt.any (· ≤ a.now) then uploadBytes encodeFile a bytes d else pure (some d)

def upload (row : TransferRow) : Command Unit := do
  let d ← lift (descriptor pf row.descriptor false)
  let bytes ← Dialog.call (check fun s => attachmentBytes s a.id)
  let _ ← lift (verifiedPlaintext pf d bytes)
  lift a.bootstrap
  match (← ensureUploaded encodeFile a bytes row d) with
  | none => pure ()
  | some d => do
      if (← active a.id) = false then pure ()
      else do
        -- reloaded after the waits: another command may have advanced the group
        Dialog.call (sendDescriptor a d)
        let _ ← request .connect
        let _ ← request .publish
        let _ ← Dialog.question .close

end upload

section download

variable (a : Resume) (d : FileDescriptor)

def total : Nat := d.size.toNat + 16

/-- The chunks that are missing; each is at least one byte. -/
def fetchChunks : Nat → Bytes → Command (Option Bytes)
  | 0, bytes => pure (some bytes)
  | fuel + 1, bytes =>
      if total d ≤ bytes.length then pure (some bytes)
      else do
        let reply ← Dialog.question (.blobFetch d.blobId d.readCapability bytes.length blobChunk)
        whileActive a.id do
          match reply with
          | .ok (.blobData reported data) =>
              if reported ≠ total d ∨ data.isEmpty ∨ blobChunk < data.length ∨ total d - bytes.length < data.length then do
                Dialog.call (attachmentState a.id .invalid)
                Dialog.fail (.protocol "invalid attachment chunk")
              else do
                Dialog.call (Prog.unitOfWork do
                  attachmentChunk a.id bytes.length data
                  attachmentOffset a.id (bytes.length + data.length))
                fetchChunks fuel (bytes ++ data)
          | .ok _ => Dialog.fail (.protocol "unexpected download reply")
          | .error e =>
              if e.relayCode = some 410 then do
                Dialog.call (attachmentState a.id .expired)
                pure none
              else if e.relayCode = some 403 then do
                Dialog.call (attachmentState a.id .unavailable)
                pure none
              else Dialog.fail e

def finishDownload (bytes : Bytes) : Command Unit :=
  match verifiedPlaintext pf d bytes with
  | .error e => do
      Dialog.call (Prog.unitOfWork do
        attachmentClearBytes a.id
        attachmentState a.id .invalid)
      Dialog.fail e
  | .ok _ => do
      Dialog.call (attachmentState a.id .ready)
      let _ ← Dialog.question .close

end download

def download (a : Resume) (row : TransferRow) : Command Unit := do
  let d ← lift (descriptor pf row.descriptor true)
  let bytes ← Dialog.call (check fun s => attachmentBytes s a.id)
  if total d < bytes.length then Dialog.fail (.protocol "invalid partial attachment")
  else do
    lift a.bootstrap
    let _ ← request .connect
    let fetched ← whileActive a.id (fetchChunks a d (total d - bytes.length) bytes)
    match fetched with
    | none => pure ()
    | some bytes => finishDownload pf a d bytes

def resume (a : Resume) : Command Unit := do
  let row ← Dialog.call (ensureRow pf a.group a.id)
  if row.state = .sent ∨ row.state = .ready then pure ()
  else if row.state = .invalid ∨ (row.outgoing = true ∧ row.state = .cancelled) then
    Dialog.fail (.domain "attachment cannot be resumed")
  else do
    Dialog.call (attachmentState a.id .transferring)
    let result ← Dialog.attempt (if row.outgoing = true then upload pf encodeFile a row else download pf a row)
    match result with
    | .ok () => pure ()
    | .error e => do
        if (← active a.id) = true then Dialog.call (attachmentState a.id .pending) else pure ()
        Dialog.fail e

end commands

/-- The transfer that runs, at its question, and the relay's answer to it. -/
structure Job where
  task : Command Unit
  answer : Option Answer

structure World where
  state : State
  job : Option Job

section runs

variable (pf : Platform) (encodeFile : FileDescriptor → Bytes) (cx : Crypto) (items : CborItems)

/-- The frame of a request, with what the relay draws for it. -/
def Request.frame (drawn : Bytes × Bytes) : Request → Option Frame
  | .connect | .publish | .close => none
  | .blobResume blobId => some (.blobResume blobId)
  | .blobUploadBegin size => some (.blobUploadBegin size drawn.1 drawn.2)
  | .blobChunk blobId offset data => some (.blobChunk blobId offset data)
  | .blobCommit blobId ciphertextHash requestedExpiry => some (.blobCommit blobId ciphertextHash requestedExpiry)
  | .blobFetch blobId readCapability offset length => some (.blobFetch blobId readCapability offset length)

/-- The relay's side of a request: as a whole, or so many operations of it. -/
structure Service where
  session : RelayServer.Session
  now : Int
  drawn : Bytes × Bytes
  operations : Option Nat

def Service.run (v : Service) (f : Frame) (db : RelayStore.Db) : Option Answer × RelayStore.Db :=
  match v.operations with
  | none => (((RelayServer.dispatch cx items v.session f v.now).finish db).map (fun o => some o.answer) fun db => db)
  | some n => (none, (Handler.steps n (RelayServer.dispatch cx items v.session f v.now) db).2)

def heldBlob (db : RelayStore.Db) (blobId : Bytes) : List (Bytes × Bytes) :=
  match (db.blobs.get? blobId).filter fun b => b.state = .committed, db.files.get? blobId with
  | some _, some f => [(blobId, f.content)]
  | _, _ => []

def Request.blob : Request → Bytes
  | .blobCommit blobId _ _ => blobId
  | _ => []

def heard : Answer → Reply
  | .error code message => .error (.relay code message)
  | a => .ok a

/-- A reply that does not come from the relay's own answer never says that a blob is committed. -/
def deniesCommit : Reply → Bool
  | .ok (.blobCommitted _) => false
  | _ => true

/-- What others and the operator do at the relay. -/
inductive Elsewhere where
  | frame (f : Frame) (v : Service)
  | sweep (now : Int)
  | restart

inductive Event where
  | record (e : EventRow)
  | updateEvent (id : Bytes) (kind : EventKind) (body : Bytes)
  | queue (f : NewFile)
  | cancel (group id : Bytes)
  /-- a transfer begins when no other runs; `writes` cuts it off after so many -/
  | resume (a : Resume) (writes : Option Nat)
  | serve (v : Service)
  /-- the transfer goes on with the relay's answer, or with a reply of another make -/
  | deliver (other : Option Reply) (writes : Option Nat)
  | crash
  | elsewhere (e : Elsewhere)

/-- Run a command to its next question, or cut it off. -/
def proceed (t : Command Unit) (writes : Option Nat) (s : State) : World :=
  match writes with
  | some n => ⟨Dialog.cut n t s, none⟩
  | none =>
      match Dialog.go t s with
      | (.done _, s) => ⟨s, none⟩
      | (t, s) => ⟨s, some ⟨t, none⟩⟩

def atRelay (e : Elsewhere) (db : RelayStore.Db) : RelayStore.Db :=
  match e with
  | .frame f v => (v.run cx items f db).2
  | .sweep now => Blobs.sweep now db
  | .restart => Blobs.reconcile db

def step (w : World) : Event → World
  | .record e => { w with state := { w.state with events := w.state.events.insertOrIgnore e } }
  | .updateEvent id kind body => { w with state := (updateEvent id kind body w.state).2 }
  | .queue f => { w with state := (queue encodeFile f w.state).2 }
  | .cancel group id => { w with state := (cancel pf group id w.state).2 }
  | .resume a writes =>
      match w.job with
      | some _ => w
      | none => proceed (resume pf encodeFile a) writes w.state
  | .serve v =>
      match w.job with
      | none => w
      | some j =>
          match j.answer, j.task.asks with
          | none, some q =>
              match q.frame v.drawn with
              | none => w
              | some f =>
                  let (answer, db) := v.run cx items f w.state.db
                  ⟨{ w.state with db := db, held := heldBlob db q.blob ++ w.state.held }, some { j with answer := answer }⟩
          | _, _ => w
  | .deliver other writes =>
      match w.job with
      | none => w
      | some j =>
          match other, j.answer with
          | some r, _ => if deniesCommit r = true then proceed (j.task.reply r) writes w.state else w
          | none, some answer => proceed (j.task.reply (heard answer)) writes w.state
          | none, none => w
  | .crash => { w with job := none }
  | .elsewhere e => { w with state := { w.state with db := atRelay cx items e w.state.db } }

end runs

structure Fresh (w : World) : Prop where
  transfers : ∀ r, ¬ r ∈ w.state.transfers
  chunks : ∀ c, ¬ c ∈ w.state.chunks
  deeds : w.state.deeds = []
  idle : w.job = none

/-- Nothing about an attachment comes before its descriptor is queued. -/
def QueuedOnce (s : State) : Prop :=
  s.deeds.Pairwise fun newer older => ∀ id d, newer = .queued id d → older.id ≠ id

/-- The relay held, committed under the descriptor's blob id, what has the descriptor's hash. -/
def Committed (cx : Crypto) (s : State) (d : FileDescriptor) : Prop :=
  ∃ content, (d.blobId, content) ∈ s.held ∧ cx.sha256 content = d.ciphertextHash

def QueuedCommitted (cx : Crypto) (s : State) : Prop := ∀ id d, .queued id d ∈ s.deeds → Committed cx s d

/-- The chunks of a download have no gap and end at its offset. -/
def GapFree (s : State) : Prop :=
  ∀ r ∈ s.transfers, r.outgoing = false → ∃ bytes, attachmentBytes s r.eventId = .ok bytes ∧ bytes.length = r.offset.toNat

/-- A download that is ready opens to a file of the announced size. -/
def ReadyOpens (pf : Platform) (s : State) : Prop :=
  ∀ r ∈ s.transfers, r.outgoing = false → r.state = .ready → ∃ d bytes plain, descriptor pf r.descriptor true = .ok d ∧
    attachmentBytes s r.eventId = .ok bytes ∧ verifiedPlaintext pf d bytes = .ok plain ∧ plain.length = r.size.toNat

end Arveil.Transfers

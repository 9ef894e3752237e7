import Arveil.Spec.Acts

/-! The history archive: what is taken out of a profile (`archives.rs`,
`archive_store.rs`), with the attachments it reads (`attachment_ui.rs`,
`attachment_store.rs`) and the writers of both. The times of records are left out;
nothing checks them. -/

namespace Arveil

inductive TransferState where
  | pending
  | transferring
  | ready
  | sent
  | cancelled
  | unavailable
  | expired
  | invalid
deriving DecidableEq, Repr

structure AttachmentRow where
  eventId : Bytes
  outgoing : Bool
  name : String
  size : UInt64
  state : TransferState
  descriptor : Bytes
  offset : UInt64
deriving DecidableEq, Repr

structure ChunkRow where
  eventId : Bytes
  offset : UInt64
  data : Bytes
deriving DecidableEq, Repr

/-- The kind of a record: one of the events', or what an archive file says instead. -/
inductive RecordKind where
  | event (kind : EventKind)
  | other (text : String)
deriving DecidableEq, Repr

structure ArchiveRecord where
  groupId : Bytes
  eventId : Bytes
  kind : RecordKind
  body : Bytes
  fileName : Option String
  file : Bytes
  filePresent : Bool
  senderIdentity : Option Bytes
deriving DecidableEq, Repr

structure ArchivedRow where
  groupId : Bytes
  eventId : Bytes
  kind : RecordKind
  body : Bytes
  fileName : Option String
  senderIdentity : Option Bytes
deriving DecidableEq, Repr

structure ArchivedFile where
  groupId : Bytes
  eventId : Bytes
  bytes : Bytes
deriving DecidableEq, Repr

structure Profile where
  world : World
  transfers : Table AttachmentRow.eventId
  chunks : Table fun c : ChunkRow => (c.eventId, c.offset)
  archivedEvents : Table fun r : ArchivedRow => (r.groupId, r.eventId)
  archivedFiles : Table fun f : ArchivedFile => (f.groupId, f.eventId)

namespace Archive

def maxFileBytes : Nat := 25 * 1024 * 1024
def maxAttachmentBytes : Nat := maxFileBytes - 16
def maxArchiveBytes : Nat := 64 * 1024 * 1024
def maxArchiveRecords : Nat := 10000
def maxArchivePayloadBytes : Nat := 48 * 1024 * 1024
def archiveVersion : UInt8 := 1

def EventKind.text : EventKind → String
  | .sent => "sent"
  | .received => "received"
  | .sentFile => "sent-file"
  | .fileOutgoing => "file-outgoing"
  | .receivedFile => "received-file"
  | .filePending => "file-pending"
  | .fileUnavailable => "file-unavailable"
  | .devicesChanged => "devices-changed"

def RecordKind.text : RecordKind → String
  | .event kind => EventKind.text kind
  | .other text => text

/-- `OWN_KINDS` -/
def own : EventKind → Bool
  | .sent | .sentFile | .fileOutgoing => true
  | _ => false

/-- `kind.contains("file")` -/
def isFile : EventKind → Bool
  | .sentFile | .fileOutgoing | .receivedFile | .filePending | .fileUnavailable => true
  | _ => false

/-- `std::str::from_utf8` accepts these bytes. -/
def validUtf8 (b : Bytes) : Bool := (ByteArray.mk b.toArray).validateUTF8

def invalid : CliError := .domain "invalid archive, wrong identity or archive limit exceeded"

variable (pf : Platform)

/-- The descriptor of an attachment, with its lengths checked; `remote` says that it
must name a blob. -/
def descriptor (bytes : Bytes) (remote : Bool) : Except CliError FileDescriptor :=
  match pf.fileDescriptor bytes with
  | .error e => .error (protocolError "attachment" e)
  | .ok d =>
      if maxAttachmentBytes < d.size.toNat ∨ d.fileKey.length ≠ 32 ∨ d.nonce.length ≠ 12 ∨ d.ciphertextHash.length ≠ 32 ∨
          (remote ∧ (d.blobId.length ≠ 16 ∨ d.readCapability.length ≠ 32)) then
        .error (.domain "invalid attachment descriptor")
      else .ok d

inductive AttachmentState where
  | transfer (state : TransferState)
  | legacy
deriving DecidableEq, Repr

structure AttachmentSummary where
  name : String
  size : UInt64
  outgoing : Bool
  state : AttachmentState
  transferred : UInt64
  total : UInt64
deriving DecidableEq, Repr

def summary (p : Profile) (id : Bytes) (kind : EventKind) (body : Bytes) : Option AttachmentSummary :=
  match p.transfers.get? id with
  | some row => some ⟨row.name, row.size, row.outgoing, .transfer row.state, row.offset, row.size + 16⟩
  | none =>
      if kind = .filePending then
        match descriptor pf body true with
        | .ok d => some ⟨d.safeName, d.size, false, .transfer .pending, 0, d.size + 16⟩
        | .error _ => some ⟨"Adjunto no válido", 0, false, .transfer .invalid, 0, 0⟩
      else if isFile kind then some ⟨"Adjunto anterior", 0, kind = .sentFile, .legacy, 0, 0⟩
      else none

/-- The chunks one after another; gaps and oversized data are refused. -/
def joinChunks (max : Nat) : Bytes → List ChunkRow → Except CliError Bytes
  | bytes, [] => .ok bytes
  | bytes, c :: rest =>
      if c.offset.toNat ≠ bytes.length ∨ max - bytes.length < c.data.length then
        .error (.storage ("sqlite: " ++ SqlError.invalidQuery.message))
      else joinChunks max (bytes ++ c.data) rest

/-- `ORDER BY offset` -/
def attachmentBytes (p : Profile) (id : Bytes) (max : Nat) : Except CliError Bytes :=
  joinChunks max [] ((p.chunks.rows.filter fun c => c.eventId = id).insertionSort fun a b => a.offset ≤ b.offset)

def verifiedPlaintext (d : FileDescriptor) (bytes : Bytes) : Except CliError Bytes :=
  if bytes.length ≠ d.size.toNat + 16 then .error (.protocol "attachment size mismatch")
  else match pf.decryptFile d bytes with
    | .error e => .error (protocolError "attachment authentication" e)
    | .ok plain => if plain.length ≠ d.size.toNat then .error (.protocol "attachment size mismatch") else .ok plain

def availableBytes (p : Profile) (group id : Bytes) : Except CliError Bytes :=
  match p.world.store.events.get? id with
  | none => .error (.domain "no attachment in this conversation")
  | some e =>
      if e.groupId ≠ group then .error (.domain "no attachment in this conversation")
      else match p.transfers.get? id with
        | none => .error (.domain "download the attachment first")
        | some row =>
            if row.state ≠ .ready ∧ row.state ≠ .sent then .error (.domain "attachment is not ready for export")
            else do
              let d ← descriptor pf row.descriptor true
              let bytes ← attachmentBytes p id maxFileBytes
              verifiedPlaintext pf d bytes

def liveRecord (st : Store) (e : EventRow) : ArchiveRecord where
  groupId := e.groupId
  eventId := e.eventId
  kind := .event e.kind
  body := e.body
  fileName := none
  file := []
  filePresent := false
  senderIdentity :=
    (e.senderIdentity.or ((e.senderDevice.bind fun d => st.peers.get? (e.groupId, d)).map (·.peerIdentity))).or
      (if own e.kind then st.identity.map (·.identityId) else none)

def archivedRecord (p : Profile) (r : ArchivedRow) : ArchiveRecord where
  groupId := r.groupId
  eventId := r.eventId
  kind := r.kind
  body := r.body
  fileName := r.fileName
  file := ((p.archivedFiles.get? (r.groupId, r.eventId)).map (·.bytes)).getD []
  filePresent := (p.archivedFiles.get? (r.groupId, r.eventId)).isSome
  senderIdentity := r.senderIdentity

/-- Live and imported history, without the notices. A live event wins the same id. -/
def history (p : Profile) : List (Option EventKind × ArchiveRecord) :=
  ((p.world.store.events.rows.filter fun e => e.kind ≠ .devicesChanged).map fun e =>
      (some e.kind, liveRecord p.world.store e)) ++
    (p.archivedEvents.rows.filter fun a =>
        !p.world.store.events.rows.any fun e => e.groupId = a.groupId && e.eventId = a.eventId).map fun a =>
      (none, archivedRecord p a)

def rowSize (r : ArchiveRecord) : Nat :=
  r.body.length + r.file.length + r.groupId.length + r.eventId.length + (RecordKind.text r.kind).length +
    (r.fileName.map (·.length)).getD 0 + (r.senderIdentity.map (·.length)).getD 0 + 256

/-- The lengths are checked before the bodies are read. -/
def archiveSnapshot (p : Profile) : Except CliError (List (Option EventKind × ArchiveRecord)) :=
  if maxArchiveRecords < (history p).length ∨ maxArchivePayloadBytes < ((history p).map fun r => rowSize r.2).sum then
    .error invalid
  else .ok (history p)

def safeName (name : String) : String :=
  let base := (name.toList.reverse.takeWhile fun c => c ≠ '/' && c ≠ '\\').reverse
  let base := ((base.dropWhile (· = '.')).filter fun c => !isControl c).take 120
  if base.isEmpty then "file" else String.ofList base

def fileRecord (r : ArchiveRecord) (kind : EventKind) : ArchiveRecord :=
  let name := (r.fileName.map safeName).getD "file"
  { r with body := utf8 name, fileName := some name, kind := .event kind }

def normalize (r : ArchiveRecord) : Except CliError ArchiveRecord :=
  if r.groupId.isEmpty ∨ 128 < r.groupId.length ∨ r.eventId.length ≠ 16 ∨ r.senderIdentity.any (·.length ≠ 32) ∨
      1024 * 1024 < r.body.length ∨ maxAttachmentBytes < r.file.length then .error invalid
  else match r.kind with
    | .event .sent | .event .received =>
        if validUtf8 r.body = false ∨ r.fileName.isSome ∨ r.filePresent ∨ ¬ r.file.isEmpty then .error invalid else .ok r
    -- neither a path nor a descriptor in the body is restored
    | .event .receivedFile | .event .filePending => .ok (fileRecord r .receivedFile)
    | .event .sentFile | .event .fileOutgoing => .ok (fileRecord r .sentFile)
    | _ => .error invalid

/-- The name and, where there is one, the verified copy of a live file. -/
def withFile (p : Profile) (size : Nat) (live : Option EventKind) (r : ArchiveRecord) : Except CliError ArchiveRecord :=
  match live with
  | none => .ok r
  | some kind =>
      if isFile kind then
        match summary pf p r.eventId kind r.body with
        | none => .ok r
        | some s =>
            if s.state = .transfer .ready ∨ s.state = .transfer .sent then
              if maxArchivePayloadBytes < size + s.size.toNat then .error invalid
              else do
                let bytes ← availableBytes pf p r.groupId r.eventId
                pure { r with fileName := some s.name, file := bytes, filePresent := true }
            else .ok { r with fileName := some s.name }
      else .ok r

/-- The loop of `export` from a size on: the records, and how many files it has and
misses. -/
def collect (p : Profile) : Nat → List (Option EventKind × ArchiveRecord) → Except CliError (List ArchiveRecord × Nat × Nat)
  | _, [] => .ok ([], 0, 0)
  | size, (live, r) :: rest => do
      let r ← withFile pf p size live r
      let r ← normalize r
      let size := size + (r.body.length + r.file.length + 512)
      if maxArchivePayloadBytes < size then .error invalid
      else
        let (records, files, missing) ← collect p size rest
        if r.fileName.isSome then
          if r.file.isEmpty ∧ r.filePresent = false then pure (r :: records, files, missing + 1)
          else pure (r :: records, files + 1, missing)
        else pure (r :: records, files, missing)

structure HistoryArchive where
  version : UInt8
  identityId : Bytes
  exportedAt : UInt64
  records : List ArchiveRecord
deriving DecidableEq, Repr

structure ArchiveExport where
  encrypted : Bytes
  secret : String
  records : Nat
  files : Nat
  unavailableFiles : Nat
deriving DecidableEq, Repr

/-- What `recovery` seals an archive with: a secret drawn for it. -/
structure Seal where
  secret : String
  archiveSeal : HistoryArchive → Except String Bytes

def export_ (p : Profile) (now : UInt64) (k : Seal) : Except CliError ArchiveExport := do
  let row ← match p.world.store.identity with
    | none => .error invalid
    | some row => pure row
  let snapshot ← archiveSnapshot p
  let (records, files, missing) ← collect pf p 0 snapshot
  let encrypted ← match k.archiveSeal ⟨archiveVersion, row.identityId, now, records⟩ with
    | .error _ => .error invalid
    | .ok b => pure b
  if maxArchiveBytes < encrypted.length then .error invalid
  else pure ⟨encrypted, k.secret, records.length, files, missing⟩

/-- `update_event`: a pending file that was downloaded, or found unavailable. -/
def updateEvent (id : Bytes) (kind : EventKind) (body : Bytes) (s : Store) : Store :=
  { s with events := s.events.update (fun e => e.eventId = id) ({ · with kind := kind, body := body }) (EventRow.written_key kind body) }

def updateTransfer (id : Bytes) (f : AttachmentRow → AttachmentRow) (hf : ∀ r, (f r).eventId = r.eventId) (p : Profile) :
    Profile :=
  { p with transfers := p.transfers.update (fun r => r.eventId = id) f hf }

def attachmentState (id : Bytes) (state : TransferState) : Profile → Profile :=
  updateTransfer id ({ · with state := state }) fun _ => rfl

def attachmentOffset (id : Bytes) (offset : UInt64) : Profile → Profile :=
  updateTransfer id ({ · with offset := offset }) fun _ => rfl

def attachmentDescriptor (id descriptor : Bytes) : Profile → Profile :=
  updateTransfer id ({ · with descriptor := descriptor }) fun _ => rfl

def attachmentClearBytes (id : Bytes) (p : Profile) : Profile :=
  attachmentOffset id 0 { p with chunks := p.chunks.delete fun c => c.eventId = id }

/-- The file of an imported record goes with the record. -/
def importFile (r : ArchiveRecord) (p : Profile) : Except ClientError Profile :=
  if r.filePresent ∨ ¬ r.file.isEmpty then
    match p.archivedFiles.insert ⟨r.groupId, r.eventId, r.file⟩ with
    | some t => .ok { p with archivedFiles := t }
    | none => .error (.sqlite (.constraint "archived_files.group_id, archived_files.event_id"))
  else .ok p

/-- `archive_import`: an earlier record is never overwritten. -/
def archiveImport : List ArchiveRecord → Profile → Except ClientError Profile
  | [], p => .ok p
  | r :: rest, p =>
      match p.archivedEvents.insert ⟨r.groupId, r.eventId, r.kind, r.body, r.fileName, r.senderIdentity⟩ with
      | none => archiveImport rest p
      | some t => do
          let p ← importFile r { p with archivedEvents := t }
          archiveImport rest p

def normalizeAll : List ArchiveRecord → Except CliError (List ArchiveRecord)
  | [] => .ok []
  | r :: rest => do
      let r ← normalize r
      let rest ← normalizeAll rest
      pure (r :: rest)

/-- `archives::import`, once the file is opened. -/
def import_ (a : HistoryArchive) (p : Profile) : Except CliError Profile := do
  if maxArchiveRecords < a.records.length ∨ a.identityId.length ≠ 32 ∨
      Client.identityId p.world.store ≠ some a.identityId then .error invalid
  else
    let records ← normalizeAll a.records
    match archiveImport records p with
    | .error e => .error (storageError "archive" e.message)
    | .ok p => pure p

/-- The transfer is done with: neither `cancel` nor `resume` touches it, and what runs
asks before each write that it still goes on (`active`). -/
def finished (p : Profile) (id : Bytes) : Bool :=
  (p.transfers.get? id).any fun r => r.state = .ready || r.state = .sent

inductive Deed where
  | act (a : Act)
  /-- `send_file` and the queue of attachments -/
  | recordEvent (group id : Bytes) (kind : EventKind) (body : Bytes) (sender : Option Delivery.EventSender)
  | updateEvent (id : Bytes) (kind : EventKind) (body : Bytes)
  /-- `ensure_row` and the queue of attachments -/
  | attachmentCreate (id : Bytes) (outgoing : Bool) (name : String) (size : UInt64) (descriptor : Bytes)
  | attachmentState (id : Bytes) (state : TransferState)
  | attachmentOffset (id : Bytes) (offset : UInt64)
  | attachmentDescriptor (id descriptor : Bytes)
  | attachmentChunk (chunk : ChunkRow)
  | attachmentClearBytes (id : Bytes)
  | import_ (a : HistoryArchive)

def onEvents (f : Store → Store) (p : Profile) : Profile := { p with world := { p.world with store := f p.world.store } }

/-- A write to a transfer that is not done with. -/
def onTransfer (id : Bytes) (f : Profile → Profile) (p : Profile) : Profile := if finished p id then p else f p

def step (s : Session) (p : Profile) : Deed → Profile
  | .act a => { p with world := Act.step pf s p.world a }
  | .recordEvent group id kind body sender => onEvents (fun st => (Delivery.recordEventBy group id kind body sender st).2) p
  | .updateEvent id kind body => onEvents (updateEvent id kind body) p
  | .attachmentCreate id outgoing name size descriptor =>
      { p with transfers := p.transfers.insertOrIgnore ⟨id, outgoing, name, size, .pending, descriptor, 0⟩ }
  | .attachmentState id state => onTransfer id (attachmentState id state) p
  | .attachmentOffset id offset => onTransfer id (attachmentOffset id offset) p
  | .attachmentDescriptor id descriptor => onTransfer id (attachmentDescriptor id descriptor) p
  | .attachmentChunk chunk => onTransfer chunk.eventId (fun p => { p with chunks := p.chunks.insertOrIgnore chunk }) p
  | .attachmentClearBytes id => onTransfer id (attachmentClearBytes id) p
  | .import_ a => (import_ a p).toOption.getD p

end Archive

end Arveil

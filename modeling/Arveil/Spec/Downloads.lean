import Arveil.Spec.Platform

/-! The files a profile downloads (`download_pending`, `attachments.rs`). Partial and whole
files lie in one directory under names the senders chose. A run of `download_pending` may
be interrupted between any two of its steps, and a write may be cut short. -/

namespace Arveil.Downloads

/-- SHA-256, and AES-256-GCM with the associated data of files. -/
structure FileCipher where
  sha256 : Bytes → Bytes
  openGcm : (fileKey nonce ciphertext : Bytes) → Option Bytes

/-- Verify the hash, then authenticate and decrypt. -/
def decrypt (fc : FileCipher) (d : FileDescriptor) (ciphertext : Bytes) : Except String Bytes :=
  if fc.sha256 ciphertext ≠ d.ciphertextHash then .error "attachment: ciphertext hash mismatch"
  else if d.fileKey.length ≠ 32 ∨ d.nonce.length ≠ 12 then .error "attachment: authentication failed"
  else match fc.openGcm d.fileKey d.nonce ciphertext with
    | none => .error "attachment: authentication failed"
    | some plain => .ok plain

def partName (d : FileDescriptor) : String := d.safeName ++ ".part"

inductive Reply where
  | blobData (totalSize : UInt64) (data : Bytes)
  | other (text : String)
  | transport
  | refused (text : String)
deriving DecidableEq, Repr

/-- A write is done, or cut short after so many bytes. -/
inductive Write where
  | done
  | torn (n : Nat) (text : String)
deriving DecidableEq, Repr

/-- Where a run is with the event at hand. -/
inductive Phase where
  | next
  | fetch (id : Bytes) (d : FileDescriptor) (ciphertext : Bytes)
  | verify (id : Bytes) (d : FileDescriptor) (ciphertext : Bytes)
  | written (id : Bytes) (d : FileDescriptor)
  | outcome (id : Bytes) (d : FileDescriptor) (r : Except String Unit)

structure Run where
  pending : List (Bytes × Bytes)
  phase : Phase

/-- Bytes of a blob that came for an event at an offset. -/
structure Fetched where
  id : Bytes
  offset : Nat
  data : Bytes
deriving DecidableEq, Repr

structure World where
  events : Table EventRow.eventId
  managed : Bytes → Bool
  files : String → Option Bytes
  run : Option Run
  /-- what was announced, what came for it, and what failed its check, in all that happened -/
  announced : List (Bytes × Bytes)
  fetched : List Fetched
  failed : List (Bytes × Bytes)

@[irreducible] def put (files : String → Option Bytes) (name : String) (b : Option Bytes) : String → Option Bytes :=
  fun name' => if name' = name then b else files name'

def World.write (w : World) (name : String) (b : Option Bytes) : World := { w with files := put w.files name b }

def World.updateEvent (w : World) (id : Bytes) (kind : EventKind) (body : Bytes) : World :=
  { w with events := w.events.update (fun e => e.eventId = id) (fun e => { e with kind := kind, body := body }) (EventRow.written_key kind body) }

inductive Step where
  | announce (row : EventRow)
  | manage (id : Bytes)
  | start
  | advance (reply : Reply) (write : Write) (removed : Bool)
  | stop

variable (pf : Platform) (fc : FileCipher) (dir : String)

/-- `dir.join(d.safe_name())`, as text -/
def target (d : FileDescriptor) : Bytes := utf8 (dir ++ "/" ++ d.safeName)

def takeNext (w : World) : List (Bytes × Bytes) → World
  | [] => { w with run := none }
  | (id, body) :: rest =>
    -- managed transfers keep their data and state in encrypted storage
    if w.managed id then { w with run := some ⟨rest, .next⟩ }
    else match pf.fileDescriptor body with
      | .error e => { w.updateEvent id .fileUnavailable (utf8 ("bad descriptor: " ++ e)) with run := some ⟨rest, .next⟩ }
      | .ok d =>
        let ciphertext := (w.files (partName d)).getD []
        -- not ours, or corrupt: start again rather than guess
        let ciphertext := if (d.size + 16).toNat < ciphertext.length then [] else ciphertext
        { w with run := some ⟨rest, .fetch id d ciphertext⟩ }

def takeReply (w : World) (rest : List (Bytes × Bytes)) (id : Bytes) (d : FileDescriptor) (ciphertext : Bytes) (reply : Reply)
    (write : Write) : World :=
  match reply with
  | .blobData totalSize data =>
    if data.isEmpty then { w with run := some ⟨rest, .verify id d ciphertext⟩ }
    else
      let w := { w with fetched := ⟨id, ciphertext.length, data⟩ :: w.fetched }
      let ciphertext := ciphertext ++ data
      match write with
      | .torn n _ => { w.write (partName d) (some (ciphertext.take n)) with run := none }
      | .done =>
        { w.write (partName d) (some ciphertext) with
          run := some ⟨rest, if totalSize.toNat ≤ ciphertext.length then .verify id d ciphertext else .fetch id d ciphertext⟩ }
  | .other text => { w with run := some ⟨rest, .outcome id d (.error ("unexpected reply " ++ text))⟩ }
  | .transport => { w with run := none }
  | .refused text => { w with run := some ⟨rest, .outcome id d (.error text)⟩ }

/-- The whole ciphertext is checked, and the file written. -/
def verifyWhole (w : World) (rest : List (Bytes × Bytes)) (id : Bytes) (d : FileDescriptor) (ciphertext : Bytes) (write : Write) : World :=
  match decrypt fc d ciphertext with
  | .error e => { w with failed := (id, ciphertext) :: w.failed, run := some ⟨rest, .outcome id d (.error e)⟩ }
  | .ok plain =>
    if d.safeName = "." ∨ d.safeName = ".." then
      { w with run := some ⟨rest, .outcome id d (.error "Is a directory (os error 21)")⟩ }
    else match write with
      | .torn n text => { w.write d.safeName (some (plain.take n)) with run := some ⟨rest, .outcome id d (.error text)⟩ }
      | .done => { w.write d.safeName (some plain) with run := some ⟨rest, .written id d⟩ }

def recordOutcome (w : World) (rest : List (Bytes × Bytes)) (id : Bytes) (d : FileDescriptor) : Except String Unit → World
  | .ok () => { w.updateEvent id .receivedFile (target dir d) with run := some ⟨rest, .next⟩ }
  | .error reason =>
    { w.updateEvent id .fileUnavailable (utf8 (d.safeName ++ " (" ++ reason ++ ")")) with run := some ⟨rest, .next⟩ }

def step (w : World) : Step → World
  | .announce row =>
    if row.kind ≠ .filePending then w
    else match w.events.insert row with
      | none => w
      | some t => { w with events := t, announced := (row.eventId, row.body) :: w.announced }
  | .manage id => { w with managed := fun x => x = id || w.managed x }
  | .start =>
    match w.run with
    | some _ => w
    | none =>
      { w with run := some ⟨(w.events.rows.filter fun e => e.kind = .filePending).map fun e => (e.eventId, e.body), .next⟩ }
  | .stop => { w with run := none }
  | .advance reply write removed =>
    match w.run with
    | none => w
    | some ⟨rest, .next⟩ => takeNext pf w rest
    | some ⟨rest, .fetch id d ciphertext⟩ => takeReply w rest id d ciphertext reply write
    | some ⟨rest, .verify id d ciphertext⟩ => verifyWhole fc w rest id d ciphertext write
    | some ⟨rest, .written id d⟩ =>
      { (if removed then w.write (partName d) none else w) with run := some ⟨rest, .outcome id d (.ok ())⟩ }
    | some ⟨rest, .outcome id d r⟩ => recordOutcome dir w rest id d r

/-- A profile before the first announcement. -/
structure Fresh (w : World) : Prop where
  events : ∀ e ∈ w.events, e.kind ≠ .filePending ∧ e.kind ≠ .receivedFile
  files : ∀ name, w.files name = none
  idle : w.run = none
  nothing : w.announced = [] ∧ w.fetched = [] ∧ w.failed = []

/-- Bytes that came for this event alone, each part at its own offset, cut short or not. -/
inductive Own (fetched : List Fetched) (id : Bytes) : Bytes → Prop where
  | none : Own fetched id []
  | more {b data : Bytes} (h : Own fetched id b) (hdata : ⟨id, b.length, data⟩ ∈ fetched) : Own fetched id (b ++ data)
  | cut {b : Bytes} (h : Own fetched id b) (n : Nat) : Own fetched id (b.take n)

/-- Every received file lies at its recorded path, as its own descriptor has it. -/
def Held (w : World) : Prop :=
  ∀ e ∈ w.events, e.kind = .receivedFile → ∃ body d ciphertext plain, (e.eventId, body) ∈ w.announced ∧ pf.fileDescriptor body = .ok d ∧
    e.body = target dir d ∧ decrypt fc d ciphertext = .ok plain ∧ w.files d.safeName = some plain

/-- What failed its check was made of its own bytes. -/
def OwnFailures (w : World) : Prop := ∀ f ∈ w.failed, Own w.fetched f.1 f.2

/-- No name is the other's, nor the other's with `.part` at its end. -/
def Separate (d d' : FileDescriptor) : Prop := d.safeName ≠ d'.safeName ∧ d.safeName ≠ partName d' ∧ partName d ≠ d'.safeName

/-- The name of a new announcement is separate from those before it. -/
def SeparateNames (w : World) : Step → Prop
  | .announce row => ∀ d, pf.fileDescriptor row.body = .ok d → ∀ a ∈ w.announced, ∀ d', pf.fileDescriptor a.2 = .ok d' → Separate d d'
  | _ => True

end Arveil.Downloads

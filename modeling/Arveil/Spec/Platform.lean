import Arveil.Spec.Cards
import Arveil.Spec.Delivery
import Arveil.Spec.Routes

/-! What the application calls outside this repository: the MLS library, HPKE
and the CBOR of application events. Each is a function of a `Platform`. -/

namespace Arveil

/-- A leaf of a group; `deviceId` is the identifier of a basic credential. -/
structure Member where
  index : UInt32
  deviceId : Option Bytes
  signatureKey : Bytes
deriving DecidableEq, Repr

inductive WireFormat where
  | publicMessage
  | privateMessage
  | welcome
  | groupInfo
  | keyPackage
deriving DecidableEq, Repr

def WireFormat.debug : WireFormat → String
  | .publicMessage => "PublicMessage"
  | .privateMessage => "PrivateMessage"
  | .welcome => "Welcome"
  | .groupInfo => "GroupInfo"
  | .keyPackage => "KeyPackage"

structure MlsMessage where
  wireFormat : WireFormat
  groupId : Option Bytes
  content : Bytes
deriving DecidableEq, Repr

inductive ReceivedMessage where
  | applicationMessage (senderIndex : UInt32) (data : Bytes)
  | commit (committer : UInt32)
  | other (description : String)
deriving DecidableEq, Repr

structure AppEvent where
  kind : String
  body : Bytes
deriving DecidableEq, Repr

/-- The first event of a conversation someone started. -/
structure Hello where
  invitation : Option Bytes
  secret : Option Bytes
  name : Option String
deriving DecidableEq, Repr

structure FileDescriptor where
  version : UInt8
  blobId : Bytes
  readCapability : Bytes
  fileKey : Bytes
  nonce : Bytes
  ciphertextHash : Bytes
  size : UInt64
  name : String
  mime : String
deriving DecidableEq, Repr

structure EnvelopeContext where
  version : UInt8
  realmId : Bytes
  mailboxId : Bytes
  deliveryId : Bytes
deriving DecidableEq, Repr

structure InnerPayload where
  version : UInt8
  kind : UInt8
  payload : Bytes
  padding : Bytes
deriving DecidableEq, Repr

structure Proposals where
  adds : List MlsMessage
  removes : List UInt32
deriving DecidableEq, Repr

structure CommitOutput where
  commitMessage : MlsMessage
  welcomeMessages : List MlsMessage
deriving DecidableEq, Repr

/-- The libraries under the application. A group's `state` is what MLS persists
for it, the epochs it keeps included; MLS asks the group policy which devices are
revoked when it processes a message. -/
structure Platform where
  crypto : Crypto
  mlsFromBytes : Bytes → Except String MlsMessage
  /-- the joined group and the key package it used up -/
  mlsJoin : List KeyPackageRow → MlsMessage → Except String (Bytes × Option Bytes)
  mlsGroupNotFound : String
  mlsProcess : (revoked : Bytes → Bool) → Bytes → MlsMessage → Except String (Bytes × ReceivedMessage)
  mlsGroupId : Bytes → Bytes
  mlsEpoch : Bytes → UInt64
  mlsRoster : Bytes → List Member
  /-- `encrypt_application_message` with the entropy it draws -/
  mlsEncrypt : (entropy state data : Bytes) → Except String (Bytes × Bytes)
  mlsOwnIndex : Bytes → UInt32
  /-- the version in the policy extension of the group context -/
  mlsPolicy : Bytes → Except String (Option UInt8)
  /-- how MLS words an error of the group policy -/
  mlsRulesError : String → String
  mlsPropose : (state : Bytes) → Proposals → Except String Unit
  /-- `build`, after the group policy let the proposals pass; the group with the commit pending -/
  mlsBuild : (entropy state : Bytes) → Proposals → Except String (Bytes × CommitOutput)
  mlsApply : Bytes → Except String Bytes
  mlsToBytes : MlsMessage → Except String Bytes
  /-- `as_key_package` and its `signing_identity`: the signature key and the identifier of a basic credential -/
  mlsSigningIdentity : MlsMessage → Option (Bytes × Option Bytes)
  encodeEvent : AppEvent → Bytes
  decodeEvent : Bytes → Except String AppEvent
  decodeHello : Bytes → Except String Hello
  decodeFile : Bytes → Except String FileDescriptor
  /-- `attachments::decrypt`: the hash and the AEAD tag are checked -/
  decryptFile : FileDescriptor → (ciphertext : Bytes) → Except String Bytes
  encodeChange : Client.DeviceChange → Bytes
  /-- `envelope::seal`: pad to a bucket and encrypt -/
  sealEnvelope : (entropy publicKey : Bytes) → EnvelopeContext → (kind : UInt8) → (payload : Bytes) →
    Except String (Bytes × Bytes)
  hpkeOpen : (secretKey enc : Bytes) → EnvelopeContext → (ciphertext : Bytes) → Except String Bytes
  decodeInner : Bytes → Except String InnerPayload

/-- What a client keeps at hand while it runs. -/
structure Session where
  device : StoredDevice
  realmId : Bytes
  identityId : Bytes
deriving DecidableEq, Repr

abbrev App (α : Type) := Prog Store CliError α

/-- `map_err(storage_error(context))` -/
def storage {α : Type} (context : String) (p : Client α) : App α :=
  Prog.mapError (fun e => storageError context e.message) p

/-- The same over the delivery tables, which hand out the database's own errors. -/
def delivery {α : Type} (context : String) (p : Sql α) : App α :=
  Prog.mapError (fun e => storageError context e.message) p

/-- `map_err(domain_error(context))` -/
def domain {α : Type} (context : String) (p : Client α) : App α :=
  Prog.mapError (fun e => domainError context e.message) p

def liftProtocol {α : Type} (context : String) (r : Except String α) : App α :=
  Prog.mapError (protocolError context) (Prog.ofExcept r)

def liftDomain {α : Type} (context : String) (r : Except String α) : App α :=
  Prog.mapError (domainError context) (Prog.ofExcept r)

namespace Platform

variable (pf : Platform)

def loadGroup (groupId : Bytes) : App Bytes := do
  match (← Prog.read fun s => s.mlsGroups.get? groupId) with
  | some row => pure row.state
  | none => Prog.fail (storageError "mls load" pf.mlsGroupNotFound)

/-- `write_to_storage`; a group just joined drops the key package it used. -/
def writeGroup (state : Bytes) (used : Option Bytes) (s : Store) : Store :=
  { s with
    mlsGroups := s.mlsGroups.upsert (fun r n => { r with state := n.state }) (fun _ _ => rfl)
      ⟨pf.mlsGroupId state, state⟩
    mlsKeyPackages := s.mlsKeyPackages.delete fun k => used = some k.id }

def memberAtIndex (state : Bytes) (leaf : UInt32) : Option Member :=
  (pf.mlsRoster state).find? fun m => m.index = leaf

/-- `FileDescriptor::decode` -/
def fileDescriptor (body : Bytes) : Except String FileDescriptor :=
  match pf.decodeFile body with
  | .error e => .error ("attachment: descriptor: " ++ e)
  | .ok d =>
      if d.version ≠ 1 then .error ("attachment: descriptor: unsupported version " ++ toString d.version)
      else .ok d

/-- `envelope::open` -/
def openEnvelope (secretKey : Bytes) (ctx : EnvelopeContext) (enc ciphertext : Bytes) : Except String InnerPayload :=
  match pf.hpkeOpen secretKey enc ctx ciphertext with
  | .error e => .error ("envelope: hpke: " ++ e)
  | .ok plaintext =>
      match pf.decodeInner plaintext with
      | .error e => .error ("envelope: decode: " ++ e)
      | .ok inner =>
          if inner.version ≠ 1 then .error ("envelope: unsupported version " ++ toString inner.version)
          else .ok inner

end Platform

/-- File name safe to write under a downloads directory: base name only, no
leading dots, no control characters, bounded length. -/
def FileDescriptor.safeName (d : FileDescriptor) : String :=
  let base := (d.name.toList.reverse.takeWhile fun c => c ≠ '/' && c ≠ '\\').reverse
  let base := ((base.dropWhile (· = '.')).filter fun c => !isControl c).take 120
  if base.isEmpty then "file" else String.ofList base

end Arveil

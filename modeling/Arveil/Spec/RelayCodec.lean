import Arveil.Spec.Codec

/-! Frames as the relay writes and reads them (`relay/internal/channel/codec.go`,
`invitations.go`). One struct holds the fields of every kind; a slice is nil or has elements,
and nil is written as null. -/

namespace Arveil.RelayCodec

open Cbor (Item struct)
open Codec (u64 u32 u16)

/-- The kinds, named exactly as the core's variants. -/
inductive Kind where
  | ping | pong | endpointListGet | endpointList | inviteRedeem | inviteRedeemed | credentialPut | manifestPut
  | manifestGet | credentialGet | credentialFound | recoverIdentity | notifyHintSet | watchKeySet | mailboxWatch
  | mailboxWakeup | pairBegin | pairStarted | pairPut | pairGet | pairFetched | recovered | manifestLatest | ack | error
  | mailboxCreate | mailboxCreated | envelopePut | envelopeAccepted | envelopeFetch | envelopes | envelopeAck
  | blobUploadBegin | blobUploadStarted | blobChunk | blobCommit | blobCommitted | blobFetch | blobResume | blobOffset
  | blobData | keyPackagesPublish | keyPackagesClaim | keyPackagesStatus | keyPackagesAvail | keyPackageClaimed
  | invitePolicyGet | invitePolicy | inviteCreate | inviteList | inviteGet | inviteRevoke | inviteAccept | invitation
  | invitations | keyPackagesClaimOnce
  | other (name : String)
deriving DecidableEq, Repr

def Kind.name : Kind → String
  | .ping => "Ping"
  | .pong => "Pong"
  | .endpointListGet => "EndpointListGet"
  | .endpointList => "EndpointList"
  | .inviteRedeem => "InviteRedeem"
  | .inviteRedeemed => "InviteRedeemed"
  | .credentialPut => "CredentialPut"
  | .manifestPut => "ManifestPut"
  | .manifestGet => "ManifestGet"
  | .credentialGet => "CredentialGet"
  | .credentialFound => "CredentialFound"
  | .recoverIdentity => "RecoverIdentity"
  | .notifyHintSet => "NotifyHintSet"
  | .watchKeySet => "WatchKeySet"
  | .mailboxWatch => "MailboxWatch"
  | .mailboxWakeup => "MailboxWakeup"
  | .pairBegin => "PairBegin"
  | .pairStarted => "PairStarted"
  | .pairPut => "PairPut"
  | .pairGet => "PairGet"
  | .pairFetched => "PairFetched"
  | .recovered => "Recovered"
  | .manifestLatest => "ManifestLatest"
  | .ack => "Ack"
  | .error => "Error"
  | .mailboxCreate => "MailboxCreate"
  | .mailboxCreated => "MailboxCreated"
  | .envelopePut => "EnvelopePut"
  | .envelopeAccepted => "EnvelopeAccepted"
  | .envelopeFetch => "EnvelopeFetch"
  | .envelopes => "Envelopes"
  | .envelopeAck => "EnvelopeAck"
  | .blobUploadBegin => "BlobUploadBegin"
  | .blobUploadStarted => "BlobUploadStarted"
  | .blobChunk => "BlobChunk"
  | .blobCommit => "BlobCommit"
  | .blobCommitted => "BlobCommitted"
  | .blobFetch => "BlobFetch"
  | .blobResume => "BlobResume"
  | .blobOffset => "BlobOffset"
  | .blobData => "BlobData"
  | .keyPackagesPublish => "KeyPackagesPublish"
  | .keyPackagesClaim => "KeyPackagesClaim"
  | .keyPackagesStatus => "KeyPackagesStatus"
  | .keyPackagesAvail => "KeyPackagesAvailable"
  | .keyPackageClaimed => "KeyPackageClaimed"
  | .invitePolicyGet => "InvitePolicyGet"
  | .invitePolicy => "InvitePolicy"
  | .inviteCreate => "InviteCreate"
  | .inviteList => "InviteList"
  | .inviteGet => "InviteGet"
  | .inviteRevoke => "InviteRevoke"
  | .inviteAccept => "InviteAccept"
  | .invitation => "Invitation"
  | .invitations => "Invitations"
  | .keyPackagesClaimOnce => "KeyPackagesClaimOnce"
  | .other name => name

def kinds : List Kind :=
  [.ping, .pong, .endpointListGet, .endpointList, .inviteRedeem, .inviteRedeemed, .credentialPut, .manifestPut,
   .manifestGet, .credentialGet, .credentialFound, .recoverIdentity, .notifyHintSet, .watchKeySet, .mailboxWatch,
   .mailboxWakeup, .pairBegin, .pairStarted, .pairPut, .pairGet, .pairFetched, .recovered, .manifestLatest, .ack, .error,
   .mailboxCreate, .mailboxCreated, .envelopePut, .envelopeAccepted, .envelopeFetch, .envelopes, .envelopeAck,
   .blobUploadBegin, .blobUploadStarted, .blobChunk, .blobCommit, .blobCommitted, .blobFetch, .blobResume, .blobOffset,
   .blobData, .keyPackagesPublish, .keyPackagesClaim, .keyPackagesStatus, .keyPackagesAvail, .keyPackageClaimed,
   .invitePolicyGet, .invitePolicy, .inviteCreate, .inviteList, .inviteGet, .inviteRevoke, .inviteAccept, .invitation,
   .invitations, .keyPackagesClaimOnce]

def Kind.ofName (name : String) : Kind := (kinds.find? fun k => k.name = name).getD (.other name)

structure EnvelopeItem where
  seq : UInt64 := 0
  deliveryId : Option Bytes := none
  hpkeEnc : Option Bytes := none
  ciphertext : Option Bytes := none
deriving DecidableEq, Repr

structure InvitationRecord where
  sequence : UInt64 := 0
  id : Option Bytes := none
  createdAt : UInt64 := 0
  expiresAt : UInt64 := 0
  state : String := ""
  claimedIdentity : Option Bytes := none
  claimedAt : UInt64 := 0
deriving DecidableEq, Repr

structure Payload where
  canInvite : Bool := false
  serverTime : UInt64 := 0
  ttl : UInt64 := 0
  tokenHash : Option Bytes := none
  invitationId : Option Bytes := none
  invitation : InvitationRecord := {}
  invitations : Option (List InvitationRecord) := none
  kind : Kind := .other ""
  signed : Option Bytes := none
  code : UInt16 := 0
  message : String := ""
  token : Option Bytes := none
  credential : Option Bytes := none
  manifest : Option Bytes := none
  credentialHash : Option Bytes := none
  identityId : Option Bytes := none
  deviceId : Option Bytes := none
  requestKey : Option Bytes := none
  mailboxId : Option Bytes := none
  readCapability : Option Bytes := none
  writeCapability : Option Bytes := none
  deliveryId : Option Bytes := none
  requestedExpiry : UInt64 := 0
  effectiveExpiry : UInt64 := 0
  hpkeEnc : Option Bytes := none
  ciphertext : Option Bytes := none
  cursor : UInt64 := 0
  previousSequence : UInt64 := 0
  pairId : Option Bytes := none
  capability : Option Bytes := none
  slot : String := ""
  url : String := ""
  watchKey : Option Bytes := none
  count : UInt32 := 0
  expiresAt : UInt64 := 0
  nextCursor : UInt64 := 0
  limit : UInt16 := 0
  items : Option (List EnvelopeItem) := none
  deliveryIds : Option (List (Option Bytes)) := none
  keyPackages : Option (List (Option Bytes)) := none
  keyPackage : Option Bytes := none
  size : UInt64 := 0
  blobId : Option Bytes := none
  offset : UInt64 := 0
  data : Option Bytes := none
  ciphertextHash : Option Bytes := none
  length : UInt32 := 0
  totalSize : UInt64 := 0
deriving DecidableEq, Repr

structure Frame where
  id : UInt64
  payload : Payload
deriving DecidableEq, Repr

inductive CodecError where
  | frameTooLarge
  | unknownKind (name : String)
  | cbor
  | unknownUnitVariant (name : String)
  | neitherNameNorMap
  | entries (n : Nat)
  | body (name : String)
  | unknownVariant (name : String)
deriving DecidableEq, Repr

def byteSlice : Option Bytes → Item
  | none => .null
  | some b => .bytes b

def slice {α : Type} (element : α → Item) : Option (List α) → Item
  | none => .null
  | some as => .array (as.map element)

/-- An absent byte string is written as an empty one, never as null. -/
def nonNil (b : Option Bytes) : Option Bytes := some (b.getD [])

def nonNilSlice {α : Type} (as : Option (List α)) : Option (List α) := some (as.getD [])

def EnvelopeItem.item (e : EnvelopeItem) : Item :=
  struct [("seq", u64 e.seq), ("delivery_id", byteSlice e.deliveryId), ("hpke_enc", byteSlice e.hpkeEnc),
    ("ciphertext", byteSlice e.ciphertext)]

def InvitationRecord.item (i : InvitationRecord) : Item :=
  struct [("sequence", u64 i.sequence), ("id", byteSlice i.id), ("created_at", u64 i.createdAt), ("expires_at", u64 i.expiresAt),
    ("state", .text i.state), ("claimed_identity", byteSlice i.claimedIdentity), ("claimed_at", u64 i.claimedAt)]

def nonNilInvitation (i : InvitationRecord) : InvitationRecord :=
  { i with id := nonNil i.id, claimedIdentity := nonNil i.claimedIdentity }

def tagged (k : Kind) (fields : List (String × Item)) : Option Item := some (struct [(k.name, struct fields)])

def encodeInvitationPayload (p : Payload) : Option Item :=
  match p.kind with
  | .invitePolicyGet => some (.text p.kind.name)
  | .invitePolicy => tagged .invitePolicy [("can_invite", .bool p.canInvite), ("server_time", u64 p.serverTime), ("ttl", u64 p.ttl)]
  | .inviteCreate => tagged .inviteCreate [("request_key", byteSlice (nonNil p.requestKey)),
      ("token_hash", byteSlice (nonNil p.tokenHash)), ("ttl", u64 p.ttl)]
  | .inviteList => tagged .inviteList [("cursor", u64 p.cursor), ("limit", u16 p.limit)]
  | .inviteGet => tagged .inviteGet [("invitation_id", byteSlice (nonNil p.invitationId))]
  | .inviteRevoke => tagged .inviteRevoke [("invitation_id", byteSlice (nonNil p.invitationId))]
  | .inviteAccept => tagged .inviteAccept [("token", byteSlice (nonNil p.token))]
  | .invitation => tagged .invitation [("invitation", (nonNilInvitation p.invitation).item)]
  | .invitations => tagged .invitations [
      ("invitations", .array ((p.invitations.getD []).map fun i => (nonNilInvitation i).item)), ("next_cursor", u64 p.nextCursor)]
  | .keyPackagesClaimOnce => tagged .keyPackagesClaimOnce [("request_key", byteSlice (nonNil p.requestKey)),
      ("identity_id", byteSlice (nonNil p.identityId)), ("device_id", byteSlice (nonNil p.deviceId))]
  | _ => none

def payloadItem (p : Payload) : Option Item :=
  match p.kind with
  | .mailboxCreate =>
    -- without a request key this is the older form, and stays a bare variant name
    if (p.requestKey.getD []).length = 0 then some (.text p.kind.name)
    else tagged .mailboxCreate [("request_key", byteSlice p.requestKey), ("read_capability", byteSlice p.readCapability),
      ("write_capability", byteSlice p.writeCapability)]
  | .ping | .pong | .endpointListGet | .ack | .pairBegin | .keyPackagesStatus | .mailboxWatch | .mailboxWakeup => some (.text p.kind.name)
  | .keyPackagesAvail => tagged .keyPackagesAvail [("count", u32 p.count)]
  | .notifyHintSet => tagged .notifyHintSet [("url", .text p.url)]
  | .watchKeySet => tagged .watchKeySet [("key", byteSlice (nonNil p.watchKey))]
  | .pairStarted => tagged .pairStarted [("pair_id", byteSlice p.pairId), ("capability", byteSlice p.capability),
      ("expires_at", u64 p.expiresAt)]
  | .pairPut => tagged .pairPut [("pair_id", byteSlice p.pairId), ("capability", byteSlice p.capability), ("slot", .text p.slot),
      ("data", byteSlice (nonNil p.data))]
  | .pairGet => tagged .pairGet [("pair_id", byteSlice p.pairId), ("capability", byteSlice p.capability), ("slot", .text p.slot)]
  | .pairFetched => tagged .pairFetched [("data", byteSlice (nonNil p.data))]
  | .blobUploadBegin => tagged .blobUploadBegin [("size", u64 p.size)]
  | .blobUploadStarted => tagged .blobUploadStarted [("blob_id", byteSlice p.blobId), ("read_capability", byteSlice p.readCapability)]
  | .blobChunk => tagged .blobChunk [("blob_id", byteSlice p.blobId), ("offset", u64 p.offset), ("data", byteSlice p.data)]
  | .blobCommit => tagged .blobCommit [("blob_id", byteSlice p.blobId), ("ciphertext_hash", byteSlice p.ciphertextHash),
      ("requested_expiry", u64 p.requestedExpiry)]
  | .blobCommitted => tagged .blobCommitted [("effective_expiry", u64 p.effectiveExpiry)]
  | .blobResume => tagged .blobResume [("blob_id", byteSlice p.blobId)]
  | .blobOffset => tagged .blobOffset [("offset", u64 p.offset)]
  | .blobFetch => tagged .blobFetch [("blob_id", byteSlice p.blobId), ("read_capability", byteSlice p.readCapability),
      ("offset", u64 p.offset), ("length", u32 p.length)]
  | .blobData => tagged .blobData [("total_size", u64 p.totalSize), ("data", byteSlice p.data)]
  | .keyPackagesPublish => tagged .keyPackagesPublish [("key_packages", slice byteSlice (nonNilSlice p.keyPackages))]
  | .keyPackagesClaim => tagged .keyPackagesClaim [("identity_id", byteSlice p.identityId), ("device_id", byteSlice p.deviceId)]
  | .keyPackageClaimed => tagged .keyPackageClaimed [("key_package", byteSlice p.keyPackage)]
  | .mailboxCreated => tagged .mailboxCreated [("mailbox_id", byteSlice p.mailboxId), ("read_capability", byteSlice p.readCapability),
      ("write_capability", byteSlice p.writeCapability)]
  | .envelopePut => tagged .envelopePut [("mailbox_id", byteSlice p.mailboxId), ("write_capability", byteSlice p.writeCapability),
      ("delivery_id", byteSlice p.deliveryId), ("requested_expiry", u64 p.requestedExpiry), ("hpke_enc", byteSlice p.hpkeEnc),
      ("ciphertext", byteSlice p.ciphertext)]
  | .envelopeAccepted => tagged .envelopeAccepted [("effective_expiry", u64 p.effectiveExpiry)]
  | .envelopeFetch => tagged .envelopeFetch [("mailbox_id", byteSlice p.mailboxId), ("read_capability", byteSlice p.readCapability),
      ("cursor", u64 p.cursor), ("limit", u16 p.limit)]
  | .envelopes => tagged .envelopes [("items", slice EnvelopeItem.item (nonNilSlice p.items)), ("next_cursor", u64 p.nextCursor)]
  | .envelopeAck => tagged .envelopeAck [("mailbox_id", byteSlice p.mailboxId), ("read_capability", byteSlice p.readCapability),
      ("delivery_ids", slice byteSlice (nonNilSlice p.deliveryIds))]
  | .inviteRedeem => tagged .inviteRedeem [("token", byteSlice p.token), ("credential", byteSlice p.credential),
      ("manifest", byteSlice p.manifest)]
  | .inviteRedeemed => tagged .inviteRedeemed [("identity_id", byteSlice p.identityId)]
  | .credentialPut => tagged .credentialPut [("credential", byteSlice p.credential)]
  | .manifestPut => tagged .manifestPut [("manifest", byteSlice p.manifest)]
  | .manifestGet => tagged .manifestGet [("identity_id", byteSlice p.identityId)]
  | .credentialGet => tagged .credentialGet [("identity_id", byteSlice p.identityId), ("credential_hash", byteSlice p.credentialHash)]
  | .credentialFound => tagged .credentialFound [("credential", byteSlice (nonNil p.credential))]
  | .recoverIdentity => tagged .recoverIdentity [("credential", byteSlice p.credential), ("manifest", byteSlice p.manifest)]
  | .recovered => tagged .recovered [("identity_id", byteSlice p.identityId), ("previous_sequence", u64 p.previousSequence)]
  | .manifestLatest => tagged .manifestLatest [("manifest", byteSlice (nonNil p.manifest))]
  | .endpointList => tagged .endpointList [("signed", byteSlice p.signed)]
  | .error => tagged .error [("code", u16 p.code), ("message", .text p.message)]
  | _ => encodeInvitationPayload p

/-- A raw message is the item that its bytes are. -/
structure WireFrame where
  id : UInt64
  payload : Option Item
  pad : Option Bytes

def WireFrame.item (w : WireFrame) : Item :=
  struct ([("id", u64 w.id), ("payload", w.payload.getD .null)] ++
    if (w.pad.getD []).length = 0 then [] else [("pad", byteSlice w.pad)])

/-- Keys in bytewise order; a raw message stands as it is. -/
def encodeWire (w : WireFrame) : Except CodecError Bytes :=
  let out := (w.item.sortedTop Cbor.bytewise).write
  if RelayQueue.maxFrameBytes < out.length then .error .frameTooLarge else .ok out

def encode (f : Frame) : Except CodecError Bytes :=
  match payloadItem f.payload with
  | none => .error (.unknownKind f.payload.kind.name)
  | some payload => encodeWire ⟨f.id, some (payload.sorted Cbor.bytewise), none⟩

/-- The loop, for at most so many rounds. -/
def padLoop (w : WireFrame) (size : Nat) : Nat → Nat → Option (Except CodecError Bytes)
  | 0, _ => none
  | rounds + 1, n =>
    match encodeWire { w with pad := some (List.replicate n 0) } with
    | .error e => some (.error e)
    | .ok padded => if size ≤ padded.length then some (.ok padded) else padLoop w size rounds (n + 1)

/-- The longest array the relay's decoder takes. -/
def maxArrayElements : Nat := 131072

/-- How the relay's library reads: also a map from names to items as they stand. -/
structure GoReader extends Cbor.Reader where
  tagged : Item → Option (List (String × Item))

structure GoReader.Lawful (r : GoReader) : Prop extends r.toReader.Lawful (some maxArrayElements) where
  tagged_map : ∀ name body, r.tagged (.map [(.text name, body)]) = some [(name, body)]

/-- An item that is absent or null leaves the zero value. -/
def orZero {α : Type} (zero : α) (read : Item → Option α) : Option Item → Option α
  | none => some zero
  | some .null => some zero
  | some i => read i

namespace GoReader

variable (r : GoReader)

def u64Of (i : Option Item) : Option UInt64 := orZero 0 (fun i => (r.uint (2 ^ 64 - 1) i).map UInt64.ofNat) i

def u32Of (i : Option Item) : Option UInt32 := orZero 0 (fun i => (r.uint (2 ^ 32 - 1) i).map UInt32.ofNat) i

def u16Of (i : Option Item) : Option UInt16 := orZero 0 (fun i => (r.uint (2 ^ 16 - 1) i).map UInt16.ofNat) i

def bytesOf (i : Option Item) : Option (Option Bytes) := orZero none (fun i => (r.bytes i).map some) i

def sliceOf {α : Type} (element : Item → Option α) (i : Option Item) : Option (Option (List α)) :=
  orZero none (fun i => (r.seq i).bind fun items => (items.mapM element).map some) i

section fields

variable (v : String → Option Item) (name : String)

def u64At : Option UInt64 := r.u64Of (v name)

def u32At : Option UInt32 := r.u32Of (v name)

def u16At : Option UInt16 := r.u16Of (v name)

def bytesAt : Option (Option Bytes) := r.bytesOf (v name)

def textAt : Option String := orZero "" r.text (v name)

def boolAt : Option Bool := orZero false r.bool (v name)

def sliceAt {α : Type} (element : Item → Option α) : Option (Option (List α)) := r.sliceOf element (v name)

def byteSlicesAt : Option (Option (List (Option Bytes))) := r.sliceAt v name fun i => r.bytesOf (some i)

end fields

def envelopeItem (i : Item) : Option EnvelopeItem := do
  let v ← r.struct i
  pure ⟨← r.u64At v "seq", ← r.bytesAt v "delivery_id", ← r.bytesAt v "hpke_enc", ← r.bytesAt v "ciphertext"⟩

def invitationRecord (i : Item) : Option InvitationRecord := do
  let v ← r.struct i
  pure ⟨← r.u64At v "sequence", ← r.bytesAt v "id", ← r.u64At v "created_at", ← r.u64At v "expires_at", ← r.textAt v "state",
    ← r.bytesAt v "claimed_identity", ← r.u64At v "claimed_at"⟩

def envelopeItemsAt (v : String → Option Item) (name : String) : Option (Option (List EnvelopeItem)) :=
  r.sliceAt v name fun i => orZero {} r.envelopeItem (some i)

def invitationAt (v : String → Option Item) (name : String) : Option InvitationRecord := orZero {} r.invitationRecord (v name)

def invitationsAt (v : String → Option Item) (name : String) : Option (Option (List InvitationRecord)) :=
  r.sliceAt v name fun i => orZero {} r.invitationRecord (some i)

/-- A struct filled from a body, which may not have its form. -/
def fill (body : Item) (of : (String → Option Item) → Option Payload) : Option (Option Payload) := some ((r.struct body).bind of)

/-- The fields of an invitation frame; `none` for another kind. -/
def decodeInvitationPayload (body : Item) : Kind → Option (Option Payload)
  | .invitePolicy => r.fill body fun v => do
    pure { kind := .invitePolicy, canInvite := ← r.boolAt v "can_invite", serverTime := ← r.u64At v "server_time",
           ttl := ← r.u64At v "ttl" }
  | .inviteCreate => r.fill body fun v => do
    pure { kind := .inviteCreate, requestKey := ← r.bytesAt v "request_key", tokenHash := ← r.bytesAt v "token_hash",
           ttl := ← r.u64At v "ttl" }
  | .inviteList => r.fill body fun v => do
    pure { kind := .inviteList, cursor := ← r.u64At v "cursor", limit := ← r.u16At v "limit" }
  | .inviteGet => r.fill body fun v => do pure { kind := .inviteGet, invitationId := ← r.bytesAt v "invitation_id" }
  | .inviteRevoke => r.fill body fun v => do pure { kind := .inviteRevoke, invitationId := ← r.bytesAt v "invitation_id" }
  | .inviteAccept => r.fill body fun v => do pure { kind := .inviteAccept, token := ← r.bytesAt v "token" }
  | .invitation => r.fill body fun v => do pure { kind := .invitation, invitation := ← r.invitationAt v "invitation" }
  | .invitations => r.fill body fun v => do
    pure { kind := .invitations, invitations := ← r.invitationsAt v "invitations", nextCursor := ← r.u64At v "next_cursor" }
  | .keyPackagesClaimOnce => r.fill body fun v => do
    pure { kind := .keyPackagesClaimOnce, requestKey := ← r.bytesAt v "request_key", identityId := ← r.bytesAt v "identity_id",
           deviceId := ← r.bytesAt v "device_id" }
  | _ => none

def decodeBody (body : Item) : Kind → Option (Option Payload)
  | .endpointList => r.fill body fun v => do pure { kind := .endpointList, signed := ← r.bytesAt v "signed" }
  | .error => r.fill body fun v => do pure { kind := .error, code := ← r.u16At v "code", message := ← r.textAt v "message" }
  | .inviteRedeem => r.fill body fun v => do
    pure { kind := .inviteRedeem, token := ← r.bytesAt v "token", credential := ← r.bytesAt v "credential",
           manifest := ← r.bytesAt v "manifest" }
  | .inviteRedeemed => r.fill body fun v => do pure { kind := .inviteRedeemed, identityId := ← r.bytesAt v "identity_id" }
  | .credentialPut => r.fill body fun v => do pure { kind := .credentialPut, credential := ← r.bytesAt v "credential" }
  | .watchKeySet => r.fill body fun v => do pure { kind := .watchKeySet, watchKey := ← r.bytesAt v "key" }
  | .notifyHintSet => r.fill body fun v => do pure { kind := .notifyHintSet, url := ← r.textAt v "url" }
  | .pairStarted => r.fill body fun v => do
    pure { kind := .pairStarted, pairId := ← r.bytesAt v "pair_id", capability := ← r.bytesAt v "capability",
           expiresAt := ← r.u64At v "expires_at" }
  | .pairPut => r.fill body fun v => do
    pure { kind := .pairPut, pairId := ← r.bytesAt v "pair_id", capability := ← r.bytesAt v "capability",
           slot := ← r.textAt v "slot", data := ← r.bytesAt v "data" }
  | .pairGet => r.fill body fun v => do
    pure { kind := .pairGet, pairId := ← r.bytesAt v "pair_id", capability := ← r.bytesAt v "capability",
           slot := ← r.textAt v "slot" }
  | .pairFetched => r.fill body fun v => do pure { kind := .pairFetched, data := ← r.bytesAt v "data" }
  | .recoverIdentity => r.fill body fun v => do
    pure { kind := .recoverIdentity, credential := ← r.bytesAt v "credential", manifest := ← r.bytesAt v "manifest" }
  | .recovered => r.fill body fun v => do
    pure { kind := .recovered, identityId := ← r.bytesAt v "identity_id",
           previousSequence := ← r.u64At v "previous_sequence" }
  | .manifestGet => r.fill body fun v => do pure { kind := .manifestGet, identityId := ← r.bytesAt v "identity_id" }
  | .credentialGet => r.fill body fun v => do
    pure { kind := .credentialGet, identityId := ← r.bytesAt v "identity_id",
           credentialHash := ← r.bytesAt v "credential_hash" }
  | .credentialFound => r.fill body fun v => do pure { kind := .credentialFound, credential := ← r.bytesAt v "credential" }
  | .manifestPut => r.fill body fun v => do pure { kind := .manifestPut, manifest := ← r.bytesAt v "manifest" }
  | .manifestLatest => r.fill body fun v => do pure { kind := .manifestLatest, manifest := ← r.bytesAt v "manifest" }
  | .blobUploadBegin => r.fill body fun v => do pure { kind := .blobUploadBegin, size := ← r.u64At v "size" }
  | .blobUploadStarted => r.fill body fun v => do
    pure { kind := .blobUploadStarted, blobId := ← r.bytesAt v "blob_id", readCapability := ← r.bytesAt v "read_capability" }
  | .blobChunk => r.fill body fun v => do
    pure { kind := .blobChunk, blobId := ← r.bytesAt v "blob_id", offset := ← r.u64At v "offset",
           data := ← r.bytesAt v "data" }
  | .blobCommit => r.fill body fun v => do
    pure { kind := .blobCommit, blobId := ← r.bytesAt v "blob_id", ciphertextHash := ← r.bytesAt v "ciphertext_hash",
           requestedExpiry := ← r.u64At v "requested_expiry" }
  | .blobCommitted => r.fill body fun v => do pure { kind := .blobCommitted, effectiveExpiry := ← r.u64At v "effective_expiry" }
  | .blobResume => r.fill body fun v => do pure { kind := .blobResume, blobId := ← r.bytesAt v "blob_id" }
  | .blobOffset => r.fill body fun v => do pure { kind := .blobOffset, offset := ← r.u64At v "offset" }
  | .blobFetch => r.fill body fun v => do
    pure { kind := .blobFetch, blobId := ← r.bytesAt v "blob_id", readCapability := ← r.bytesAt v "read_capability",
           offset := ← r.u64At v "offset", length := ← r.u32At v "length" }
  | .blobData => r.fill body fun v => do
    pure { kind := .blobData, totalSize := ← r.u64At v "total_size", data := ← r.bytesAt v "data" }
  | .keyPackagesPublish => r.fill body fun v => do
    pure { kind := .keyPackagesPublish, keyPackages := ← r.byteSlicesAt v "key_packages" }
  | .keyPackagesAvail => r.fill body fun v => do pure { kind := .keyPackagesAvail, count := ← r.u32At v "count" }
  | .keyPackagesClaim => r.fill body fun v => do
    pure { kind := .keyPackagesClaim, identityId := ← r.bytesAt v "identity_id", deviceId := ← r.bytesAt v "device_id" }
  | .keyPackageClaimed => r.fill body fun v => do pure { kind := .keyPackageClaimed, keyPackage := ← r.bytesAt v "key_package" }
  | .mailboxCreate => r.fill body fun v => do
    pure { kind := .mailboxCreate, requestKey := ← r.bytesAt v "request_key",
           readCapability := ← r.bytesAt v "read_capability", writeCapability := ← r.bytesAt v "write_capability" }
  | .mailboxCreated => r.fill body fun v => do
    pure { kind := .mailboxCreated, mailboxId := ← r.bytesAt v "mailbox_id", readCapability := ← r.bytesAt v "read_capability",
           writeCapability := ← r.bytesAt v "write_capability" }
  | .envelopePut => r.fill body fun v => do
    pure { kind := .envelopePut, mailboxId := ← r.bytesAt v "mailbox_id", writeCapability := ← r.bytesAt v "write_capability",
           deliveryId := ← r.bytesAt v "delivery_id", requestedExpiry := ← r.u64At v "requested_expiry",
           hpkeEnc := ← r.bytesAt v "hpke_enc", ciphertext := ← r.bytesAt v "ciphertext" }
  | .envelopeAccepted => r.fill body fun v => do
    pure { kind := .envelopeAccepted, effectiveExpiry := ← r.u64At v "effective_expiry" }
  | .envelopeFetch => r.fill body fun v => do
    pure { kind := .envelopeFetch, mailboxId := ← r.bytesAt v "mailbox_id", readCapability := ← r.bytesAt v "read_capability",
           cursor := ← r.u64At v "cursor", limit := ← r.u16At v "limit" }
  | .envelopes => r.fill body fun v => do
    pure { kind := .envelopes, items := ← r.envelopeItemsAt v "items", nextCursor := ← r.u64At v "next_cursor" }
  | .envelopeAck => r.fill body fun v => do
    pure { kind := .envelopeAck, mailboxId := ← r.bytesAt v "mailbox_id", readCapability := ← r.bytesAt v "read_capability",
           deliveryIds := ← r.byteSlicesAt v "delivery_ids" }
  | k => r.decodeInvitationPayload body k

/-- The kinds that are a name alone. -/
def unitKinds : List Kind :=
  [.ping, .pong, .endpointListGet, .ack, .mailboxCreate, .pairBegin, .keyPackagesStatus, .invitePolicyGet, .mailboxWatch, .mailboxWakeup]

def payload (raw : Item) : Except CodecError Payload :=
  match r.text raw with
  | some name =>
    match unitKinds.find? fun k => k.name = name with
    | some k => .ok { kind := k }
    | none => .error (.unknownUnitVariant name)
  | none =>
    match r.tagged raw with
    | none => .error .neitherNameNorMap
    | some [(name, body)] =>
      match r.decodeBody body (.ofName name) with
      | none => .error (.unknownVariant name)
      | some none => .error (.body name)
      | some (some p) => .ok p
    | some entries => .error (.entries entries.length)

def wireFrame (i : Item) : Option WireFrame := do
  let v ← r.struct i
  pure ⟨← r.u64At v "id", v "payload", ← r.bytesAt v "pad"⟩

end GoReader

def decode (r : GoReader) (b : Bytes) : Except CodecError Frame :=
  if RelayQueue.maxFrameBytes < b.length then .error .frameTooLarge
  else match (r.read b).bind r.wireFrame with
    | none => .error .cbor
    | some w => match w.payload with
      | none => .error .neitherNameNorMap
      | some raw => (r.payload raw).map fun p => ⟨w.id, p⟩

/-- `none` where the loop has not ended after as many rounds as the size has bytes. -/
def encodePadded (r : GoReader) (f : Frame) (size : Nat) : Option (Except CodecError Bytes) :=
  match encode f with
  | .error e => some (.error e)
  | .ok out =>
    if size ≤ out.length then some (.ok out)
    else match (r.read out).bind r.wireFrame with
      | none => some (.error .cbor)
      -- the pad field costs its key (4 bytes) and a bstr header (1 to 3)
      | some w => padLoop w size (size + 1) (size - out.length - 7)

def EnvelopeItem.of (e : Codec.EnvelopeItem) : EnvelopeItem := ⟨e.seq, some e.deliveryId, some e.hpkeEnc, some e.ciphertext⟩

def InvitationRecord.of (i : Codec.InvitationRecord) : InvitationRecord :=
  ⟨i.sequence, some i.id, i.createdAt, i.expiresAt, i.state, some i.claimedIdentity, i.claimedAt⟩

def Payload.of : Codec.Payload → Payload
  | .invitePolicyGet => { kind := .invitePolicyGet }
  | .invitePolicy canInvite serverTime ttl =>
    { kind := .invitePolicy, canInvite := canInvite, serverTime := serverTime, ttl := ttl }
  | .inviteCreate requestKey tokenHash ttl =>
    { kind := .inviteCreate, requestKey := some requestKey, tokenHash := some tokenHash, ttl := ttl }
  | .inviteList cursor limit => { kind := .inviteList, cursor := cursor, limit := limit }
  | .inviteGet invitationId => { kind := .inviteGet, invitationId := some invitationId }
  | .inviteRevoke invitationId => { kind := .inviteRevoke, invitationId := some invitationId }
  | .inviteAccept token => { kind := .inviteAccept, token := some token }
  | .invitation record => { kind := .invitation, invitation := .of record }
  | .invitations records nextCursor =>
    { kind := .invitations, invitations := some (records.map InvitationRecord.of), nextCursor := nextCursor }
  | .keyPackagesClaimOnce requestKey identityId deviceId =>
    { kind := .keyPackagesClaimOnce, requestKey := some requestKey, identityId := some identityId,
      deviceId := some deviceId }
  | .ping => { kind := .ping }
  | .pong => { kind := .pong }
  | .watchKeySet key => { kind := .watchKeySet, watchKey := some key }
  | .mailboxWatch => { kind := .mailboxWatch }
  | .mailboxWakeup => { kind := .mailboxWakeup }
  | .endpointListGet => { kind := .endpointListGet }
  | .endpointList signed => { kind := .endpointList, signed := some signed }
  | .inviteRedeem token credential manifest =>
    { kind := .inviteRedeem, token := some token, credential := some credential, manifest := some manifest }
  | .inviteRedeemed identityId => { kind := .inviteRedeemed, identityId := some identityId }
  | .credentialPut credential => { kind := .credentialPut, credential := some credential }
  | .manifestPut manifest => { kind := .manifestPut, manifest := some manifest }
  | .notifyHintSet url => { kind := .notifyHintSet, url := url }
  | .blobResume blobId => { kind := .blobResume, blobId := some blobId }
  | .blobOffset offset => { kind := .blobOffset, offset := offset }
  | .pairBegin => { kind := .pairBegin }
  | .pairStarted pairId capability expiresAt =>
    { kind := .pairStarted, pairId := some pairId, capability := some capability, expiresAt := expiresAt }
  | .pairPut pairId capability slot data =>
    { kind := .pairPut, pairId := some pairId, capability := some capability, slot := slot, data := some data }
  | .pairGet pairId capability slot =>
    { kind := .pairGet, pairId := some pairId, capability := some capability, slot := slot }
  | .pairFetched data => { kind := .pairFetched, data := some data }
  | .recoverIdentity credential manifest =>
    { kind := .recoverIdentity, credential := some credential, manifest := some manifest }
  | .recovered identityId previousSequence =>
    { kind := .recovered, identityId := some identityId, previousSequence := previousSequence }
  | .manifestGet identityId => { kind := .manifestGet, identityId := some identityId }
  | .manifestLatest manifest => { kind := .manifestLatest, manifest := some manifest }
  | .credentialGet identityId credentialHash =>
    { kind := .credentialGet, identityId := some identityId, credentialHash := some credentialHash }
  | .credentialFound credential => { kind := .credentialFound, credential := some credential }
  | .keyPackagesPublish keyPackages => { kind := .keyPackagesPublish, keyPackages := some (keyPackages.map some) }
  | .keyPackagesStatus => { kind := .keyPackagesStatus }
  | .keyPackagesAvailable count => { kind := .keyPackagesAvail, count := count }
  | .keyPackagesClaim identityId deviceId =>
    { kind := .keyPackagesClaim, identityId := some identityId, deviceId := some deviceId }
  | .keyPackageClaimed keyPackage => { kind := .keyPackageClaimed, keyPackage := some keyPackage }
  | .mailboxCreate requestKey readCapability writeCapability =>
    { kind := .mailboxCreate, requestKey := some requestKey, readCapability := some readCapability,
      writeCapability := some writeCapability }
  | .mailboxCreated mailboxId readCapability writeCapability =>
    { kind := .mailboxCreated, mailboxId := some mailboxId, readCapability := some readCapability,
      writeCapability := some writeCapability }
  | .envelopePut mailboxId writeCapability deliveryId requestedExpiry hpkeEnc ciphertext =>
    { kind := .envelopePut, mailboxId := some mailboxId, writeCapability := some writeCapability,
      deliveryId := some deliveryId, requestedExpiry := requestedExpiry, hpkeEnc := some hpkeEnc,
      ciphertext := some ciphertext }
  | .envelopeAccepted effectiveExpiry => { kind := .envelopeAccepted, effectiveExpiry := effectiveExpiry }
  | .envelopeFetch mailboxId readCapability cursor limit =>
    { kind := .envelopeFetch, mailboxId := some mailboxId, readCapability := some readCapability, cursor := cursor,
      limit := limit }
  | .envelopes items nextCursor => { kind := .envelopes, items := some (items.map EnvelopeItem.of), nextCursor := nextCursor }
  | .envelopeAck mailboxId readCapability deliveryIds =>
    { kind := .envelopeAck, mailboxId := some mailboxId, readCapability := some readCapability,
      deliveryIds := some (deliveryIds.map some) }
  | .blobUploadBegin size => { kind := .blobUploadBegin, size := size }
  | .blobUploadStarted blobId readCapability =>
    { kind := .blobUploadStarted, blobId := some blobId, readCapability := some readCapability }
  | .blobChunk blobId offset data => { kind := .blobChunk, blobId := some blobId, offset := offset, data := some data }
  | .blobCommit blobId ciphertextHash requestedExpiry =>
    { kind := .blobCommit, blobId := some blobId, ciphertextHash := some ciphertextHash,
      requestedExpiry := requestedExpiry }
  | .blobCommitted effectiveExpiry => { kind := .blobCommitted, effectiveExpiry := effectiveExpiry }
  | .blobFetch blobId readCapability offset length =>
    { kind := .blobFetch, blobId := some blobId, readCapability := some readCapability, offset := offset,
      length := length }
  | .blobData totalSize data => { kind := .blobData, totalSize := totalSize, data := some data }
  | .ack => { kind := .ack }
  | .error code message => { kind := .error, code := code, message := message }

def Frame.of (f : Codec.Frame) : Frame := ⟨f.id, .of f.payload⟩

end Arveil.RelayCodec

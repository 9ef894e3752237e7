import Arveil.Lib.CborItem
import Arveil.Spec.Frames

/-! Frames as the core writes and reads them (`core/crates/arveil-core/src/channel/codec.rs`,
`signed.rs`): the payload is an externally tagged enum, a name or a map from the name to the
fields. Reading is a library's, given as a parameter. -/

namespace Arveil.Codec

open Cbor (Item struct)

inductive CodecError where
  | tooLarge (length : Nat)
  | decode
deriving DecidableEq, Repr

structure InvitationRecord where
  sequence : UInt64
  id : Bytes
  createdAt : UInt64
  expiresAt : UInt64
  state : String
  claimedIdentity : Bytes
  claimedAt : UInt64
deriving DecidableEq, Repr

structure EnvelopeItem where
  seq : UInt64
  deliveryId : Bytes
  hpkeEnc : Bytes
  ciphertext : Bytes
deriving DecidableEq, Repr

inductive Payload where
  | invitePolicyGet
  | invitePolicy (canInvite : Bool) (serverTime ttl : UInt64)
  | inviteCreate (requestKey tokenHash : Bytes) (ttl : UInt64)
  | inviteList (cursor : UInt64) (limit : UInt16)
  | inviteGet (invitationId : Bytes)
  | inviteRevoke (invitationId : Bytes)
  | inviteAccept (token : Bytes)
  | invitation (record : InvitationRecord)
  | invitations (records : List InvitationRecord) (nextCursor : UInt64)
  | keyPackagesClaimOnce (requestKey identityId deviceId : Bytes)
  | ping
  | pong
  | watchKeySet (key : Bytes)
  | mailboxWatch
  | mailboxWakeup
  | endpointListGet
  | endpointList (signed : Bytes)
  | inviteRedeem (token credential manifest : Bytes)
  | inviteRedeemed (identityId : Bytes)
  | credentialPut (credential : Bytes)
  | manifestPut (manifest : Bytes)
  | notifyHintSet (url : String)
  | blobResume (blobId : Bytes)
  | blobOffset (offset : UInt64)
  | pairBegin
  | pairStarted (pairId capability : Bytes) (expiresAt : UInt64)
  | pairPut (pairId capability : Bytes) (slot : String) (data : Bytes)
  | pairGet (pairId capability : Bytes) (slot : String)
  | pairFetched (data : Bytes)
  | recoverIdentity (credential manifest : Bytes)
  | recovered (identityId : Bytes) (previousSequence : UInt64)
  | manifestGet (identityId : Bytes)
  | manifestLatest (manifest : Bytes)
  | credentialGet (identityId credentialHash : Bytes)
  | credentialFound (credential : Bytes)
  | keyPackagesPublish (keyPackages : List Bytes)
  | keyPackagesStatus
  | keyPackagesAvailable (count : UInt32)
  | keyPackagesClaim (identityId deviceId : Bytes)
  | keyPackageClaimed (keyPackage : Bytes)
  | mailboxCreate (requestKey readCapability writeCapability : Bytes)
  | mailboxCreated (mailboxId readCapability writeCapability : Bytes)
  | envelopePut (mailboxId writeCapability deliveryId : Bytes) (requestedExpiry : UInt64) (hpkeEnc ciphertext : Bytes)
  | envelopeAccepted (effectiveExpiry : UInt64)
  | envelopeFetch (mailboxId readCapability : Bytes) (cursor : UInt64) (limit : UInt16)
  | envelopes (items : List EnvelopeItem) (nextCursor : UInt64)
  | envelopeAck (mailboxId readCapability : Bytes) (deliveryIds : List Bytes)
  | blobUploadBegin (size : UInt64)
  | blobUploadStarted (blobId readCapability : Bytes)
  | blobChunk (blobId : Bytes) (offset : UInt64) (data : Bytes)
  | blobCommit (blobId ciphertextHash : Bytes) (requestedExpiry : UInt64)
  | blobCommitted (effectiveExpiry : UInt64)
  | blobFetch (blobId readCapability : Bytes) (offset : UInt64) (length : UInt32)
  | blobData (totalSize : UInt64) (data : Bytes)
  | ack
  | error (code : UInt16) (message : String)
deriving DecidableEq, Repr

structure Frame where
  id : UInt64
  payload : Payload
deriving DecidableEq, Repr

def u64 (n : UInt64) : Item := .uint n.toNat

def u32 (n : UInt32) : Item := .uint n.toNat

def u16 (n : UInt16) : Item := .uint n.toNat

def byteBufs (bs : List Bytes) : Item := .array (bs.map .bytes)

def InvitationRecord.item (i : InvitationRecord) : Item :=
  struct [("sequence", u64 i.sequence), ("id", .bytes i.id), ("created_at", u64 i.createdAt), ("expires_at", u64 i.expiresAt),
    ("state", .text i.state), ("claimed_identity", .bytes i.claimedIdentity), ("claimed_at", u64 i.claimedAt)]

def EnvelopeItem.item (e : EnvelopeItem) : Item :=
  struct [("seq", u64 e.seq), ("delivery_id", .bytes e.deliveryId), ("hpke_enc", .bytes e.hpkeEnc), ("ciphertext", .bytes e.ciphertext)]

def variant (name : String) (fields : List (String × Item)) : Item := struct [(name, struct fields)]

def Payload.item : Payload → Item
  | .invitePolicyGet => .text "InvitePolicyGet"
  | .invitePolicy canInvite serverTime ttl => variant "InvitePolicy" [("can_invite", .bool canInvite),
      ("server_time", u64 serverTime), ("ttl", u64 ttl)]
  | .inviteCreate requestKey tokenHash ttl => variant "InviteCreate" [("request_key", .bytes requestKey),
      ("token_hash", .bytes tokenHash), ("ttl", u64 ttl)]
  | .inviteList cursor limit => variant "InviteList" [("cursor", u64 cursor), ("limit", u16 limit)]
  | .inviteGet invitationId => variant "InviteGet" [("invitation_id", .bytes invitationId)]
  | .inviteRevoke invitationId => variant "InviteRevoke" [("invitation_id", .bytes invitationId)]
  | .inviteAccept token => variant "InviteAccept" [("token", .bytes token)]
  | .invitation record => variant "Invitation" [("invitation", record.item)]
  | .invitations records nextCursor => variant "Invitations" [
      ("invitations", .array (records.map InvitationRecord.item)), ("next_cursor", u64 nextCursor)]
  | .keyPackagesClaimOnce requestKey identityId deviceId => variant "KeyPackagesClaimOnce" [
      ("request_key", .bytes requestKey), ("identity_id", .bytes identityId), ("device_id", .bytes deviceId)]
  | .ping => .text "Ping"
  | .pong => .text "Pong"
  | .watchKeySet key => variant "WatchKeySet" [("key", .bytes key)]
  | .mailboxWatch => .text "MailboxWatch"
  | .mailboxWakeup => .text "MailboxWakeup"
  | .endpointListGet => .text "EndpointListGet"
  | .endpointList signed => variant "EndpointList" [("signed", .bytes signed)]
  | .inviteRedeem token credential manifest => variant "InviteRedeem" [("token", .bytes token),
      ("credential", .bytes credential), ("manifest", .bytes manifest)]
  | .inviteRedeemed identityId => variant "InviteRedeemed" [("identity_id", .bytes identityId)]
  | .credentialPut credential => variant "CredentialPut" [("credential", .bytes credential)]
  | .manifestPut manifest => variant "ManifestPut" [("manifest", .bytes manifest)]
  | .notifyHintSet url => variant "NotifyHintSet" [("url", .text url)]
  | .blobResume blobId => variant "BlobResume" [("blob_id", .bytes blobId)]
  | .blobOffset offset => variant "BlobOffset" [("offset", u64 offset)]
  | .pairBegin => .text "PairBegin"
  | .pairStarted pairId capability expiresAt => variant "PairStarted" [("pair_id", .bytes pairId),
      ("capability", .bytes capability), ("expires_at", u64 expiresAt)]
  | .pairPut pairId capability slot data => variant "PairPut" [("pair_id", .bytes pairId), ("capability", .bytes capability),
      ("slot", .text slot), ("data", .bytes data)]
  | .pairGet pairId capability slot => variant "PairGet" [("pair_id", .bytes pairId), ("capability", .bytes capability),
      ("slot", .text slot)]
  | .pairFetched data => variant "PairFetched" [("data", .bytes data)]
  | .recoverIdentity credential manifest => variant "RecoverIdentity" [("credential", .bytes credential),
      ("manifest", .bytes manifest)]
  | .recovered identityId previousSequence => variant "Recovered" [("identity_id", .bytes identityId),
      ("previous_sequence", u64 previousSequence)]
  | .manifestGet identityId => variant "ManifestGet" [("identity_id", .bytes identityId)]
  | .manifestLatest manifest => variant "ManifestLatest" [("manifest", .bytes manifest)]
  | .credentialGet identityId credentialHash => variant "CredentialGet" [("identity_id", .bytes identityId),
      ("credential_hash", .bytes credentialHash)]
  | .credentialFound credential => variant "CredentialFound" [("credential", .bytes credential)]
  | .keyPackagesPublish keyPackages => variant "KeyPackagesPublish" [("key_packages", byteBufs keyPackages)]
  | .keyPackagesStatus => .text "KeyPackagesStatus"
  | .keyPackagesAvailable count => variant "KeyPackagesAvailable" [("count", u32 count)]
  | .keyPackagesClaim identityId deviceId => variant "KeyPackagesClaim" [("identity_id", .bytes identityId),
      ("device_id", .bytes deviceId)]
  | .keyPackageClaimed keyPackage => variant "KeyPackageClaimed" [("key_package", .bytes keyPackage)]
  | .mailboxCreate requestKey readCapability writeCapability => variant "MailboxCreate" [("request_key", .bytes requestKey),
      ("read_capability", .bytes readCapability), ("write_capability", .bytes writeCapability)]
  | .mailboxCreated mailboxId readCapability writeCapability => variant "MailboxCreated" [("mailbox_id", .bytes mailboxId),
      ("read_capability", .bytes readCapability), ("write_capability", .bytes writeCapability)]
  | .envelopePut mailboxId writeCapability deliveryId requestedExpiry hpkeEnc ciphertext => variant "EnvelopePut" [
      ("mailbox_id", .bytes mailboxId), ("write_capability", .bytes writeCapability), ("delivery_id", .bytes deliveryId),
      ("requested_expiry", u64 requestedExpiry), ("hpke_enc", .bytes hpkeEnc), ("ciphertext", .bytes ciphertext)]
  | .envelopeAccepted effectiveExpiry => variant "EnvelopeAccepted" [("effective_expiry", u64 effectiveExpiry)]
  | .envelopeFetch mailboxId readCapability cursor limit => variant "EnvelopeFetch" [("mailbox_id", .bytes mailboxId),
      ("read_capability", .bytes readCapability), ("cursor", u64 cursor), ("limit", u16 limit)]
  | .envelopes items nextCursor => variant "Envelopes" [("items", .array (items.map EnvelopeItem.item)),
      ("next_cursor", u64 nextCursor)]
  | .envelopeAck mailboxId readCapability deliveryIds => variant "EnvelopeAck" [("mailbox_id", .bytes mailboxId),
      ("read_capability", .bytes readCapability), ("delivery_ids", byteBufs deliveryIds)]
  | .blobUploadBegin size => variant "BlobUploadBegin" [("size", u64 size)]
  | .blobUploadStarted blobId readCapability => variant "BlobUploadStarted" [("blob_id", .bytes blobId),
      ("read_capability", .bytes readCapability)]
  | .blobChunk blobId offset data => variant "BlobChunk" [("blob_id", .bytes blobId), ("offset", u64 offset),
      ("data", .bytes data)]
  | .blobCommit blobId ciphertextHash requestedExpiry => variant "BlobCommit" [("blob_id", .bytes blobId),
      ("ciphertext_hash", .bytes ciphertextHash), ("requested_expiry", u64 requestedExpiry)]
  | .blobCommitted effectiveExpiry => variant "BlobCommitted" [("effective_expiry", u64 effectiveExpiry)]
  | .blobFetch blobId readCapability offset length => variant "BlobFetch" [("blob_id", .bytes blobId),
      ("read_capability", .bytes readCapability), ("offset", u64 offset), ("length", u32 length)]
  | .blobData totalSize data => variant "BlobData" [("total_size", u64 totalSize), ("data", .bytes data)]
  | .ack => .text "Ack"
  | .error code message => variant "Error" [("code", u16 code), ("message", .text message)]

def Frame.item (f : Frame) : Item := struct [("id", u64 f.id), ("payload", f.payload.item)]

/-- Keys by their written length, then by their bytes. -/
def canonical (i : Item) : Bytes := (i.sorted Cbor.lengthFirst).write

def encode (f : Frame) : Except CodecError Bytes :=
  let out := canonical f.item
  if RelayQueue.maxFrameBytes < out.length then .error (.tooLarge out.length) else .ok out

/-- A frame with a top-level `pad` field. -/
def paddedFrame (f : Frame) (n : Nat) : Item :=
  struct [("id", u64 f.id), ("payload", f.payload.item), ("pad", .bytes (List.replicate n 0))]

/-- The loop, for at most so many rounds. -/
def padLoop (f : Frame) (size : Nat) : Nat → Nat → Option (Except CodecError Bytes)
  | 0, _ => none
  | rounds + 1, n =>
    let padded := canonical (paddedFrame f n)
    if RelayQueue.maxFrameBytes < padded.length then some (.error (.tooLarge padded.length))
    else if size ≤ padded.length then some (.ok padded)
    else padLoop f size rounds (n + 1)

/-- `none` where the loop has not ended after as many rounds as the size has bytes. -/
def encodePadded (f : Frame) (size : Nat) : Option (Except CodecError Bytes) :=
  match encode f with
  | .error e => some (.error e)
  | .ok plain =>
    if size ≤ plain.length then some (.ok plain)
    -- the pad field costs its key (4 bytes) and a bstr header (1 to 3)
    else padLoop f size (size + 1) (size - (plain.length + 7))

/-- How serde reads with ciborium: also the variant of an enum, with what stands under its
name if it is not the name alone. -/
structure SerdeReader extends Cbor.Reader where
  variant : Item → Option (String × Option Item)

structure SerdeReader.Lawful (r : SerdeReader) : Prop extends r.toReader.Lawful none where
  variant_text : ∀ name, r.variant (.text name) = some (name, none)
  variant_map : ∀ name body, r.variant (.map [(.text name, body)]) = some (name, some body)

namespace SerdeReader

variable (r : SerdeReader)

def u64Of (i : Item) : Option UInt64 := (r.uint (2 ^ 64 - 1) i).map UInt64.ofNat

def u32Of (i : Item) : Option UInt32 := (r.uint (2 ^ 32 - 1) i).map UInt32.ofNat

def u16Of (i : Item) : Option UInt16 := (r.uint (2 ^ 16 - 1) i).map UInt16.ofNat

section fields

variable (v : String → Option Item) (name : String)

def u64At : Option UInt64 := (v name).bind r.u64Of

def u32At : Option UInt32 := (v name).bind r.u32Of

def u16At : Option UInt16 := (v name).bind r.u16Of

def bytesAt : Option Bytes := (v name).bind r.bytes

def textAt : Option String := (v name).bind r.text

def boolAt : Option Bool := (v name).bind r.bool

def seqAt {α : Type} (element : Item → Option α) : Option (List α) := (v name).bind fun i => (r.seq i).bind fun items => items.mapM element

def byteBufsAt : Option (List Bytes) := r.seqAt v name r.bytes

end fields

def invitationRecord (i : Item) : Option InvitationRecord := do
  let v ← r.struct i
  pure ⟨← r.u64At v "sequence", ← r.bytesAt v "id", ← r.u64At v "created_at", ← r.u64At v "expires_at", ← r.textAt v "state",
    ← r.bytesAt v "claimed_identity", ← r.u64At v "claimed_at"⟩

def envelopeItem (i : Item) : Option EnvelopeItem := do
  let v ← r.struct i
  pure ⟨← r.u64At v "seq", ← r.bytesAt v "delivery_id", ← r.bytesAt v "hpke_enc", ← r.bytesAt v "ciphertext"⟩

def invitationAt (v : String → Option Item) (name : String) : Option InvitationRecord := (v name).bind r.invitationRecord

def invitationsAt (v : String → Option Item) (name : String) : Option (List InvitationRecord) := r.seqAt v name r.invitationRecord

def itemsAt (v : String → Option Item) (name : String) : Option (List EnvelopeItem) := r.seqAt v name r.envelopeItem

def unitVariant : String → Option Payload
  | "InvitePolicyGet" => some .invitePolicyGet
  | "Ping" => some .ping
  | "Pong" => some .pong
  | "MailboxWatch" => some .mailboxWatch
  | "MailboxWakeup" => some .mailboxWakeup
  | "EndpointListGet" => some .endpointListGet
  | "PairBegin" => some .pairBegin
  | "KeyPackagesStatus" => some .keyPackagesStatus
  | "Ack" => some .ack
  | _ => none

def structVariant (v : String → Option Item) : String → Option Payload
  | "InvitePolicy" => do pure (.invitePolicy (← r.boolAt v "can_invite") (← r.u64At v "server_time") (← r.u64At v "ttl"))
  | "InviteCreate" => do pure (.inviteCreate (← r.bytesAt v "request_key") (← r.bytesAt v "token_hash") (← r.u64At v "ttl"))
  | "InviteList" => do pure (.inviteList (← r.u64At v "cursor") (← r.u16At v "limit"))
  | "InviteGet" => do pure (.inviteGet (← r.bytesAt v "invitation_id"))
  | "InviteRevoke" => do pure (.inviteRevoke (← r.bytesAt v "invitation_id"))
  | "InviteAccept" => do pure (.inviteAccept (← r.bytesAt v "token"))
  | "Invitation" => do pure (.invitation (← r.invitationAt v "invitation"))
  | "Invitations" => do pure (.invitations (← r.invitationsAt v "invitations") (← r.u64At v "next_cursor"))
  | "KeyPackagesClaimOnce" => do pure (.keyPackagesClaimOnce (← r.bytesAt v "request_key") (← r.bytesAt v "identity_id")
      (← r.bytesAt v "device_id"))
  | "WatchKeySet" => do pure (.watchKeySet (← r.bytesAt v "key"))
  | "EndpointList" => do pure (.endpointList (← r.bytesAt v "signed"))
  | "InviteRedeem" => do pure (.inviteRedeem (← r.bytesAt v "token") (← r.bytesAt v "credential") (← r.bytesAt v "manifest"))
  | "InviteRedeemed" => do pure (.inviteRedeemed (← r.bytesAt v "identity_id"))
  | "CredentialPut" => do pure (.credentialPut (← r.bytesAt v "credential"))
  | "ManifestPut" => do pure (.manifestPut (← r.bytesAt v "manifest"))
  | "NotifyHintSet" => do pure (.notifyHintSet (← r.textAt v "url"))
  | "BlobResume" => do pure (.blobResume (← r.bytesAt v "blob_id"))
  | "BlobOffset" => do pure (.blobOffset (← r.u64At v "offset"))
  | "PairStarted" => do pure (.pairStarted (← r.bytesAt v "pair_id") (← r.bytesAt v "capability") (← r.u64At v "expires_at"))
  | "PairPut" => do pure (.pairPut (← r.bytesAt v "pair_id") (← r.bytesAt v "capability") (← r.textAt v "slot")
      (← r.bytesAt v "data"))
  | "PairGet" => do pure (.pairGet (← r.bytesAt v "pair_id") (← r.bytesAt v "capability") (← r.textAt v "slot"))
  | "PairFetched" => do pure (.pairFetched (← r.bytesAt v "data"))
  | "RecoverIdentity" => do pure (.recoverIdentity (← r.bytesAt v "credential") (← r.bytesAt v "manifest"))
  | "Recovered" => do pure (.recovered (← r.bytesAt v "identity_id") (← r.u64At v "previous_sequence"))
  | "ManifestGet" => do pure (.manifestGet (← r.bytesAt v "identity_id"))
  | "ManifestLatest" => do pure (.manifestLatest (← r.bytesAt v "manifest"))
  | "CredentialGet" => do pure (.credentialGet (← r.bytesAt v "identity_id") (← r.bytesAt v "credential_hash"))
  | "CredentialFound" => do pure (.credentialFound (← r.bytesAt v "credential"))
  | "KeyPackagesPublish" => do pure (.keyPackagesPublish (← r.byteBufsAt v "key_packages"))
  | "KeyPackagesAvailable" => do pure (.keyPackagesAvailable (← r.u32At v "count"))
  | "KeyPackagesClaim" => do pure (.keyPackagesClaim (← r.bytesAt v "identity_id") (← r.bytesAt v "device_id"))
  | "KeyPackageClaimed" => do pure (.keyPackageClaimed (← r.bytesAt v "key_package"))
  | "MailboxCreate" => do pure (.mailboxCreate (← r.bytesAt v "request_key") (← r.bytesAt v "read_capability")
      (← r.bytesAt v "write_capability"))
  | "MailboxCreated" => do pure (.mailboxCreated (← r.bytesAt v "mailbox_id") (← r.bytesAt v "read_capability")
      (← r.bytesAt v "write_capability"))
  | "EnvelopePut" => do pure (.envelopePut (← r.bytesAt v "mailbox_id") (← r.bytesAt v "write_capability")
      (← r.bytesAt v "delivery_id") (← r.u64At v "requested_expiry") (← r.bytesAt v "hpke_enc") (← r.bytesAt v "ciphertext"))
  | "EnvelopeAccepted" => do pure (.envelopeAccepted (← r.u64At v "effective_expiry"))
  | "EnvelopeFetch" => do pure (.envelopeFetch (← r.bytesAt v "mailbox_id") (← r.bytesAt v "read_capability")
      (← r.u64At v "cursor") (← r.u16At v "limit"))
  | "Envelopes" => do pure (.envelopes (← r.itemsAt v "items") (← r.u64At v "next_cursor"))
  | "EnvelopeAck" => do pure (.envelopeAck (← r.bytesAt v "mailbox_id") (← r.bytesAt v "read_capability")
      (← r.byteBufsAt v "delivery_ids"))
  | "BlobUploadBegin" => do pure (.blobUploadBegin (← r.u64At v "size"))
  | "BlobUploadStarted" => do pure (.blobUploadStarted (← r.bytesAt v "blob_id") (← r.bytesAt v "read_capability"))
  | "BlobChunk" => do pure (.blobChunk (← r.bytesAt v "blob_id") (← r.u64At v "offset") (← r.bytesAt v "data"))
  | "BlobCommit" => do pure (.blobCommit (← r.bytesAt v "blob_id") (← r.bytesAt v "ciphertext_hash")
      (← r.u64At v "requested_expiry"))
  | "BlobCommitted" => do pure (.blobCommitted (← r.u64At v "effective_expiry"))
  | "BlobFetch" => do pure (.blobFetch (← r.bytesAt v "blob_id") (← r.bytesAt v "read_capability") (← r.u64At v "offset")
      (← r.u32At v "length"))
  | "BlobData" => do pure (.blobData (← r.u64At v "total_size") (← r.bytesAt v "data"))
  | "Error" => do pure (.error (← r.u16At v "code") (← r.textAt v "message"))
  | _ => none

/-- A variant without fields does not look at what stands under its name. -/
def payload (i : Item) : Option Payload := do
  let (name, body) ← r.variant i
  match unitVariant name, body with
  | some p, _ => some p
  | none, some body => do r.structVariant (← r.struct body) name
  | none, none => none

def frame (i : Item) : Option Frame := do
  let v ← r.struct i
  pure ⟨← r.u64At v "id", ← (v "payload").bind r.payload⟩

end SerdeReader

def decode (r : SerdeReader) (b : Bytes) : Except CodecError Frame :=
  if RelayQueue.maxFrameBytes < b.length then .error (.tooLarge b.length)
  else match (r.read b).bind r.frame with
    | some f => .ok f
    | none => .error .decode

end Arveil.Codec

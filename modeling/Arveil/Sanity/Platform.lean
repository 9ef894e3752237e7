import Arveil.Sanity.Demo
import Arveil.Spec.Acts

/-! Libraries that can be evaluated. A group's state is its members in the open,
a message names the leaf that sent it and the members decide whether it is one of
theirs, and an envelope opens under the key and the context it was sealed for. -/

namespace Arveil.Demo

def member : Wire Member :=
  (Wire.uint32.both (Wire.bytes.optional.both Wire.bytes)).via (fun p => ⟨p.1, p.2.1, p.2.2⟩)
    (fun m => (m.index, m.deviceId, m.signatureKey)) (fun _ => rfl)

structure Group where
  id : Bytes
  epoch : UInt64
  own : UInt32
  members : List Member
deriving DecidableEq, Repr

def group : Wire Group :=
  (Wire.bytes.both (Wire.uint64.both (Wire.uint32.both member.list))).via
    (fun p => ⟨p.1, p.2.1, p.2.2.1, p.2.2.2⟩) (fun g => (g.id, g.epoch, g.own, g.members)) (fun _ => rfl)

/-- The state of a group that was never written is the empty group. -/
def groupOf (state : Bytes) : Group := (group.decode state).toOption.getD ⟨[], 0, 0, []⟩

def wireFormat : Wire WireFormat :=
  Wire.byte.via (fun b => if b = 0 then .publicMessage else if b = 1 then .privateMessage else if b = 2 then .welcome
    else if b = 3 then .groupInfo else .keyPackage)
    (fun | .publicMessage => 0 | .privateMessage => 1 | .welcome => 2 | .groupInfo => 3 | .keyPackage => 4)
    (fun f => by cases f <;> rfl)

def mlsMessage : Wire MlsMessage :=
  (wireFormat.both (Wire.bytes.optional.both Wire.bytes)).via (fun p => ⟨p.1, p.2.1, p.2.2⟩)
    (fun m => (m.wireFormat, m.groupId, m.content)) (fun _ => rfl)

/-- A key package names a device and its signature key. -/
def keyPackage : Wire (Bytes × Bytes) := Wire.bytes.both Wire.bytes

/-- What a member sends: the data of an application message, or the members after
a commit. -/
inductive Content where
  | application (leaf : UInt32) (data : Bytes)
  | commit (leaf : UInt32) (members : List Member)

def content : Wire Content :=
  (Wire.uint32.both (Wire.bytes.both member.list.optional)).via
    (fun | (leaf, _, some members) => .commit leaf members | (leaf, data, none) => .application leaf data)
    (fun | .application leaf data => (leaf, data, none) | .commit leaf members => (leaf, [], some members))
    (fun c => by cases c <;> rfl)

def welcome : Wire (Bytes × Group) := Wire.bytes.both group

def appEvent : Wire AppEvent :=
  (Wire.text.both Wire.bytes).via (fun p => ⟨p.1, p.2⟩) (fun e => (e.kind, e.body)) (fun _ => rfl)

def hello : Wire Hello :=
  (Wire.bytes.optional.both (Wire.bytes.optional.both Wire.text.optional)).via (fun p => ⟨p.1, p.2.1, p.2.2⟩)
    (fun h => (h.invitation, h.secret, h.name)) (fun _ => rfl)

def file : Wire FileDescriptor :=
  (Wire.byte.both (Wire.bytes.both (Wire.bytes.both (Wire.bytes.both (Wire.bytes.both (Wire.bytes.both
    (Wire.uint64.both (Wire.text.both Wire.text)))))))).via
    (fun p => ⟨p.1, p.2.1, p.2.2.1, p.2.2.2.1, p.2.2.2.2.1, p.2.2.2.2.2.1, p.2.2.2.2.2.2.1, p.2.2.2.2.2.2.2.1,
      p.2.2.2.2.2.2.2.2⟩)
    (fun f => (f.version, f.blobId, f.readCapability, f.fileKey, f.nonce, f.ciphertextHash, f.size, f.name, f.mime))
    (fun _ => rfl)

def context : Wire EnvelopeContext :=
  (Wire.byte.both (Wire.bytes.both (Wire.bytes.both Wire.bytes))).via (fun p => ⟨p.1, p.2.1, p.2.2.1, p.2.2.2⟩)
    (fun c => (c.version, c.realmId, c.mailboxId, c.deliveryId)) (fun _ => rfl)

def inner : Wire InnerPayload :=
  (Wire.byte.both (Wire.byte.both (Wire.bytes.both Wire.bytes))).via (fun p => ⟨p.1, p.2.1, p.2.2.1, p.2.2.2⟩)
    (fun i => (i.version, i.kind, i.payload, i.padding)) (fun _ => rfl)

/-- The key an envelope is for, its context and what it holds. -/
def sealedEnvelope : Wire (Bytes × EnvelopeContext × Bytes) := Wire.bytes.both (context.both Wire.bytes)

def join (packages : List KeyPackageRow) (msg : MlsMessage) : Except String (Bytes × Option Bytes) :=
  match welcome.decode msg.content with
  | .error e => .error e
  | .ok (used, g) =>
      if packages.any fun k => k.id = used then .ok (group.write g, some used) else .error "key package not found"

def process (revoked : Bytes → Bool) (state : Bytes) (msg : MlsMessage) : Except String (Bytes × ReceivedMessage) :=
  let g := groupOf state
  match content.decode msg.content with
  | .error e => .error e
  | .ok (.application leaf data) =>
      if g.members.any fun m => m.index = leaf then .ok (state, .applicationMessage leaf data)
      else .error "unknown sender"
  | .ok (.commit leaf members) =>
      if g.members.any (fun m => m.index = leaf && !m.deviceId.any revoked) then
        .ok (group.write { g with epoch := g.epoch + 1, members := members }, .commit leaf)
      else .error "commit refused"

def build (state : Bytes) (p : Proposals) : Except String (Bytes × CommitOutput) :=
  let g := groupOf state
  let kept := g.members.filter fun m => m.index ∉ p.removes
  let next := (g.members.map (·.index)).foldl max 0 + 1
  let added := p.adds.zipIdx.filterMap fun (kp, i) =>
    (keyPackage.decode kp.content).toOption.map fun (device, key) => (⟨next + i.toUInt32, some device, key⟩ : Member)
  let g' := { g with epoch := g.epoch + 1, members := kept ++ added }
  if g.own ∈ p.removes then .error "committer self removal"
  else .ok (group.write g', ⟨⟨.privateMessage, some g.id, content.write (.commit g.own (kept ++ added))⟩,
    p.adds.map fun kp => ⟨.welcome, none, welcome.write (kp.content, g')⟩⟩)

def platform : Platform where
  crypto := crypto
  mlsFromBytes := mlsMessage.decode
  mlsJoin := join
  mlsGroupNotFound := "group not found"
  mlsProcess := process
  mlsGroupId state := (groupOf state).id
  mlsEpoch state := (groupOf state).epoch
  mlsRoster state := (groupOf state).members
  mlsEncrypt _ state data :=
    let g := groupOf state
    .ok (state, mlsMessage.write ⟨.privateMessage, some g.id, content.write (.application g.own data)⟩)
  mlsOwnIndex state := (groupOf state).own
  mlsPolicy _ := .ok (some 2)
  mlsRulesError e := e
  mlsPropose state p :=
    if p.removes.all fun i => (groupOf state).members.any fun m => m.index = i then .ok () else .error "no such leaf"
  mlsBuild _ state p := build state p
  mlsApply := .ok
  mlsToBytes m := .ok (mlsMessage.write m)
  mlsSigningIdentity m :=
    if m.wireFormat = .keyPackage then (keyPackage.decode m.content).toOption.map fun (device, key) => (key, some device)
    else none
  encodeEvent := appEvent.write
  decodeEvent := appEvent.decode
  decodeHello := hello.decode
  decodeFile := file.decode
  decryptFile d ciphertext :=
    if ciphertext.drop d.size.toNat = d.nonce ++ [0, 0, 0, 0] then .ok (ciphertext.take d.size.toNat)
    else .error "attachment: authentication failed"
  encodeChange c := [UInt8.ofNat c.added.toNat, UInt8.ofNat c.removed.toNat]
  sealEnvelope entropy key ctx kind payload :=
    if key.length = 32 then .ok (entropy, sealedEnvelope.write (key, ctx, inner.write ⟨1, kind, payload, []⟩))
    else .error "invalid public key"
  hpkeOpen secretKey _ ctx ciphertext :=
    match sealedEnvelope.decode ciphertext with
    | .error e => .error e
    | .ok (key, ctx', plaintext) =>
        if key = publicKey secretKey ∧ ctx' = ctx then .ok plaintext else .error "open failed"
  decodeInner := inner.decode

/-- The device of identity `n`, with every key made from one byte. -/
def keysOf (n : UInt8) : DeviceKeys :=
  ⟨[n], [n], publicKey [n], [n, 1], publicKey [n, 1], publicKey [n, 2]⟩

def sessionOf (n : UInt8) : Session where
  device := ⟨keysOf n, [n, 2], [], []⟩
  realmId := [99]
  identityId := identityOf n

def routeOf (identity device mailbox cap : UInt8) : Bytes :=
  Route.text (identityOf identity) [device] [device, 3] (publicKey [identity]) [mailbox] [cap] (publicKey [device, 1])

/-- An envelope for the device of identity `n` in its mailbox. -/
def envelopeFor (n : UInt8) (mailbox deliveryId : Bytes) (msg : MlsMessage) : Bytes :=
  sealedEnvelope.write (publicKey [n, 1], ⟨1, [99], mailbox, deliveryId⟩, inner.write ⟨1, 1, mlsMessage.write msg, []⟩)

def profile : World where
  store := { Store.empty with
    identity := some ⟨none, publicKey [9], identityOf 9⟩
    mlsKeyPackages := ⟨[⟨[5], []⟩], by simp⟩ }
  sent := []

def item (seq : UInt64) (id : UInt8) (msg : MlsMessage) : EnvelopeItem := ⟨seq, [id], [], envelopeFor 9 [8] [id] msg⟩

/-- The message in which a leaf of a group sends an event. -/
def eventFrom (gid : Bytes) (leaf : UInt32) (kind : String) (body : Bytes) : MlsMessage :=
  ⟨.privateMessage, some gid, content.write (.application leaf (appEvent.write ⟨kind, body⟩))⟩

end Arveil.Demo

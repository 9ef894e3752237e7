import Arveil.Lib.Cbor
import Arveil.Spec.Pages

/-! How the relay writes the reply to a fetch (`relay/internal/channel/codec.go`): the keys
of each map in their deterministic order, and the frame refused when it is over the limit. -/

namespace Arveil.RelayQueue

def maxFrameBytes : Nat := 1024 * 1024

inductive CodecError where
  | frameTooLarge
deriving DecidableEq, Repr

def encodeItem (e : QueuedEnvelope) : Bytes :=
  Cbor.map [(Cbor.text (utf8 "seq"), Cbor.uint e.seq), (Cbor.text (utf8 "hpke_enc"), Cbor.bytes e.hpkeEnc),
    (Cbor.text (utf8 "ciphertext"), Cbor.bytes e.ciphertext), (Cbor.text (utf8 "delivery_id"), Cbor.bytes e.deliveryId)]

def encodeEnvelopes (items : List QueuedEnvelope) (next : Nat) : Bytes :=
  Cbor.map [(Cbor.text (utf8 "Envelopes"), Cbor.map [(Cbor.text (utf8 "items"), Cbor.array (items.map encodeItem)),
    (Cbor.text (utf8 "next_cursor"), Cbor.uint next)])]

def encodeWire (id : UInt64) (payload : Bytes) : Except CodecError Bytes :=
  let out := Cbor.map [(Cbor.text (utf8 "id"), Cbor.uint id.toNat), (Cbor.text (utf8 "payload"), payload)]
  if maxFrameBytes < out.length then .error .frameTooLarge else .ok out

/-- The reply to a fetch, written. -/
def fetchReply (id : UInt64) (mailboxId : Bytes) (cursor limit : Nat) (now : Int) (q : Queue) : Except CodecError Bytes :=
  let items := fetchEnvelopes mailboxId cursor limit now q
  encodeWire id (encodeEnvelopes items (nextCursor cursor items))

end Arveil.RelayQueue

import Arveil.Spec.Codec
import Arveil.Spec.Platform

/-! The inner payload of an envelope and its padding (`core/crates/arveil-core/src/envelope.rs`).
The encoded payload is padded to a bucket, so that its length tells little. -/

namespace Arveil.Envelope

open Cbor (Item struct)

inductive EnvelopeError where
  | tooLarge (length : Nat)
  | encode (reason : String)
deriving DecidableEq, Repr

def version : UInt8 := 1

/-- The largest matches the relay's envelope limit. -/
def buckets : List Nat := [256, 1024, 4096, 16384, 65536, 262144]

def bucketFor (encodedLength : Nat) : Except EnvelopeError Nat :=
  match buckets.find? fun b => encodedLength ≤ b with
  | some b => .ok b
  | none => .error (.tooLarge encodedLength)

def fields (p : InnerPayload) : List (String × Item) :=
  [("version", .uint p.version.toNat), ("kind", .uint p.kind.toNat), ("payload", .bytes p.payload), ("padding", .bytes p.padding)]

def canonical (p : InnerPayload) : Bytes := Codec.canonical (struct (fields p))

/-- What the header of a byte string takes over that of an empty one. -/
def innerPaddingOverhead (length : Nat) : Nat :=
  if length ≤ 23 then 0 else if length ≤ 255 then 1 else if length ≤ 65535 then 2 else 4

/-- The loop, for at most so many rounds: the header of the padding grows with it. -/
def padRounds (inner : InnerPayload) (target : Nat) : Nat → Nat → Except EnvelopeError Bytes
  | 0, _ => .error (.encode "padding did not converge")
  | rounds + 1, padLength =>
      let encoded := canonical { inner with padding := List.replicate (padLength - innerPaddingOverhead padLength) 0 }
      if encoded.length = target then .ok encoded
      else padRounds inner target rounds (padLength + target - encoded.length)

def pad (kind : UInt8) (payload : Bytes) : Except EnvelopeError Bytes :=
  let inner : InnerPayload := ⟨version, kind, payload, []⟩
  let base := (canonical inner).length
  match bucketFor base with
  | .error e => .error e
  | .ok target => padRounds inner target 4 (target - base)

/-- `from_reader` as an inner payload. -/
def decodeInner (r : Codec.SerdeReader) (b : Bytes) : Option InnerPayload := do
  let v ← (r.read b).bind r.struct
  let version ← (v "version").bind (r.uint 255)
  let kind ← (v "kind").bind (r.uint 255)
  pure ⟨UInt8.ofNat version, UInt8.ofNat kind, ← r.bytesAt v "payload", ← r.bytesAt v "padding"⟩

end Arveil.Envelope

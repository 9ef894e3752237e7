import Arveil.Lib.Chunks
import Arveil.Spec.Base

/-! Frames cut into Noise payloads, and put together again: the core's side and the
relay's. One fragment is a byte of flags and data; bit 0 of the flags marks the last
fragment of a frame. -/

namespace Arveil.Fragments

def maxNoiseMessage : Nat := 65535

def maxNoisePayload : Nat := maxNoiseMessage - 16

def flagLast : UInt8 := 1

/-- Data bytes per fragment. -/
def fragmentData : Nat := maxNoisePayload - 1

inductive FragmentError where
  | empty
  | unknownFlags (flags : UInt8)
  | tooLarge (limit : Nat)
deriving DecidableEq, Repr

def fragments (bytes : Bytes) : List Bytes :=
  let chunks := if bytes.isEmpty then [[]] else Chunks.chunks fragmentData bytes
  let last := chunks.length - 1
  chunks.mapIdx fun i chunk => (if i = last then flagLast else 0) :: chunk

structure Reassembler where
  limit : Nat
  buffer : Bytes
deriving DecidableEq, Repr

def Reassembler.new (limit : Nat) : Reassembler := ⟨limit, []⟩

def Reassembler.push (r : Reassembler) : Bytes → Except FragmentError (Option Bytes) × Reassembler
  | [] => (.error .empty, r)
  | flags :: data =>
    if flags &&& ~~~flagLast ≠ 0 then (.error (.unknownFlags flags), r)
    else if r.limit < r.buffer.length + data.length then (.error (.tooLarge r.limit), { r with buffer := [] })
    else if flags &&& flagLast ≠ 0 then (.ok (some (r.buffer ++ data)), { r with buffer := [] })
    else (.ok none, { r with buffer := r.buffer ++ data })

def Reassembler.isMidFrame (r : Reassembler) : Bool := !r.buffer.isEmpty

/-- One fragment after another, whatever the answers are. -/
def Reassembler.pushAll (r : Reassembler) : List Bytes → List (Except FragmentError (Option Bytes)) × Reassembler
  | [] => ([], r)
  | fragment :: stream =>
    let (answer, r') := r.push fragment
    let (answers, r'') := r'.pushAll stream
    (answer :: answers, r'')

end Arveil.Fragments

namespace Arveil.RelayFragments

def maxNoiseMessage : Nat := 65535

def maxNoisePayload : Nat := maxNoiseMessage - 16

def flagLast : UInt8 := 1

def fragmentData : Nat := maxNoisePayload - 1

inductive FragmentError where
  | emptyFragment
  | unknownFlags (flags : UInt8)
  | tooLarge
deriving DecidableEq, Repr

def fragmentLoop (b : Bytes) : List Bytes :=
  if _h : 0 < b.length then
    let n := min b.length fragmentData
    let rest := b.drop n
    ((if rest.length = 0 then flagLast else 0) :: b.take n) :: fragmentLoop rest
  else []
termination_by b.length
decreasing_by
  have hdata : 0 < fragmentData := by decide
  rw [List.length_drop]
  omega

def fragments (b : Bytes) : List Bytes := if b.length = 0 then [[flagLast]] else fragmentLoop b

structure Reassembler where
  limit : Nat
  buffer : Bytes
deriving DecidableEq, Repr

def newReassembler (limit : Nat) : Reassembler := ⟨limit, []⟩

/-- The three values `Push` returns. -/
structure Pushed where
  frame : Bytes
  done : Bool
  err : Option FragmentError
deriving DecidableEq, Repr

def Reassembler.push (r : Reassembler) : Bytes → Pushed × Reassembler
  | [] => (⟨[], false, some .emptyFragment⟩, r)
  | flags :: data =>
    if flags &&& ~~~flagLast ≠ 0 then (⟨[], false, some (.unknownFlags flags)⟩, r)
    else if r.limit < r.buffer.length + data.length then (⟨[], false, some .tooLarge⟩, { r with buffer := [] })
    else
      let r := { r with buffer := r.buffer ++ data }
      if flags &&& flagLast = 0 then (⟨[], false, none⟩, r) else (⟨r.buffer, true, none⟩, { r with buffer := [] })

def Reassembler.midFrame (r : Reassembler) : Bool := 0 < r.buffer.length

def Reassembler.pushAll (r : Reassembler) : List Bytes → List Pushed × Reassembler
  | [] => ([], r)
  | fragment :: stream =>
    let (answer, r') := r.push fragment
    let (answers, r'') := r'.pushAll stream
    (answer :: answers, r'')

/-- The relay's error for the core's; the core's names the limit as well. -/
def FragmentError.of : Fragments.FragmentError → FragmentError
  | .empty => .emptyFragment
  | .unknownFlags flags => .unknownFlags flags
  | .tooLarge _ => .tooLarge

def Pushed.of : Except Fragments.FragmentError (Option Bytes) → Pushed
  | .ok none => ⟨[], false, none⟩
  | .ok (some frame) => ⟨frame, true, none⟩
  | .error e => ⟨[], false, some (.of e)⟩

def Reassembler.of (r : Fragments.Reassembler) : Reassembler := ⟨r.limit, r.buffer⟩

end Arveil.RelayFragments

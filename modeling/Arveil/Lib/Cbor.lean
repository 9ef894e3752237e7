import Mathlib.Algebra.Order.Ring.Nat
import Mathlib.Data.List.Basic

/-! Deterministic CBOR as a writer: every number in the fewest bytes, every length in
front. Parts are written first and put together, so that the length of the whole is a sum
over its parts. -/

namespace Arveil.Cbor

/-- The `k` low bytes of a number, the highest first. -/
def bigEndian : Nat → Nat → List UInt8
  | 0, _ => []
  | k + 1, n => bigEndian k (n / 256) ++ [UInt8.ofNat (n % 256)]

@[simp] theorem bigEndian_length (k n : Nat) : (bigEndian k n).length = k := by
  induction k generalizing n with
  | zero => rfl
  | succ k ih => simp [bigEndian, ih]

/-- The kind of an item and its number or length. -/
def head (major n : Nat) : List UInt8 :=
  if n < 24 then [UInt8.ofNat (32 * major + n)]
  else if n < 2 ^ 8 then UInt8.ofNat (32 * major + 24) :: bigEndian 1 n
  else if n < 2 ^ 16 then UInt8.ofNat (32 * major + 25) :: bigEndian 2 n
  else if n < 2 ^ 32 then UInt8.ofNat (32 * major + 26) :: bigEndian 4 n
  else UInt8.ofNat (32 * major + 27) :: bigEndian 8 n

def headLength (n : Nat) : Nat :=
  if n < 24 then 1 else if n < 2 ^ 8 then 2 else if n < 2 ^ 16 then 3 else if n < 2 ^ 32 then 5 else 9

@[simp] theorem head_length (major n : Nat) : (head major n).length = headLength n := by
  unfold head headLength
  split_ifs <;> simp

theorem headLength_spec (n : Nat) : (n < 24 ∧ headLength n = 1) ∨ (24 ≤ n ∧ n < 2 ^ 8 ∧ headLength n = 2) ∨
    (2 ^ 8 ≤ n ∧ n < 2 ^ 16 ∧ headLength n = 3) ∨ (2 ^ 16 ≤ n ∧ n < 2 ^ 32 ∧ headLength n = 5) ∨
    (2 ^ 32 ≤ n ∧ headLength n = 9) := by
  unfold headLength
  split_ifs <;> omega

theorem headLength_le (n : Nat) : headLength n ≤ 9 := by
  unfold headLength
  split_ifs <;> omega

theorem headLength_mono {m n : Nat} (h : m ≤ n) : headLength m ≤ headLength n := by
  unfold headLength
  split_ifs <;> omega

def uint (n : Nat) : List UInt8 := head 0 n

def bytes (b : List UInt8) : List UInt8 := head 2 b.length ++ b

def text (s : List UInt8) : List UInt8 := head 3 s.length ++ s

def array (items : List (List UInt8)) : List UInt8 := head 4 items.length ++ items.flatten

def map (entries : List (List UInt8 × List UInt8)) : List UInt8 :=
  head 5 entries.length ++ (entries.map fun e => e.1 ++ e.2).flatten

@[simp] theorem uint_length (n : Nat) : (uint n).length = headLength n := head_length 0 n

@[simp] theorem bytes_length (b : List UInt8) : (bytes b).length = headLength b.length + b.length := by
  simp [bytes]

@[simp] theorem text_length (s : List UInt8) : (text s).length = headLength s.length + s.length := by
  simp [text]

theorem array_length (items : List (List UInt8)) :
    (array items).length = headLength items.length + (items.map List.length).sum := by
  simp [array, List.length_flatten]

theorem map_length (entries : List (List UInt8 × List UInt8)) :
    (map entries).length = headLength entries.length + (entries.map fun e => e.1.length + e.2.length).sum := by
  simp [map, List.length_flatten, Function.comp_def]

end Arveil.Cbor

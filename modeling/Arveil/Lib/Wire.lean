import Mathlib.Algebra.Order.Ring.Nat
import Mathlib.Data.List.Basic

/-! Self-delimiting byte forms. A form reads its own bytes back in front of any
rest, and products, lists and numbers inherit that from their parts. -/

namespace Arveil

/-- A byte form of `α` together with the proof that it reads back what it wrote. -/
structure Wire (α : Type) where
  write : α → List UInt8
  read : List UInt8 → Option (α × List UInt8)
  read_write : ∀ a rest, read (write a ++ rest) = some (a, rest)

namespace Wire

variable {α β : Type}

def byte : Wire UInt8 where
  write b := [b]
  read
    | [] => none
    | b :: rest => some (b, rest)
  read_write _ _ := rfl

def both (w : Wire α) (v : Wire β) : Wire (α × β) where
  write p := w.write p.1 ++ v.write p.2
  read bytes :=
    match w.read bytes with
    | none => none
    | some (a, rest) =>
        match v.read rest with
        | none => none
        | some (b, rest') => some ((a, b), rest')
  read_write p rest := by rw [List.append_assoc, w.read_write]; simp only [v.read_write]

/-- The same bytes for a type that `from_` maps into and `to_` maps back. -/
def via (w : Wire α) (to_ : α → β) (from_ : β → α) (h : ∀ b, to_ (from_ b) = b) : Wire β where
  write b := w.write (from_ b)
  read bytes := (w.read bytes).map fun p => (to_ p.1, p.2)
  read_write b rest := by rw [w.read_write, Option.map_some, h]

/-- A count in front of a list, to the base 128: a byte below 128 is the last. The
first argument bounds the bytes that follow. -/
def writeCount : Nat → Nat → List UInt8
  | 0, n => [UInt8.ofNat n]
  | fuel + 1, n =>
      if n < 128 then [UInt8.ofNat n] else UInt8.ofNat (128 + n % 128) :: writeCount fuel (n / 128)

def readCount : List UInt8 → Option (Nat × List UInt8)
  | [] => none
  | b :: rest =>
      if b.toNat < 128 then some (b.toNat, rest)
      else (readCount rest).map fun p => (b.toNat - 128 + 128 * p.1, p.2)

theorem readCount_writeCount {fuel n : Nat} (h : n ≤ fuel) (rest : List UInt8) :
    readCount (writeCount fuel n ++ rest) = some (n, rest) := by
  have hsmall : ∀ m, m < 128 → readCount ([UInt8.ofNat m] ++ rest) = some (m, rest) := by
    intro m hm
    have hb : (UInt8.ofNat m).toNat = m := UInt8.toNat_ofNat_of_lt' (by show m < 256; omega)
    simp [readCount, hb, hm]
  induction fuel generalizing n with
  | zero => exact hsmall n (by omega)
  | succ fuel ih =>
    by_cases hn : n < 128
    · simp only [writeCount, if_pos hn]
      exact hsmall n hn
    · have hb : (UInt8.ofNat (128 + n % 128)).toNat = 128 + n % 128 :=
        UInt8.toNat_ofNat_of_lt' (by show _ < 256; omega)
      simp only [writeCount, if_neg hn, List.cons_append, readCount, hb, ih (n := n / 128) (by omega)]
      rw [if_neg (by omega)]
      simp only [Option.map_some, Option.some.injEq, Prod.mk.injEq, and_true]
      omega

def readMany (w : Wire α) : Nat → List UInt8 → Option (List α × List UInt8)
  | 0, bytes => some ([], bytes)
  | n + 1, bytes =>
      match w.read bytes with
      | none => none
      | some (a, rest) => (readMany w n rest).map fun p => (a :: p.1, p.2)

theorem readMany_write (w : Wire α) (as : List α) (rest : List UInt8) :
    readMany w as.length ((as.map w.write).flatten ++ rest) = some (as, rest) := by
  induction as with
  | nil => rfl
  | cons a as ih =>
    rw [List.map_cons, List.flatten_cons, List.append_assoc, List.length_cons, readMany, w.read_write]
    simp only [ih, Option.map_some]

def list (w : Wire α) : Wire (List α) where
  write as := writeCount as.length as.length ++ (as.map w.write).flatten
  read bytes := (readCount bytes).bind fun p => readMany w p.1 p.2
  read_write as rest := by
    rw [List.append_assoc, readCount_writeCount (Nat.le_refl _)]
    exact readMany_write w as rest

def optional (w : Wire α) : Wire (Option α) :=
  w.list.via List.head? Option.toList (fun o => by cases o <;> rfl)

/-- The `k` low digits of a number to the base 256, the lowest first. -/
def digits : Nat → Nat → List UInt8
  | 0, _ => []
  | k + 1, n => UInt8.ofNat (n % 256) :: digits k (n / 256)

theorem digits_length (k n : Nat) : (digits k n).length = k := by
  induction k generalizing n with
  | zero => rfl
  | succ k ih => simp [digits, ih]

def readDigits : Nat → List UInt8 → Option (Nat × List UInt8)
  | 0, bytes => some (0, bytes)
  | _ + 1, [] => none
  | k + 1, b :: rest => (readDigits k rest).map fun p => (b.toNat + 256 * p.1, p.2)

theorem readDigits_digits (k n : Nat) (rest : List UInt8) :
    readDigits k (digits k n ++ rest) = some (n % 256 ^ k, rest) := by
  induction k generalizing n with
  | zero => simp [readDigits, digits, Nat.mod_one]
  | succ k ih =>
    simp only [digits, List.cons_append, readDigits, ih, Option.map_some, Option.some.injEq, Prod.mk.injEq, and_true]
    rw [UInt8.toNat_ofNat_of_lt' (Nat.mod_lt _ (by decide)), Nat.pow_succ']
    exact (Nat.mod_mul).symm

/-- Numbers below `256 ^ k`, in `k` bytes. -/
def fixed (k : Nat) : Wire { n : Nat // n < 256 ^ k } where
  write n := digits k n.1
  read bytes :=
    match readDigits k bytes with
    | none => none
    | some (n, rest) => if h : n < 256 ^ k then some (⟨n, h⟩, rest) else none
  read_write n rest := by
    rw [readDigits_digits, Nat.mod_eq_of_lt n.2]
    simp [n.2]

def uint32 : Wire UInt32 :=
  (fixed 4).via (fun n => UInt32.ofNat n.1) (fun u => ⟨u.toNat, u.toNat_lt⟩) (fun u => by simp)

def uint64 : Wire UInt64 :=
  (fixed 8).via (fun n => UInt64.ofNat n.1) (fun u => ⟨u.toNat, u.toNat_lt⟩) (fun u => by simp)

def char : Wire Char :=
  (fixed 4).via (fun n => Char.ofNat n.1) (fun c => ⟨c.toNat, c.val.toNat_lt⟩) (fun c => Char.ofNat_toNat c)

def bytes : Wire (List UInt8) where
  write b := writeCount b.length b.length ++ b
  read bytes := (readCount bytes).bind fun p =>
    if p.1 ≤ p.2.length then some (p.2.take p.1, p.2.drop p.1) else none
  read_write b rest := by
    rw [List.append_assoc, readCount_writeCount (Nat.le_refl _)]
    simp

def text : Wire String := char.list.via String.ofList String.toList (fun _ => String.ofList_toList)

def decode (w : Wire α) (b : List UInt8) : Except String α :=
  match w.read b with
  | some (a, []) => .ok a
  | _ => .error "malformed"

theorem decode_write (w : Wire α) (a : α) : w.decode (w.write a) = .ok a := by
  have h := w.read_write a []
  rw [List.append_nil] at h
  simp only [decode, h]

end Wire

end Arveil

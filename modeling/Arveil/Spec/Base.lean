import Mathlib.Data.List.Basic
import Arveil.Lib.Prog
import Arveil.Lib.Table
import Arveil.Lib.Trace

/-! Byte strings, the text forms the client reads and writes, and its error types. -/

namespace Arveil

abbrev Bytes := List UInt8

instance bytesLawful : LawfulBEq Bytes := inferInstance

def utf8 (s : String) : Bytes := s.toUTF8.data.toList

theorem utf8_ofList_length (cs : List Char) : (utf8 (String.ofList cs)).length ≤ 4 * cs.length := by
  show (String.ofList cs).utf8ByteSize ≤ 4 * cs.length
  induction cs with
  | nil => simp
  | cons c cs ih =>
    have hc := c.utf8Size_le_four
    simp only [String.ofList_cons, String.utf8ByteSize_append, String.utf8ByteSize_singleton, List.length_cons]
    omega

def hexDigit (n : UInt8) : UInt8 := if n < 10 then 48 + n else 87 + n

/-- `hex::encode`, as the bytes of its text. -/
def hexEncode : Bytes → Bytes
  | [] => []
  | b :: bs => hexDigit (b / 16) :: hexDigit (b % 16) :: hexEncode bs

def hexValue (c : UInt8) : Option UInt8 :=
  if 48 ≤ c ∧ c ≤ 57 then some (c - 48)
  else if 97 ≤ c ∧ c ≤ 102 then some (c - 87)
  else if 65 ≤ c ∧ c ≤ 70 then some (c - 55)
  else none

def hexPairs (i : Nat) : Bytes → Except String Bytes
  | hi :: lo :: rest =>
      match hexValue hi, hexValue lo with
      | none, _ => .error ("Invalid character " ++ (Char.ofNat hi.toNat).quote ++ " at position " ++ toString i)
      | _, none =>
          .error ("Invalid character " ++ (Char.ofNat lo.toNat).quote ++ " at position " ++ toString (i + 1))
      | some h, some l =>
          match hexPairs (i + 2) rest with
          | .ok bs => .ok ((h * 16 + l) :: bs)
          | .error e => .error e
  | _ => .ok []

/-- `hex::decode` -/
def hexDecode (text : Bytes) : Except String Bytes :=
  if text.length % 2 ≠ 0 then .error "Odd number of digits" else hexPairs 0 text

def hexOf (b : Bytes) : String := String.ofList ((hexEncode b).map fun c => Char.ofNat c.toNat)

def isWhitespace (c : Char) : Bool :=
  let n := c.toNat
  (9 ≤ n && n ≤ 13) || n = 0x20 || n = 0x85 || n = 0xA0 || n = 0x1680 || (0x2000 ≤ n && n ≤ 0x200A) ||
    n = 0x2028 || n = 0x2029 || n = 0x202F || n = 0x205F || n = 0x3000

def isControl (c : Char) : Bool := c.toNat < 0x20 || (0x7F ≤ c.toNat && c.toNat ≤ 0x9F)

def trim (s : String) : String :=
  String.ofList (((s.toList.dropWhile isWhitespace).reverse.dropWhile isWhitespace).reverse)

def maxNameBytes : Nat := 64

/-- A name a person may give themselves: trimmed, bounded, printable. -/
def cleanName (name : String) : Option String :=
  let n := trim name
  if n.isEmpty || maxNameBytes < (utf8 n).length || n.toList.any isControl then none else some n

/-- What the database refuses. -/
inductive SqlError where
  | constraint (what : String)
  | invalidQuery
deriving DecidableEq, Repr

def SqlError.message : SqlError → String
  | .constraint what => "UNIQUE constraint failed: " ++ what
  | .invalidQuery => "Query is not read-only"

inductive CliError where
  | transport (message : String)
  | storage (message : String)
  | protocol (message : String)
  | relay (code : Nat) (message : String)
  | domain (message : String)
  | fileSystem (message : String)
  | internal (message : String)
  | interrupted (exitCode : Nat) (message : String)
deriving DecidableEq, Repr

def CliError.relayCode : CliError → Option Nat
  | .relay code _ => some code
  | _ => none

def storageError (context e : String) : CliError := .storage (context ++ ": " ++ e)
def protocolError (context e : String) : CliError := .protocol (context ++ ": " ++ e)
def domainError (context e : String) : CliError := .domain (context ++ ": " ++ e)

theorem hexValue_hexDigit (n : UInt8) (h : n < 16) : hexValue (hexDigit n) = some n := by
  have hall : ∀ k : Fin 16, hexValue (hexDigit (UInt8.ofNat k)) = some (UInt8.ofNat k) := by decide
  have hn : n.toNat < 16 := by simpa [UInt8.lt_iff_toNat_lt] using h
  simpa using hall ⟨n.toNat, hn⟩

theorem nibbles (b : UInt8) : b / 16 < 16 ∧ b % 16 < 16 ∧ b / 16 * 16 + b % 16 = b := by
  have hb := b.toNat_lt
  refine ⟨?_, ?_, ?_⟩
  · simp only [UInt8.lt_iff_toNat_lt, UInt8.toNat_div, UInt8.reduceToNat]
    omega
  · simp only [UInt8.lt_iff_toNat_lt, UInt8.toNat_mod, UInt8.reduceToNat]
    omega
  · apply UInt8.toNat_inj.1
    simp only [UInt8.toNat_add, UInt8.toNat_mul, UInt8.toNat_div, UInt8.toNat_mod, UInt8.reduceToNat]
    omega

theorem hexEncode_length (b : Bytes) : (hexEncode b).length = 2 * b.length := by
  induction b with
  | nil => rfl
  | cons x bs ih => simp only [hexEncode, List.length_cons, ih]; omega

theorem hexPairs_hexEncode (i : Nat) (b : Bytes) : hexPairs i (hexEncode b) = .ok b := by
  induction b generalizing i with
  | nil => rfl
  | cons x bs ih =>
    obtain ⟨hhi, hlo, hsum⟩ := nibbles x
    simp only [hexEncode, hexPairs, hexValue_hexDigit _ hhi, hexValue_hexDigit _ hlo, ih, hsum]

theorem hexDecode_hexEncode (b : Bytes) : hexDecode (hexEncode b) = .ok b := by
  unfold hexDecode
  rw [if_neg (by rw [hexEncode_length]; omega), hexPairs_hexEncode]

end Arveil

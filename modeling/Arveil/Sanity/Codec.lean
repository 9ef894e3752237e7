import Arveil.Sanity.Cbor
import Arveil.Spec.RelayCodec

/-! CBOR readers that keep the laws the codecs rest on: they read back every item that is
written, the relay's one with its limit on arrays. -/

namespace Arveil.Demo

open Cbor (Item)

theorem foldl_bigEndian (k n a : Nat) :
    (Cbor.bigEndian k n).foldl (fun a (x : UInt8) => a * 256 + x.toNat) a = a * 256 ^ k + n % 256 ^ k := by
  induction k generalizing n with
  | zero => simp [Cbor.bigEndian, Nat.mod_one]
  | succ k ih =>
    have hbyte : (UInt8.ofNat (n % 256)).toNat = n % 256 := UInt8.toNat_ofNat_of_lt' (Nat.mod_lt _ (by decide))
    have hmod : n % (256 * 256 ^ k) = n % 256 + 256 * (n / 256 % 256 ^ k) := Nat.mod_mul
    rw [Cbor.bigEndian, List.foldl_append, ih, List.foldl_cons, List.foldl_nil, hbyte, Nat.pow_succ', hmod, Nat.add_mul]
    rw [Nat.mul_comm 256 (n / 256 % 256 ^ k), Nat.mul_assoc, Nat.mul_comm (256 ^ k) 256, Nat.add_assoc, Nat.add_comm (n % 256)]

theorem readHead_wide {major low k n : Nat} (hmajor : major < 8) (hlow : 24 ≤ low ∧ low < 32) (hwidth : width low = some k) (hn : n < 256 ^ k)
    (rest : Bytes) : readHead ((UInt8.ofNat (32 * major + low) :: Cbor.bigEndian k n) ++ rest) = some ((major, n), rest) := by
  have hbyte : (UInt8.ofNat (32 * major + low)).toNat = 32 * major + low := UInt8.toNat_ofNat_of_lt' (by show _ < 256; omega)
  have hmod : (32 * major + low) % 32 = low := by omega
  have hdiv : (32 * major + low) / 32 = major := by omega
  have htake : take k (Cbor.bigEndian k n ++ rest) = some (Cbor.bigEndian k n, rest) := by
    have hlength := Cbor.bigEndian_length k n
    rw [take, if_pos (by rw [List.length_append]; omega), List.take_left' hlength, List.drop_left' hlength]
  rw [List.cons_append, readHead, hbyte, hmod, hdiv, if_neg (by omega), hwidth, Option.bind_some, htake, Option.map_some]
  dsimp only
  rw [foldl_bigEndian, Nat.zero_mul, Nat.zero_add, Nat.mod_eq_of_lt hn]

theorem readHead_head {major n : Nat} (hmajor : major < 8) (hn : n < 2 ^ 64) (rest : Bytes) :
    readHead (Cbor.head major n ++ rest) = some ((major, n), rest) := by
  unfold Cbor.head
  split_ifs with h1 h2 h3 h4
  · have hbyte : (UInt8.ofNat (32 * major + n)).toNat = 32 * major + n := UInt8.toNat_ofNat_of_lt' (by show _ < 256; omega)
    have hmod : (32 * major + n) % 32 = n := by omega
    have hdiv : (32 * major + n) / 32 = major := by omega
    rw [List.cons_append, readHead, hbyte, hmod, hdiv, if_pos h1]
    rfl
  · exact readHead_wide hmajor (by decide) rfl (by simpa using h2) rest
  · exact readHead_wide hmajor (by decide) rfl (by simpa using h3) rest
  · exact readHead_wide hmajor (by decide) rfl (by simpa using h4) rest
  · exact readHead_wide hmajor (by decide) rfl (by simpa using hn) rest

def textOf (b : Bytes) : Option String := String.fromUTF8? ⟨b.toArray⟩

theorem textOf_utf8Bytes (s : String) : textOf (Cbor.utf8Bytes s) = some s := by
  have hbytes : (⟨(Cbor.utf8Bytes s).toArray⟩ : ByteArray) = s.toUTF8 := by simp [Cbor.utf8Bytes]
  have hvalid : s.toUTF8.IsValidUTF8 := s.isValidUTF8
  rw [textOf, hbytes, String.fromUTF8?, dif_pos hvalid]
  rfl

def simple : Nat → Option Item
  | 20 => some (.bool false)
  | 21 => some (.bool true)
  | 22 => some .null
  | _ => none

/-- One item nested no deeper than the first argument. -/
def readItem : Nat → Bytes → Option (Item × Bytes)
  | 0, _ => none
  | depth + 1, b => (readHead b).bind fun h =>
      match h.1.1 with
      | 0 => some (.uint h.1.2, h.2)
      | 2 => (take h.1.2 h.2).map fun p => (.bytes p.1, p.2)
      | 3 => (take h.1.2 h.2).bind fun p => (textOf p.1).map fun s => (.text s, p.2)
      | 4 => (many (readItem depth) h.1.2 h.2).map fun p => (.array p.1, p.2)
      | 5 => (many (pair (readItem depth)) h.1.2 h.2).map fun p => (.map p.1, p.2)
      | 7 => (simple h.1.2).map fun i => (i, h.2)
      | _ => none

theorem take_append (a rest : Bytes) : take a.length (a ++ rest) = some (a, rest) := by
  rw [take, if_pos (by rw [List.length_append]; omega), List.take_left, List.drop_left]

theorem many_append {α : Type} {read : Bytes → Option (α × Bytes)} {write : α → Bytes} {as : List α}
    (h : ∀ a ∈ as, ∀ rest, read (write a ++ rest) = some (a, rest)) (rest : Bytes) :
    many read as.length ((as.map write).flatten ++ rest) = some (as, rest) := by
  induction as with
  | nil => rfl
  | cons a as ih =>
    rw [List.map_cons, List.flatten_cons, List.append_assoc, List.length_cons, many, h a List.mem_cons_self, Option.bind_some,
      ih fun b hb => h b (List.mem_cons_of_mem a hb)]
    rfl

theorem write_pos {d : Nat} {i : Item} (h : i.Plain d) : 0 < i.write.length := by
  have hhead : ∀ major n, 0 < (Cbor.head major n).length := by
    intro major n
    rw [Cbor.head_length, Cbor.headLength]
    split_ifs <;> omega
  cases i with
  | uint n => exact hhead 0 n
  | bytes b =>
    rw [Item.write, Cbor.bytes, List.length_append]
    exact Nat.add_pos_left (hhead _ _) _
  | text s =>
    rw [Item.write, Cbor.text, List.length_append]
    exact Nat.add_pos_left (hhead _ _) _
  | array items =>
    rw [Item.write, List.length_append]
    exact Nat.add_pos_left (hhead _ _) _
  | map entries =>
    rw [Item.write, List.length_append]
    exact Nat.add_pos_left (hhead _ _) _
  | bool b => exact Nat.one_pos
  | null => exact Nat.one_pos
  | other raw => cases d <;> exact h.elim

theorem length_le_flatten {α : Type} {write : α → Bytes} {as : List α} (h : ∀ a ∈ as, 0 < (write a).length) :
    as.length ≤ ((as.map write).flatten).length ∧ ∀ a ∈ as, (write a).length ≤ ((as.map write).flatten).length := by
  induction as with
  | nil => exact ⟨Nat.le_refl _, fun a ha => by cases ha⟩
  | cons a as ih =>
    have hpos := h a List.mem_cons_self
    obtain ⟨hle, hall⟩ := ih fun b hb => h b (List.mem_cons_of_mem a hb)
    rw [List.map_cons, List.flatten_cons, List.length_append, List.length_cons]
    refine ⟨by omega, fun b hb => ?_⟩
    rcases List.mem_cons.1 hb with rfl | hb
    · omega
    · have hb' := hall b hb
      omega

theorem readItem_uint (depth n : Nat) (hn : n < 2 ^ 64) (rest : Bytes) :
    readItem (depth + 1) ((Item.uint n).write ++ rest) = some (.uint n, rest) := by
  rw [readItem, Item.write, Cbor.uint, readHead_head (by decide) hn]
  rfl

theorem readItem_bytes (depth : Nat) (b : Bytes) (hb : b.length < 2 ^ 64) (rest : Bytes) :
    readItem (depth + 1) ((Item.bytes b).write ++ rest) = some (.bytes b, rest) := by
  rw [readItem, Item.write, Cbor.bytes, List.append_assoc, readHead_head (by decide) hb]
  show (take b.length (b ++ rest)).map _ = _
  rw [take_append]
  rfl

theorem readItem_text (depth : Nat) (s : String) (hs : (Cbor.utf8Bytes s).length < 2 ^ 64) (rest : Bytes) :
    readItem (depth + 1) ((Item.text s).write ++ rest) = some (.text s, rest) := by
  rw [readItem, Item.write, Cbor.text, List.append_assoc, readHead_head (by decide) hs]
  show ((take (Cbor.utf8Bytes s).length (Cbor.utf8Bytes s ++ rest)).bind fun p => (textOf p.1).map fun s => (Item.text s, p.2)) = _
  rw [take_append, Option.bind_some, textOf_utf8Bytes]
  rfl

theorem readItem_write {d : Nat} {i : Item} (h : i.Plain d) (hlength : i.write.length < 2 ^ 64) (rest : Bytes) :
    readItem (d + 1) (i.write ++ rest) = some (i, rest) := by
  induction d generalizing i rest with
  | zero =>
    cases i with
    | uint n => exact readItem_uint 0 n h rest
    | bytes b =>
      rw [Item.write, Cbor.bytes_length] at hlength
      exact readItem_bytes 0 b (by omega) rest
    | text s =>
      rw [Item.write, Cbor.text_length] at hlength
      exact readItem_text 0 s (by omega) rest
    | bool b => cases b <;> rfl
    | null => rfl
    | array items => exact h.elim
    | map entries => exact h.elim
    | other raw => exact h.elim
  | succ d ih =>
    cases i with
    | uint n => exact readItem_uint (d + 1) n h rest
    | bytes b =>
      rw [Item.write, Cbor.bytes_length] at hlength
      exact readItem_bytes (d + 1) b (by omega) rest
    | text s =>
      rw [Item.write, Cbor.text_length] at hlength
      exact readItem_text (d + 1) s (by omega) rest
    | bool b => cases b <;> rfl
    | null => rfl
    | array items =>
      rw [Item.write, Cbor.writeItems_eq, List.length_append] at hlength
      obtain ⟨hcount, hall⟩ := @length_le_flatten Item Item.write items fun i hi => write_pos (h i hi)
      rw [readItem, Item.write, Cbor.writeItems_eq, List.append_assoc, readHead_head (by decide) (by omega)]
      show (many (readItem (d + 1)) items.length _).map _ = _
      rw [many_append fun i hi rest => ih (h i hi) (by have hi' := hall i hi; omega) rest]
      rfl
    | map entries =>
      obtain ⟨fields, rfl, hnames, hvalues⟩ := h
      rw [Item.write, Cbor.writeEntries_eq, List.length_append] at hlength
      obtain ⟨hcount, hall⟩ := @length_le_flatten (Item × Item) (fun e => e.1.write ++ e.2.write) (fields.map fun f => (.text f.1, f.2))
        fun e he => by
          obtain ⟨f, hf, rfl⟩ := List.mem_map.1 he
          rw [List.length_append]
          exact Nat.add_pos_right _ (write_pos (hvalues f hf))
      rw [readItem, Item.write, Cbor.writeEntries_eq, List.append_assoc, readHead_head (by decide) (by omega)]
      show (many (pair (readItem (d + 1))) (List.length _) _).map _ = _
      rw [many_append fun e he rest => ?_]
      · rfl
      · obtain ⟨f, hf, rfl⟩ := List.mem_map.1 he
        have hpair : ((Item.text f.1).write ++ f.2.write).length ≤ _ := hall _ he
        rw [List.length_append] at hpair
        have htext : (Item.text f.1).write.length = Cbor.headLength (Cbor.utf8Bytes f.1).length + (Cbor.utf8Bytes f.1).length :=
          Cbor.text_length _
        rw [pair, List.append_assoc, readItem_text d f.1 (by omega), Option.bind_some, ih (hvalues f hf) (by omega)]
        rfl
    | other raw => exact h.elim

def read (b : Bytes) : Option Item :=
  match readItem (Cbor.maxNesting + 1) b with
  | some (i, []) => some i
  | _ => none

theorem read_write {i : Item} (h : i.Plain Cbor.maxNesting) (hlength : i.write.length < 2 ^ 64) : read i.write = some i := by
  have hitem := readItem_write h hlength []
  rw [List.append_nil] at hitem
  rw [read, hitem]

def reader (read : Bytes → Option Item) : Cbor.Reader where
  read := read
  entries
    | .map es => some es
    | _ => none
  field es name := Cbor.lookup name es
  uint max
    | .uint n => if n ≤ max then some n else none
    | _ => none
  bytes
    | .bytes b => some b
    | _ => none
  text
    | .text s => some s
    | _ => none
  bool
    | .bool b => some b
    | _ => none
  seq
    | .array items => some items
    | _ => none

theorem reader_lawful {read : Bytes → Option Item} {limit : Option Nat}
    (hread : ∀ i : Item, i.Plain Cbor.maxNesting → i.write.length < 2 ^ 64 → (∀ n ∈ limit, i.Short n Cbor.maxNesting) → read i.write = some i)
    (hlong : ∀ i : Item, i.Plain Cbor.maxNesting → i.write.length < 2 ^ 64 → ∀ n ∈ limit, ¬ i.Short n Cbor.maxNesting → read i.write = none) :
    (reader read).Lawful limit where
  read_write := hread
  read_long := hlong
  entries_map _ := rfl
  field_named fields _ name := Cbor.lookup_fields name fields
  uint_uint _ _ h := if_pos h
  bytes_bytes _ := rfl
  text_text _ := rfl
  text_map _ := rfl
  bool_bool _ := rfl
  seq_array _ := rfl

def serdeReader : Codec.SerdeReader where
  toReader := reader read
  variant
    | .text name => some (name, none)
    | .map [(.text name, body)] => some (name, some body)
    | _ => none

theorem serdeReader_lawful : serdeReader.Lawful where
  toLawful := reader_lawful (fun _ h hlength _ => read_write h hlength) fun _ _ _ _ hn => by cases hn
  variant_text _ := rfl
  variant_map _ _ := rfl

open Classical in
noncomputable def goReader : RelayCodec.GoReader where
  toReader := reader fun b => (read b).filter fun i => i.Short RelayCodec.maxArrayElements Cbor.maxNesting
  tagged
    | .map [(.text name, body)] => some [(name, body)]
    | _ => none

open Classical in
theorem goReader_lawful : goReader.Lawful where
  toLawful := by
    refine reader_lawful (fun i h hlength hshort => ?_) fun i h hlength n hn hlong => ?_
    · rw [read_write h hlength, Option.filter_some, if_pos (decide_eq_true (hshort RelayCodec.maxArrayElements rfl))]
    · obtain rfl := Option.mem_some.1 hn
      rw [read_write h hlength, Option.filter_some, if_neg (by simpa using hlong)]
  tagged_map _ _ := rfl

end Arveil.Demo

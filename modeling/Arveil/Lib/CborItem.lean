import Mathlib.Data.List.Sort
import Arveil.Lib.Cbor

/-! Data items of CBOR, as trees: how they are written, maps sorted by their written keys, and
what is asked of a library that reads them. -/

namespace Arveil.Cbor

inductive Item where
  | uint (n : Nat)
  | bytes (b : List UInt8)
  | text (s : String)
  | array (items : List Item)
  | map (entries : List (Item × Item))
  | bool (b : Bool)
  | null
  /-- Negative numbers, tags, floats and what else has a byte form. -/
  | other (raw : List UInt8)

def utf8Bytes (s : String) : List UInt8 := s.toUTF8.data.toList

mutual

def Item.write : Item → List UInt8
  | .uint n => uint n
  | .bytes b => Cbor.bytes b
  | .text s => Cbor.text (utf8Bytes s)
  | .array items => head 4 items.length ++ writeItems items
  | .map entries => head 5 entries.length ++ writeEntries entries
  | .bool b => [if b then 245 else 244]
  | .null => [246]
  | .other raw => raw

def writeItems : List Item → List UInt8
  | [] => []
  | i :: is => i.write ++ writeItems is

def writeEntries : List (Item × Item) → List UInt8
  | [] => []
  | (k, v) :: es => k.write ++ v.write ++ writeEntries es

end

theorem writeItems_eq (items : List Item) : writeItems items = (items.map Item.write).flatten := by
  induction items with
  | nil => rfl
  | cons i is ih => rw [writeItems, ih, List.map_cons, List.flatten_cons]

theorem writeEntries_eq (entries : List (Item × Item)) :
    writeEntries entries = (entries.map fun e => e.1.write ++ e.2.write).flatten := by
  induction entries with
  | nil => rfl
  | cons e es ih => rw [writeEntries, ih, List.map_cons, List.flatten_cons]

/-- Bytewise lexical order. -/
def bytewise : List UInt8 → List UInt8 → Bool
  | [], _ => true
  | _ :: _, [] => false
  | a :: as, b :: bs => if a = b then bytewise as bs else decide (a < b)

/-- Shorter first, and bytewise among the equally long. -/
def lengthFirst (a b : List UInt8) : Bool :=
  if a.length = b.length then bytewise a b else decide (a.length < b.length)

section sorting

variable (le : List UInt8 → List UInt8 → Bool)

mutual

/-- Every map with its entries in the order of their written keys. -/
def Item.sorted : Item → Item
  | .array items => .array (sortedItems items)
  | .map entries => .map ((sortedValues entries).insertionSort fun a b => le a.1.write b.1.write = true)
  | .uint n => .uint n
  | .bytes b => .bytes b
  | .text s => .text s
  | .bool b => .bool b
  | .null => .null
  | .other raw => .other raw

def sortedItems : List Item → List Item
  | [] => []
  | i :: is => i.sorted :: sortedItems is

def sortedValues : List (Item × Item) → List (Item × Item)
  | [] => []
  | (k, v) :: es => (k, v.sorted) :: sortedValues es

end

/-- Only the outermost map sorted. -/
def Item.sortedTop : Item → Item
  | .map entries => .map (entries.insertionSort fun a b => le a.1.write b.1.write = true)
  | i => i

theorem sortedItems_eq (items : List Item) : sortedItems le items = items.map (Item.sorted le) := by
  induction items with
  | nil => rfl
  | cons i is ih => rw [sortedItems, ih, List.map_cons]

theorem sortedValues_eq (entries : List (Item × Item)) : sortedValues le entries = entries.map fun e => (e.1, e.2.sorted le) := by
  induction entries with
  | nil => rfl
  | cons e es ih => rw [sortedValues, ih, List.map_cons]

end sorting

def struct (fields : List (String × Item)) : Item := .map (fields.map fun f => (.text f.1, f.2))

def Item.isText (name : String) : Item → Bool
  | .text s => s = name
  | _ => false

def lookup (name : String) (entries : List (Item × Item)) : Option Item :=
  (entries.find? fun e => e.1.isText name).map (·.2)

/-- Distinct names that are each written with a head of one byte. -/
def goodNames (names : List String) : Bool := decide names.Nodup && names.all fun s => (utf8Bytes s).length < 24

/-- Numbers of 64 bits, maps from good names, and no more nesting than that. -/
def Item.Plain : Nat → Item → Prop
  | _, .uint n => n < 2 ^ 64
  | _, .bytes _ => True
  | _, .text _ => True
  | _, .bool _ => True
  | _, .null => True
  | d + 1, .array items => ∀ i ∈ items, Item.Plain d i
  | d + 1, .map entries => ∃ fields : List (String × Item), entries = fields.map (fun f => (.text f.1, f.2)) ∧
      goodNames (fields.map (·.1)) = true ∧ ∀ f ∈ fields, Item.Plain d f.2
  | _, _ => False

/-- No array is longer than the limit. -/
def Item.Short (limit : Nat) : Nat → Item → Prop
  | d + 1, .array items => items.length ≤ limit ∧ ∀ i ∈ items, Item.Short limit d i
  | d + 1, .map entries => ∀ e ∈ entries, Item.Short limit d e.2
  | _, _ => True

section kept

variable {le le' : List UInt8 → List UInt8 → Bool}

/-- Names in the order of their written keys. -/
def sortedFields (le : List UInt8 → List UInt8 → Bool) (fields : List (String × Item)) : List (String × Item) :=
  (fields.map fun f => (f.1, f.2.sorted le)).insertionSort fun a b => le (Item.text a.1).write (Item.text b.1).write = true

theorem sorted_struct (fields : List (String × Item)) : (struct fields).sorted le = struct (sortedFields le fields) := by
  rw [struct, Item.sorted, sortedValues_eq, List.map_map, struct, sortedFields]
  congr 1
  rw [List.map_insertionSort (fun a b : String × Item => le (Item.text a.1).write (Item.text b.1).write = true)
    (fun a b : Item × Item => le a.1.write b.1.write = true) (fun f : String × Item => (Item.text f.1, f.2)) _ fun _ _ _ _ => Iff.rfl]
  rw [List.map_map]
  rfl

theorem sortedFields_perm (fields : List (String × Item)) :
    (sortedFields le fields).Perm (fields.map fun f => (f.1, f.2.sorted le)) := List.perm_insertionSort _ _

theorem sortedFields_names (fields : List (String × Item)) : ((sortedFields le fields).map (·.1)).Perm (fields.map (·.1)) := by
  have h := (@sortedFields_perm le fields).map (·.1)
  rw [List.map_map] at h
  exact h

theorem goodNames_perm {names names' : List String} (h : names.Perm names') : goodNames names = goodNames names' := by
  unfold goodNames
  rw [decide_eq_decide.2 h.nodup_iff]
  congr 1
  rw [Bool.eq_iff_iff, List.all_eq_true, List.all_eq_true]
  exact ⟨fun hall s hs => hall s (h.mem_iff.2 hs), fun hall s hs => hall s (h.mem_iff.1 hs)⟩

theorem plain_sorted {d : Nat} {i : Item} (h : i.Plain d) : (i.sorted le).Plain d := by
  induction d generalizing i with
  | zero => cases i <;> exact h
  | succ d ih =>
    cases i with
    | array items =>
      rw [Item.sorted, sortedItems_eq]
      intro j hj
      obtain ⟨i, hi, rfl⟩ := List.mem_map.1 hj
      exact ih (h i hi)
    | map entries =>
      obtain ⟨fields, rfl, hnames, hvalues⟩ := h
      have hsorted := @sorted_struct le fields
      rw [struct] at hsorted
      rw [hsorted]
      refine ⟨sortedFields le fields, rfl, (goodNames_perm (sortedFields_names fields)).trans hnames, fun f hf => ?_⟩
      obtain ⟨g, hg, rfl⟩ := List.mem_map.1 ((sortedFields_perm fields).mem_iff.1 hf)
      exact ih (hvalues g hg)
    | other raw => exact h.elim
    | uint n => exact h
    | bytes b => exact h
    | text s => exact h
    | bool b => exact h
    | null => exact h

theorem short_sorted {limit d : Nat} {i : Item} (hp : i.Plain d) : (i.sorted le).Short limit d ↔ i.Short limit d := by
  induction d generalizing i with
  | zero => cases i <;> exact Iff.rfl
  | succ d ih =>
    cases i with
    | array items =>
      rw [Item.sorted, sortedItems_eq]
      simp only [Item.Short, List.length_map, List.forall_mem_map]
      exact and_congr_right fun _ => forall₂_congr fun i hi => ih (hp i hi)
    | map entries =>
      obtain ⟨fields, rfl, -, hvalues⟩ := hp
      have hsorted := @sorted_struct le fields
      rw [struct] at hsorted
      rw [hsorted, struct]
      simp only [Item.Short, List.forall_mem_map]
      constructor
      · intro h f hf
        exact (ih (hvalues f hf)).1 (h _ ((sortedFields_perm fields).mem_iff.2 (List.mem_map_of_mem hf)))
      · intro h f hf
        obtain ⟨g, hg, rfl⟩ := List.mem_map.1 ((sortedFields_perm fields).mem_iff.1 hf)
        exact (ih (hvalues g hg)).2 (h g hg)
    | other raw => exact hp.elim
    | uint n => exact Iff.rfl
    | bytes b => exact Iff.rfl
    | text s => exact Iff.rfl
    | bool b => exact Iff.rfl
    | null => exact Iff.rfl

theorem sorted_congr (hle : ∀ s t, (utf8Bytes s).length < 24 → (utf8Bytes t).length < 24 →
      le (Item.text s).write (Item.text t).write = le' (Item.text s).write (Item.text t).write)
    {d : Nat} {i : Item} (h : i.Plain d) : i.sorted le = i.sorted le' := by
  induction d generalizing i with
  | zero => cases i <;> first | rfl | exact h.elim
  | succ d ih =>
    cases i with
    | array items =>
      rw [Item.sorted, Item.sorted, sortedItems_eq, sortedItems_eq]
      congr 1
      exact List.map_congr_left fun i hi => ih (h i hi)
    | map entries =>
      obtain ⟨fields, rfl, hnames, hvalues⟩ := h
      have hsorted := @sorted_struct le fields
      have hsorted' := @sorted_struct le' fields
      rw [struct] at hsorted hsorted'
      rw [hsorted, hsorted', sortedFields, sortedFields]
      congr 1
      have hsame : (fields.map fun f => (f.1, f.2.sorted le)) = fields.map fun f => (f.1, f.2.sorted le') :=
        List.map_congr_left fun f hf => by rw [ih (hvalues f hf)]
      have hshort : ∀ f ∈ fields.map (fun f => (f.1, f.2.sorted le')), (utf8Bytes f.1).length < 24 := by
        intro f hf
        obtain ⟨g, hg, rfl⟩ := List.mem_map.1 hf
        have hall := List.all_eq_true.1 (Bool.and_eq_true _ _ ▸ hnames).2 g.1 (List.mem_map_of_mem hg)
        exact of_decide_eq_true hall
      have hsort := List.map_insertionSort (fun a b : String × Item => le (Item.text a.1).write (Item.text b.1).write = true)
        (fun a b : String × Item => le' (Item.text a.1).write (Item.text b.1).write = true) id
        (fields.map fun f => (f.1, f.2.sorted le')) fun a ha b hb => by rw [hle a.1 b.1 (hshort a ha) (hshort b hb)]; exact Iff.rfl
      rw [List.map_id, List.map_id] at hsort
      rw [hsame, hsort]
    | other raw => exact h.elim
    | uint n => rfl
    | bytes b => rfl
    | text s => rfl
    | bool b => rfl
    | null => rfl

theorem lengthFirst_text {s t : String} (hs : (utf8Bytes s).length < 24) (ht : (utf8Bytes t).length < 24) :
    lengthFirst (Item.text s).write (Item.text t).write = bytewise (Item.text s).write (Item.text t).write := by
  have hwrite : ∀ u, (utf8Bytes u).length < 24 → (Item.text u).write = UInt8.ofNat (96 + (utf8Bytes u).length) :: utf8Bytes u := by
    intro u hu
    rw [Item.write, Cbor.text, head, if_pos hu]
    rfl
  rw [hwrite s hs, hwrite t ht, lengthFirst, List.length_cons, List.length_cons]
  by_cases hlength : (utf8Bytes s).length = (utf8Bytes t).length
  · rw [if_pos (by rw [hlength])]
  · rw [if_neg (by omega), bytewise]
    have hfirst : ∀ n, n < 24 → (UInt8.ofNat (96 + n)).toNat = 96 + n := fun n hn => UInt8.toNat_ofNat_of_lt' (by show 96 + n < 256; omega)
    have hne : UInt8.ofNat (96 + (utf8Bytes s).length) ≠ UInt8.ofNat (96 + (utf8Bytes t).length) := by
      intro h
      have hnat := congrArg UInt8.toNat h
      rw [hfirst _ hs, hfirst _ ht] at hnat
      omega
    rw [if_neg hne, decide_eq_decide, UInt8.lt_iff_toNat_lt, hfirst _ hs, hfirst _ ht]
    omega

/-- Sorting by length first is sorting bytewise. -/
theorem sorted_lengthFirst {d : Nat} {i : Item} (h : i.Plain d) : i.sorted lengthFirst = i.sorted bytewise :=
  sorted_congr (fun _ _ hs ht => lengthFirst_text hs ht) h

theorem struct_length (fields : List (String × Item)) :
    (struct fields).write.length = headLength fields.length + (fields.map fun f => (Item.text f.1).write.length + f.2.write.length).sum := by
  rw [struct, Item.write, List.length_append, head_length, List.length_map, writeEntries_eq, List.length_flatten, List.map_map, List.map_map]
  congr 2
  exact List.map_congr_left fun f _ => List.length_append

theorem sorted_struct_length (fields : List (String × Item)) :
    ((struct fields).sorted le).write.length =
      headLength fields.length + (fields.map fun f => (Item.text f.1).write.length + (f.2.sorted le).write.length).sum := by
  have hperm := @sortedFields_perm le fields
  rw [sorted_struct, struct_length, hperm.length_eq, List.length_map, (hperm.map _).sum_nat, List.map_map]
  rfl

/-- The value under a name of a struct. -/
def named (name : String) (fields : List (String × Item)) : Option Item := (fields.find? fun f => f.1 = name).map (·.2)

theorem named_nil (name : String) : named name [] = none := rfl

theorem named_cons (name : String) (f : String × Item) (fields : List (String × Item)) :
    named name (f :: fields) = if f.1 = name then some f.2 else named name fields := by
  unfold named
  rw [List.find?_cons]
  by_cases h : f.1 = name <;> simp [h]

theorem lookup_fields (name : String) (fields : List (String × Item)) :
    lookup name (fields.map fun f => (.text f.1, f.2)) = named name fields := by
  unfold lookup named
  rw [List.find?_map, Option.map_map]
  rfl

theorem named_eq_some {name : String} {fields : List (String × Item)} (h : (fields.map (·.1)).Nodup) {i : Item} :
    named name fields = some i ↔ (name, i) ∈ fields := by
  unfold named
  rw [Option.map_eq_some_iff]
  constructor
  · rintro ⟨f, hf, rfl⟩
    have hname : f.1 = name := by simpa using List.find?_some hf
    rw [← hname]
    exact List.mem_of_find?_eq_some hf
  · intro hmem
    cases hf : fields.find? fun f => f.1 = name with
    | none => exact absurd (List.find?_eq_none.1 hf _ hmem) (by simp)
    | some f =>
      refine ⟨f, rfl, ?_⟩
      have hname : f.1 = name := by simpa using List.find?_some hf
      rw [List.inj_on_of_nodup_map h (List.mem_of_find?_eq_some hf) hmem hname]

theorem named_sortedFields {fields : List (String × Item)} (h : goodNames (fields.map (·.1)) = true) (name : String) :
    named name (sortedFields le fields) = (named name fields).map (Item.sorted le) := by
  have hnodup : (fields.map (·.1)).Nodup := of_decide_eq_true (Bool.and_eq_true _ _ ▸ h).1
  have hnodup' : ((sortedFields le fields).map (·.1)).Nodup := (sortedFields_names fields).nodup_iff.2 hnodup
  ext i
  rw [named_eq_some hnodup', (sortedFields_perm fields).mem_iff, Option.map_eq_some_iff, List.mem_map]
  constructor
  · rintro ⟨⟨n, j⟩, hmem, heq⟩
    obtain ⟨rfl, rfl⟩ := Prod.mk.inj heq
    exact ⟨j, (named_eq_some hnodup).2 hmem, rfl⟩
  · rintro ⟨j, hj, rfl⟩
    exact ⟨(name, j), (named_eq_some hnodup).1 hj, rfl⟩

end kept

/-- A library that reads one item and gives its parts out as values of the language: `field` is
the entry of a map that fills the field of a struct, `uint` a number of at most that value. -/
structure Reader where
  read : List UInt8 → Option Item
  entries : Item → Option (List (Item × Item))
  field : List (Item × Item) → String → Option Item
  uint : Nat → Item → Option Nat
  bytes : Item → Option (List UInt8)
  text : Item → Option String
  bool : Item → Option Bool
  seq : Item → Option (List Item)

/-- How deep items may be nested that a reader takes. -/
def maxNesting : Nat := 32

/-- It reads what is written, within its limit on the length of arrays if it has one, and
takes each kind of item as what it is. -/
structure Reader.Lawful (r : Reader) (limit : Option Nat) : Prop where
  read_write : ∀ i : Item, i.Plain maxNesting → i.write.length < 2 ^ 64 → (∀ n ∈ limit, i.Short n maxNesting) → r.read i.write = some i
  read_long : ∀ i : Item, i.Plain maxNesting → i.write.length < 2 ^ 64 → ∀ n ∈ limit, ¬ i.Short n maxNesting → r.read i.write = none
  entries_map : ∀ es, r.entries (.map es) = some es
  field_named : ∀ fields : List (String × Item), goodNames (fields.map (·.1)) = true → ∀ name,
    r.field (fields.map fun f => (.text f.1, f.2)) name = named name fields
  uint_uint : ∀ max n, n ≤ max → r.uint max (.uint n) = some n
  bytes_bytes : ∀ b, r.bytes (.bytes b) = some b
  text_text : ∀ s, r.text (.text s) = some s
  text_map : ∀ es, r.text (.map es) = none
  bool_bool : ∀ b, r.bool (.bool b) = some b
  seq_array : ∀ items, r.seq (.array items) = some items

/-- A map as what its names say. -/
def Reader.struct (r : Reader) (i : Item) : Option (String → Option Item) := (r.entries i).map r.field

theorem struct_sorted {r : Reader} {limit : Option Nat} (h : r.Lawful limit) {le : List UInt8 → List UInt8 → Bool} {fields : List (String × Item)}
    (hnames : goodNames (fields.map (·.1)) = true) :
    r.struct ((struct fields).sorted le) = some fun name => (named name fields).map (Item.sorted le) := by
  rw [sorted_struct, Reader.struct, struct, h.entries_map, Option.map_some]
  congr 1
  funext name
  rw [h.field_named _ ((goodNames_perm (sortedFields_names fields)).trans hnames), named_sortedFields hnames]

end Arveil.Cbor

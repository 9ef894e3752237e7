import Arveil.Sanity.Codec

/-! The frame catalog, twice. The core and the relay list the variants and their fields
independently; every frame the core writes is read by the relay with the same values and
written back to the same bytes, but for a mailbox request without a key and arrays the
relay's decoder does not take. -/

namespace Arveil.RelayCodec

open Cbor (Item struct goodNames)
open Codec (u64 u32 u16)

/-- The older form of a mailbox request, which the relay writes as a bare name. -/
def keyless : Codec.Payload → Bool
  | .mailboxCreate requestKey _ _ => requestKey.length = 0
  | _ => false

theorem item_of_envelope (e : Codec.EnvelopeItem) : (EnvelopeItem.of e).item = e.item := rfl

theorem item_of_invitation (i : Codec.InvitationRecord) : (nonNilInvitation (.of i)).item = i.item := rfl

theorem slice_of {α β : Type} {f : β → Item} {g : α → Item} {of : α → β} (h : ∀ a, f (of a) = g a) (as : List α) :
    slice f (some (as.map of)) = .array (as.map g) := by
  rw [slice, List.map_map]
  congr 1
  exact List.map_congr_left fun a _ => h a

theorem payloadItem_of {p : Codec.Payload} (h : keyless p = false) : payloadItem (.of p) = some p.item := by
  cases p with
  | mailboxCreate requestKey readCapability writeCapability =>
    have hkey : ¬ requestKey.length = 0 := of_decide_eq_false h
    show (if requestKey.length = 0 then _ else _) = _
    rw [if_neg hkey]
    rfl
  | keyPackagesPublish keyPackages => exact congrArg (fun i => tagged .keyPackagesPublish [("key_packages", i)]) (slice_of (fun _ => rfl) keyPackages)
  | envelopes items next =>
    exact congrArg (fun i => tagged .envelopes [("items", i), ("next_cursor", u64 next)]) (slice_of item_of_envelope items)
  | envelopeAck mailboxId readCapability ids =>
    exact congrArg (fun i => tagged .envelopeAck [("mailbox_id", .bytes mailboxId), ("read_capability", .bytes readCapability), ("delivery_ids", i)])
      (slice_of (fun _ => rfl) ids)
  | invitations records next =>
    have hrecords : (records.map InvitationRecord.of).map (fun i => (nonNilInvitation i).item) = records.map Codec.InvitationRecord.item := by
      rw [List.map_map]
      exact List.map_congr_left fun i _ => item_of_invitation i
    exact congrArg (fun is => tagged .invitations [("invitations", .array is), ("next_cursor", u64 next)]) hrecords
  | _ => rfl

section plain

variable {d : Nat}

theorem plain_struct {fields : List (String × Item)} (hnames : goodNames (fields.map (·.1)) = true) (h : ∀ f ∈ fields, f.2.Plain d) :
    (struct fields).Plain (d + 1) := ⟨fields, rfl, hnames, h⟩

theorem plain_variant {name : String} {fields : List (String × Item)} (hname : goodNames [name] = true)
    (hnames : goodNames (fields.map (·.1)) = true) (h : ∀ f ∈ fields, f.2.Plain d) : (Codec.variant name fields).Plain (d + 2) := by
  refine plain_struct hname fun f hf => ?_
  obtain rfl := List.mem_singleton.1 hf
  exact plain_struct hnames h

@[simp] theorem plain_u64 (n : UInt64) : (u64 n).Plain d := by
  have hlt := n.toNat_lt
  cases d <;> exact hlt

@[simp] theorem plain_u32 (n : UInt32) : (u32 n).Plain d := by
  have hlt : n.toNat < 2 ^ 64 := lt_trans n.toNat_lt (by decide)
  cases d <;> exact hlt

@[simp] theorem plain_u16 (n : UInt16) : (u16 n).Plain d := by
  have hlt : n.toNat < 2 ^ 64 := lt_trans n.toNat_lt (by decide)
  cases d <;> exact hlt

@[simp] theorem plain_bytes (b : Bytes) : (Item.bytes b).Plain d := by cases d <;> trivial

@[simp] theorem plain_text (s : String) : (Item.text s).Plain d := by cases d <;> trivial

@[simp] theorem plain_bool (b : Bool) : (Item.bool b).Plain d := by cases d <;> trivial

@[simp] theorem plain_array {α : Type} (f : α → Item) (as : List α) (h : ∀ a, (f a).Plain d) : (Item.array (as.map f)).Plain (d + 1) := by
  intro i hi
  obtain ⟨a, -, rfl⟩ := List.mem_map.1 hi
  exact h a

@[simp] theorem plain_envelope (e : Codec.EnvelopeItem) : e.item.Plain (d + 1) :=
  plain_struct (by simp only [List.map_cons, List.map_nil]; decide) (by simp)

@[simp] theorem plain_invitation (i : Codec.InvitationRecord) : i.item.Plain (d + 1) :=
  plain_struct (by simp only [List.map_cons, List.map_nil]; decide) (by simp)

theorem plain_payload (p : Codec.Payload) : p.item.Plain (d + 5) := by
  cases p
  all_goals first
    | exact plain_text _
    | exact plain_variant (by decide) (by simp only [List.map_cons, List.map_nil]; decide) (by simp [Codec.byteBufs])

def within : Codec.Payload → Bool
  | .keyPackagesPublish keyPackages => keyPackages.length ≤ maxArrayElements
  | .envelopeAck _ _ deliveryIds => deliveryIds.length ≤ maxArrayElements
  | .envelopes items _ => items.length ≤ maxArrayElements
  | .invitations records _ => records.length ≤ maxArrayElements
  | _ => true

section short

variable {limit : Nat}

theorem short_scalar {i : Item} (h : ∀ items, i ≠ .array items) (h' : ∀ es, i ≠ .map es) : i.Short limit d := by
  cases i with
  | array items => exact absurd rfl (h items)
  | map es => exact absurd rfl (h' es)
  | _ => cases d <;> trivial

theorem short_u64 (n : UInt64) : (u64 n).Short limit d := short_scalar nofun nofun

theorem short_u32 (n : UInt32) : (u32 n).Short limit d := short_scalar nofun nofun

theorem short_u16 (n : UInt16) : (u16 n).Short limit d := short_scalar nofun nofun

theorem short_bytes (b : Bytes) : (Item.bytes b).Short limit d := short_scalar nofun nofun

theorem short_text (s : String) : (Item.text s).Short limit d := short_scalar nofun nofun

theorem short_bool (b : Bool) : (Item.bool b).Short limit d := short_scalar nofun nofun

theorem short_struct {fields : List (String × Item)} : (struct fields).Short limit (d + 1) ↔ ∀ f ∈ fields, f.2.Short limit d := by
  simp only [struct, Item.Short, List.forall_mem_map]

theorem short_variant {name : String} {fields : List (String × Item)} :
    (Codec.variant name fields).Short limit (d + 2) ↔ ∀ f ∈ fields, f.2.Short limit d := by
  rw [Codec.variant, short_struct, List.forall_mem_singleton, short_struct]

theorem short_array {α : Type} {f : α → Item} (h : ∀ a, (f a).Short limit d) (as : List α) :
    (Item.array (as.map f)).Short limit (d + 1) ↔ as.length ≤ limit := by
  simp only [Item.Short, List.length_map, List.forall_mem_map]
  exact ⟨fun hs => hs.1, fun hs => ⟨hs, fun a _ => h a⟩⟩

theorem short_byteBufs (bs : List Bytes) : (Codec.byteBufs bs).Short limit (d + 1) ↔ bs.length ≤ limit := short_array short_bytes bs

theorem short_envelope (e : Codec.EnvelopeItem) : e.item.Short limit (d + 1) := by
  simp only [Codec.EnvelopeItem.item, short_struct, List.forall_mem_cons, short_u64, short_bytes, List.not_mem_nil, false_implies,
    implies_true, and_true]

theorem short_envelopes (es : List Codec.EnvelopeItem) : (Item.array (es.map Codec.EnvelopeItem.item)).Short limit (d + 2) ↔ es.length ≤ limit :=
  short_array short_envelope es

theorem short_invitation (i : Codec.InvitationRecord) : i.item.Short limit (d + 1) := by
  simp only [Codec.InvitationRecord.item, short_struct, List.forall_mem_cons, short_u64, short_bytes, short_text, List.not_mem_nil,
    false_implies, implies_true, and_true]

theorem short_invitations (is : List Codec.InvitationRecord) :
    (Item.array (is.map Codec.InvitationRecord.item)).Short limit (d + 2) ↔ is.length ≤ limit := short_array short_invitation is

theorem short_payload (p : Codec.Payload) : p.item.Short maxArrayElements (d + 5) ↔ within p = true := by
  cases p <;> simp only [Codec.Payload.item, within, short_variant, List.forall_mem_cons, short_u64, short_u32, short_u16, short_bytes,
    short_text, short_bool, short_byteBufs, short_envelopes, short_invitation, short_invitations, List.not_mem_nil, false_implies,
    implies_true, and_true, true_and, decide_eq_true_eq]

end short

end plain

section fields

variable {le : Bytes → Bytes → Bool}

@[simp] theorem sorted_u64 (n : UInt64) : (u64 n).sorted le = u64 n := rfl

@[simp] theorem sorted_u32 (n : UInt32) : (u32 n).sorted le = u32 n := rfl

@[simp] theorem sorted_u16 (n : UInt16) : (u16 n).sorted le = u16 n := rfl

@[simp] theorem sorted_bytes (b : Bytes) : (Item.bytes b).sorted le = .bytes b := rfl

@[simp] theorem sorted_text (s : String) : (Item.text s).sorted le = .text s := rfl

@[simp] theorem sorted_bool (b : Bool) : (Item.bool b).sorted le = .bool b := rfl

theorem sorted_array (items : List Item) : (Item.array items).sorted le = .array (items.map (Item.sorted le)) := by
  rw [Item.sorted, Cbor.sortedItems_eq]

theorem sorted_variant (name : String) (fields : List (String × Item)) :
    (Codec.variant name fields).sorted le = .map [(.text name, (struct fields).sorted le)] := by
  rw [Codec.variant, Cbor.sorted_struct]
  rfl

theorem mapM_sorted {α β : Type} {f : α → Item} {element : Item → Option β} {g : α → β} (h : ∀ a, element ((f a).sorted le) = some (g a))
    (as : List α) : ((as.map f).map (Item.sorted le)).mapM element = some (as.map g) := by
  induction as with
  | nil => rfl
  | cons a as ih =>
    rw [List.map_cons, List.map_cons, List.mapM_cons, h a, ih]
    rfl

end fields

section relay

variable {r : GoReader} (hr : r.Lawful) {le : Bytes → Bytes → Bool}

include hr

theorem u64Of_u64 (n : UInt64) : r.u64Of (some (u64 n)) = some n := by
  have hlt := n.toNat_lt
  show (r.uint (2 ^ 64 - 1) (.uint n.toNat)).map UInt64.ofNat = _
  rw [hr.uint_uint _ _ (by omega), Option.map_some, UInt64.ofNat_toNat]

theorem u32Of_u32 (n : UInt32) : r.u32Of (some (u32 n)) = some n := by
  have hlt := n.toNat_lt
  show (r.uint (2 ^ 32 - 1) (.uint n.toNat)).map UInt32.ofNat = _
  rw [hr.uint_uint _ _ (by omega), Option.map_some, UInt32.ofNat_toNat]

theorem u16Of_u16 (n : UInt16) : r.u16Of (some (u16 n)) = some n := by
  have hlt := n.toNat_lt
  show (r.uint (2 ^ 16 - 1) (.uint n.toNat)).map UInt16.ofNat = _
  rw [hr.uint_uint _ _ (by omega), Option.map_some, UInt16.ofNat_toNat]

theorem bytesOf_bytes (b : Bytes) : r.bytesOf (some (.bytes b)) = some (some b) := by
  show (r.bytes (.bytes b)).map some = _
  rw [hr.bytes_bytes, Option.map_some]

theorem orZero_text (s : String) : orZero "" r.text (some (.text s)) = some s := hr.text_text s

theorem orZero_bool (b : Bool) : orZero false r.bool (some (.bool b)) = some b := hr.bool_bool b

theorem sliceOf_array {α β : Type} {f : α → Item} {element : Item → Option β} {g : α → β}
    (h : ∀ a, element ((f a).sorted le) = some (g a)) (as : List α) :
    r.sliceOf element (some ((Item.array (as.map f)).sorted le)) = some (some (as.map g)) := by
  rw [sorted_array]
  show ((r.seq _).bind fun items => (items.mapM element).map some) = _
  rw [hr.seq_array, Option.bind_some, mapM_sorted h, Option.map_some]

theorem reads_envelope (e : Codec.EnvelopeItem) : r.envelopeItem (e.item.sorted le) = some (.of e) := by
  rw [GoReader.envelopeItem, Codec.EnvelopeItem.item, Cbor.struct_sorted hr.toLawful (by simp only [List.map_cons, List.map_nil]; decide)]
  simp [GoReader.u64At, GoReader.bytesAt, Cbor.named, u64Of_u64 hr, bytesOf_bytes hr, EnvelopeItem.of]

theorem reads_invitation (i : Codec.InvitationRecord) : r.invitationRecord (i.item.sorted le) = some (.of i) := by
  rw [GoReader.invitationRecord, Codec.InvitationRecord.item, Cbor.struct_sorted hr.toLawful (by simp only [List.map_cons, List.map_nil]; decide)]
  simp [GoReader.u64At, GoReader.bytesAt, GoReader.textAt, Cbor.named, u64Of_u64 hr, bytesOf_bytes hr, orZero_text hr, InvitationRecord.of]

omit hr in
theorem orZero_struct {α : Type} (zero : α) (read : Item → Option α) (fields : List (String × Item)) :
    orZero zero read (some ((struct fields).sorted le)) = read ((struct fields).sorted le) := by
  rw [Cbor.sorted_struct]
  rfl

theorem orZero_envelope (e : Codec.EnvelopeItem) : orZero {} r.envelopeItem (some (e.item.sorted le)) = some (.of e) :=
  (orZero_struct {} r.envelopeItem _).trans (reads_envelope hr e)

theorem orZero_invitation (i : Codec.InvitationRecord) : orZero {} r.invitationRecord (some (i.item.sorted le)) = some (.of i) :=
  (orZero_struct {} r.invitationRecord _).trans (reads_invitation hr i)

theorem sliceOf_envelopes (es : List Codec.EnvelopeItem) :
    r.sliceOf (fun i => orZero {} r.envelopeItem (some i)) (some ((Item.array (es.map Codec.EnvelopeItem.item)).sorted le)) =
      some (some (es.map .of)) := sliceOf_array hr (orZero_envelope hr) es

theorem sliceOf_invitations (is : List Codec.InvitationRecord) :
    r.sliceOf (fun i => orZero {} r.invitationRecord (some i)) (some ((Item.array (is.map Codec.InvitationRecord.item)).sorted le)) =
      some (some (is.map .of)) := sliceOf_array hr (orZero_invitation hr) is

theorem sliceOf_byteBufs (bs : List Bytes) :
    r.sliceOf (fun i => r.bytesOf (some i)) (some ((Codec.byteBufs bs).sorted le)) = some (some (bs.map some)) :=
  sliceOf_array hr (bytesOf_bytes hr) bs

theorem fill_struct {fields : List (String × Item)} (hnames : goodNames (fields.map (·.1)) = true)
    (of : (String → Option Item) → Option Payload) :
    r.fill ((struct fields).sorted le) of = some (of fun name => (Cbor.named name fields).map (Item.sorted le)) := by
  rw [GoReader.fill, Cbor.struct_sorted hr.toLawful hnames, Option.bind_some]

theorem reads_fields (p : Codec.Payload) :
    (p.item = .text (Payload.of p).kind.name ∧ (Payload.of p).kind ∈ GoReader.unitKinds ∧ Payload.of p = { kind := (Payload.of p).kind }) ∨
      ∃ fields, p.item = Codec.variant (Payload.of p).kind.name fields ∧ (Payload.of p).kind ∈ kinds ∧
        r.decodeBody ((struct fields).sorted le) (Payload.of p).kind = some (some (.of p)) := by
  cases p
  all_goals first
    | exact Or.inl ⟨rfl, by simp [Payload.of, GoReader.unitKinds], rfl⟩
    | refine Or.inr ⟨_, rfl, by simp [Payload.of, kinds], (fill_struct hr (by simp only [List.map_cons, List.map_nil]; decide) _).trans ?_⟩
      simp only [GoReader.u64At, GoReader.u32At, GoReader.u16At, GoReader.bytesAt, GoReader.textAt, GoReader.boolAt, GoReader.invitationAt,
        GoReader.invitationsAt, GoReader.envelopeItemsAt, GoReader.byteSlicesAt, GoReader.sliceAt, Cbor.named_cons, Cbor.named_nil,
        String.reduceEq, if_true, if_false, Option.map_some, sorted_u64, sorted_u32, sorted_u16, sorted_bytes, sorted_text, sorted_bool,
        u64Of_u64 hr, u32Of_u32 hr, u16Of_u16 hr, bytesOf_bytes hr, orZero_text hr, orZero_bool hr, orZero_invitation hr,
        sliceOf_envelopes hr, sliceOf_invitations hr, sliceOf_byteBufs hr, Option.bind_eq_bind, Option.bind_some, Option.pure_def, Payload.of]

omit hr in
theorem unitKinds_find {k : Kind} (hk : k ∈ GoReader.unitKinds) : (GoReader.unitKinds.find? fun k' => k'.name = k.name) = some k := by
  have h : ∀ k ∈ GoReader.unitKinds, (GoReader.unitKinds.find? fun k' => k'.name = k.name) = some k := by decide +kernel
  exact h k hk

omit hr in
theorem ofName_name {k : Kind} (hk : k ∈ kinds) : Kind.ofName k.name = k := by
  have h : ∀ k ∈ kinds, Kind.ofName k.name = k := by decide +kernel
  exact h k hk

theorem reads_payload (p : Codec.Payload) : r.payload (p.item.sorted le) = .ok (.of p) := by
  rcases @reads_fields r hr le p with ⟨hitem, hkind, hof⟩ | ⟨fields, hitem, hkind, hbody⟩
  · rw [hitem, sorted_text, GoReader.payload, hr.text_text]
    dsimp only
    rw [unitKinds_find hkind]
    dsimp only
    rw [← hof]
  · rw [hitem, sorted_variant, GoReader.payload, hr.text_map, hr.tagged_map]
    dsimp only
    rw [ofName_name hkind, hbody]

end relay

section core

variable {r : Codec.SerdeReader} (hr : r.Lawful) {le : Bytes → Bytes → Bool}

include hr

theorem core_u64Of (n : UInt64) : r.u64Of (u64 n) = some n := by
  have hlt := n.toNat_lt
  rw [Codec.SerdeReader.u64Of, u64, hr.uint_uint _ _ (by omega), Option.map_some, UInt64.ofNat_toNat]

theorem core_u32Of (n : UInt32) : r.u32Of (u32 n) = some n := by
  have hlt := n.toNat_lt
  rw [Codec.SerdeReader.u32Of, u32, hr.uint_uint _ _ (by omega), Option.map_some, UInt32.ofNat_toNat]

theorem core_u16Of (n : UInt16) : r.u16Of (u16 n) = some n := by
  have hlt := n.toNat_lt
  rw [Codec.SerdeReader.u16Of, u16, hr.uint_uint _ _ (by omega), Option.map_some, UInt16.ofNat_toNat]

theorem core_seq {α : Type} {f : α → Item} {element : Item → Option α} (h : ∀ a, element ((f a).sorted le) = some a) (as : List α) :
    (r.seq ((Item.array (as.map f)).sorted le)).bind (fun items => items.mapM element) = some as := by
  rw [sorted_array, hr.seq_array, Option.bind_some, mapM_sorted h, List.map_id']

theorem core_envelope (e : Codec.EnvelopeItem) : r.envelopeItem (e.item.sorted le) = some e := by
  rw [Codec.SerdeReader.envelopeItem, Codec.EnvelopeItem.item,
    Cbor.struct_sorted hr.toLawful (by simp only [List.map_cons, List.map_nil]; decide)]
  simp [Codec.SerdeReader.u64At, Codec.SerdeReader.bytesAt, Cbor.named, core_u64Of hr, hr.bytes_bytes]

theorem core_invitation (i : Codec.InvitationRecord) : r.invitationRecord (i.item.sorted le) = some i := by
  rw [Codec.SerdeReader.invitationRecord, Codec.InvitationRecord.item,
    Cbor.struct_sorted hr.toLawful (by simp only [List.map_cons, List.map_nil]; decide)]
  simp [Codec.SerdeReader.u64At, Codec.SerdeReader.bytesAt, Codec.SerdeReader.textAt, Cbor.named, core_u64Of hr, hr.bytes_bytes, hr.text_text]

theorem core_byteBufs (bs : List Bytes) : (r.seq ((Codec.byteBufs bs).sorted le)).bind (fun items => items.mapM r.bytes) = some bs :=
  core_seq hr (fun b => hr.bytes_bytes b) bs

theorem core_envelopes (es : List Codec.EnvelopeItem) :
    (r.seq ((Item.array (es.map Codec.EnvelopeItem.item)).sorted le)).bind (fun items => items.mapM r.envelopeItem) = some es :=
  core_seq hr (core_envelope hr) es

theorem core_invitations (is : List Codec.InvitationRecord) :
    (r.seq ((Item.array (is.map Codec.InvitationRecord.item)).sorted le)).bind (fun items => items.mapM r.invitationRecord) = some is :=
  core_seq hr (core_invitation hr) is

theorem core_struct {name : String} {fields : List (String × Item)} (hname : Codec.SerdeReader.unitVariant name = none)
    (hnames : goodNames (fields.map (·.1)) = true) :
    r.payload ((Codec.variant name fields).sorted le) = r.structVariant (fun name => (Cbor.named name fields).map (Item.sorted le)) name := by
  rw [sorted_variant, Codec.SerdeReader.payload, hr.variant_map]
  simp only [Option.bind_eq_bind, Option.bind_some, hname]
  rw [Cbor.struct_sorted hr.toLawful hnames]
  rfl

theorem core_payload (p : Codec.Payload) : r.payload (p.item.sorted le) = some p := by
  cases p
  all_goals first
    | exact (congrArg (fun v => v >>= _) (hr.variant_text _)).trans rfl
    | refine (core_struct hr rfl (by simp only [List.map_cons, List.map_nil]; decide)).trans ?_
      delta Codec.SerdeReader.structVariant
      simp only [Codec.SerdeReader.u64At, Codec.SerdeReader.u32At, Codec.SerdeReader.u16At, Codec.SerdeReader.bytesAt,
        Codec.SerdeReader.textAt, Codec.SerdeReader.boolAt, Codec.SerdeReader.invitationAt, Codec.SerdeReader.invitationsAt,
        Codec.SerdeReader.itemsAt, Codec.SerdeReader.byteBufsAt, Codec.SerdeReader.seqAt, Cbor.named_cons, Cbor.named_nil,
        String.reduceEq, if_true, if_false, Option.map_some, sorted_u64, sorted_u32, sorted_u16, sorted_bytes, sorted_text, sorted_bool,
        core_u64Of hr, core_u32Of hr, core_u16Of hr, hr.bytes_bytes, hr.text_text, hr.bool_bool, core_invitation hr, core_invitations hr,
        core_envelopes hr, core_byteBufs hr, Option.bind_eq_bind, Option.bind_some, Option.pure_def]

end core

section frames

variable {le : Bytes → Bytes → Bool} {id : UInt64} {i : Item} {pad : Option Bytes}

def framed (id : UInt64) (i : Item) (pad : Option Bytes) : List (String × Item) :=
  [("id", u64 id), ("payload", i)] ++ (pad.map fun b => ("pad", Item.bytes b)).toList

theorem framed_names (id : UInt64) (i : Item) (pad : Option Bytes) : goodNames ((framed id i pad).map (·.1)) = true := by
  cases pad <;> (simp only [framed, Option.map_none, Option.map_some, Option.toList, List.append_nil, List.cons_append, List.nil_append, List.map_cons, List.map_nil]; decide)

theorem plain_framed {d : Nat} (h : i.Plain d) : (struct (framed id i pad)).Plain (d + 1) := by
  refine plain_struct (framed_names id i pad) fun f hf => ?_
  cases pad with
  | none =>
    rcases List.mem_pair.1 hf with rfl | rfl
    · exact plain_u64 id
    · exact h
  | some b =>
    rcases (by simpa [framed] using hf : f = ("id", u64 id) ∨ f = ("payload", i) ∨ f = ("pad", Item.bytes b)) with rfl | rfl | rfl
    · exact plain_u64 id
    · exact h
    · exact plain_bytes b

theorem short_framed {d limit : Nat} : (struct (framed id i pad)).Short limit (d + 1) ↔ i.Short limit d := by
  cases pad <;> cases d <;> simp [framed, struct, Item.Short, u64]

theorem reads_frame {r : GoReader} (hr : r.Lawful) :
    r.wireFrame ((struct (framed id i pad)).sorted le) = some ⟨id, some (i.sorted le), pad⟩ := by
  rw [GoReader.wireFrame, Cbor.struct_sorted hr.toLawful (framed_names id i pad)]
  cases pad <;> simp [GoReader.u64At, GoReader.bytesAt, framed, Cbor.named, u64Of_u64 hr, bytesOf_bytes hr]
  rfl

theorem core_frame {r : Codec.SerdeReader} (hr : r.Lawful) (p : Codec.Payload) :
    r.frame ((struct (framed id p.item pad)).sorted le) = some ⟨id, p⟩ := by
  rw [Codec.SerdeReader.frame, Cbor.struct_sorted hr.toLawful (framed_names id p.item pad)]
  cases pad <;> simp [Codec.SerdeReader.u64At, framed, Cbor.named, core_u64Of hr, core_payload hr]

def written (id : UInt64) (i : Item) (pad : Option Bytes) : Bytes := ((struct (framed id i pad)).sorted Cbor.bytewise).write

theorem written_length (id : UInt64) (i : Item) (b : Bytes) :
    (written id i (some b)).length = (written id i none).length + (4 + Cbor.headLength b.length + b.length) := by
  have hpad : (Item.text "pad").write.length = 4 := by decide
  have hhead : Cbor.headLength (0 + 1 + 1 + 1) = Cbor.headLength (0 + 1 + 1) := by decide
  have hbytes : (Item.bytes b).write.length = Cbor.headLength b.length + b.length := Cbor.bytes_length b
  simp only [written, Cbor.sorted_struct_length, framed, Option.map_none, Option.map_some, Option.toList, List.append_nil, List.cons_append,
    List.nil_append, List.map_cons, List.map_nil, List.sum_cons, List.sum_nil, List.length_cons, List.length_nil, sorted_bytes, hpad, hbytes]
  omega

theorem canonical_framed (id : UInt64) (p : Codec.Payload) (pad : Option Bytes) :
    Codec.canonical (struct (framed id p.item pad)) = written id p.item pad := by
  rw [Codec.canonical, Cbor.sorted_lengthFirst (plain_framed (plain_payload (d := 0) p)), written]

theorem encode_core (f : Codec.Frame) :
    Codec.encode f = if RelayQueue.maxFrameBytes < (written f.id f.payload.item none).length then
      .error (.tooLarge (written f.id f.payload.item none).length) else .ok (written f.id f.payload.item none) := by
  rw [← canonical_framed]
  rfl

theorem sortedTop_framed (id : UInt64) (i : Item) (pad : Option Bytes) :
    (struct (framed id (i.sorted Cbor.bytewise) pad)).sortedTop Cbor.bytewise = (struct (framed id i pad)).sorted Cbor.bytewise := by
  rw [struct, struct, Item.sorted, Cbor.sortedValues_eq, Item.sortedTop]
  cases pad <;> rfl

theorem encodeWire_framed (id : UInt64) (i : Item) {pad : Option Bytes} (hpad : ∀ b ∈ pad, b ≠ []) :
    encodeWire ⟨id, some (i.sorted Cbor.bytewise), pad⟩ =
      if RelayQueue.maxFrameBytes < (written id i pad).length then .error .frameTooLarge else .ok (written id i pad) := by
  have hitem : WireFrame.item ⟨id, some (i.sorted Cbor.bytewise), pad⟩ = struct (framed id (i.sorted Cbor.bytewise) pad) := by
    cases pad with
    | none => rfl
    | some b =>
      have hb : ¬ b.length = 0 := fun h => hpad b rfl (List.length_eq_zero_iff.1 h)
      show struct (_ ++ if b.length = 0 then [] else _) = _
      rw [if_neg hb]
      rfl
  rw [encodeWire, hitem, sortedTop_framed]
  rfl

theorem encode_relay {f : Codec.Frame} (h : keyless f.payload = false) :
    encode (.of f) = if RelayQueue.maxFrameBytes < (written f.id f.payload.item none).length then .error .frameTooLarge
      else .ok (written f.id f.payload.item none) := by
  rw [encode, Frame.of, payloadItem_of h]
  exact encodeWire_framed f.id f.payload.item (fun _ hb => by cases hb)

/-- Padded or not, the relay reads what it can read of the payload, within its decoder's limit. -/
theorem decode_written {r : GoReader} (hr : r.Lawful) (id : UInt64) {i : Item} (hi : i.Plain 31) {pad : Option Bytes}
    (hlength : (written id i pad).length ≤ RelayQueue.maxFrameBytes) :
    (i.Short maxArrayElements 31 → r.read (written id i pad) = some ((struct (framed id i pad)).sorted Cbor.bytewise) ∧
      decode r (written id i pad) = (r.payload (i.sorted Cbor.bytewise)).map fun p => ⟨id, p⟩) ∧
    (¬ i.Short maxArrayElements 31 → decode r (written id i pad) = .error .cbor) := by
  have hplain : ((struct (framed id i pad)).sorted Cbor.bytewise).Plain Cbor.maxNesting := Cbor.plain_sorted (plain_framed hi)
  have hshort : ((struct (framed id i pad)).sorted Cbor.bytewise).Short maxArrayElements Cbor.maxNesting ↔ i.Short maxArrayElements 31 :=
    (Cbor.short_sorted (plain_framed hi)).trans short_framed
  have hsize : (written id i pad).length < 2 ^ 64 := lt_of_le_of_lt hlength (by decide)
  rw [decode, if_neg (not_lt.2 hlength)]
  refine ⟨fun hi' => ?_, fun hi' => ?_⟩
  · have hread : r.read (written id i pad) = some ((struct (framed id i pad)).sorted Cbor.bytewise) :=
      hr.read_write _ hplain hsize fun n hn => by
        obtain rfl := Option.mem_some.1 hn
        exact hshort.2 hi'
    refine ⟨hread, ?_⟩
    rw [hread, Option.bind_some, reads_frame hr]
  · have hread : r.read (written id i pad) = none := hr.read_long _ hplain hsize maxArrayElements rfl fun h => hi' (hshort.1 h)
    rw [hread]
    rfl

theorem decode_relay {r : GoReader} (hr : r.Lawful) (id : UInt64) (p : Codec.Payload) {pad : Option Bytes}
    (hlength : (written id p.item pad).length ≤ RelayQueue.maxFrameBytes) :
    decode r (written id p.item pad) = if within p = true then .ok ⟨id, .of p⟩ else .error .cbor := by
  obtain ⟨hshort, hlong⟩ := decode_written hr id (plain_payload (d := 26) p) hlength
  have hiff := short_payload (d := 26) p
  by_cases hwithin : within p = true
  · rw [(hshort (hiff.2 hwithin)).2, reads_payload hr, if_pos hwithin]
    rfl
  · rw [hlong fun h => hwithin (hiff.1 h), if_neg hwithin]

theorem decode_core {r : Codec.SerdeReader} (hr : r.Lawful) (id : UInt64) (p : Codec.Payload) {pad : Option Bytes}
    (hlength : (written id p.item pad).length ≤ RelayQueue.maxFrameBytes) : Codec.decode r (written id p.item pad) = .ok ⟨id, p⟩ := by
  have hplain : ((struct (framed id p.item pad)).sorted Cbor.bytewise).Plain Cbor.maxNesting :=
    Cbor.plain_sorted (plain_framed (plain_payload (d := 26) p))
  have hsize : (written id p.item pad).length < 2 ^ 64 := lt_of_le_of_lt hlength (by decide)
  have hread : r.read (written id p.item pad) = some ((struct (framed id p.item pad)).sorted Cbor.bytewise) :=
    hr.read_write _ hplain hsize fun n hn => by cases hn
  rw [Codec.decode, if_neg (not_lt.2 hlength), hread, Option.bind_some, core_frame hr]

/-- What the core writes, the relay reads with the same values, within its decoder's limit on
arrays, and writes back byte for byte, unless it is a mailbox request without a key; the core
reads back what it wrote, so no two frames share an encoding. -/
theorem catalog_agrees (core : Codec.SerdeReader) (hcore : core.Lawful) (relay : GoReader) (hrelay : relay.Lawful) (f : Codec.Frame) (b : Bytes)
    (h : Codec.encode f = .ok b) :
    (within f.payload = true → decode relay b = .ok (.of f)) ∧ (keyless f.payload = false → encode (.of f) = .ok b) ∧
      Codec.decode core b = .ok f ∧ ∀ f', Codec.encode f' = .ok b → f' = f := by
  have hbytes : ∀ {f b}, Codec.encode f = .ok b →
      b = written f.id f.payload.item none ∧ (written f.id f.payload.item none).length ≤ RelayQueue.maxFrameBytes := by
    intro f b h
    rw [encode_core] at h
    split at h
    · cases h
    · next hlength => exact ⟨(Except.ok.inj h).symm, not_lt.1 hlength⟩
  obtain ⟨rfl, hlength⟩ := hbytes h
  refine ⟨fun hwithin => ?_, fun hkey => ?_, decode_core hcore f.id f.payload hlength, fun f' h' => ?_⟩
  · rw [decode_relay hrelay f.id f.payload hlength, if_pos hwithin]
    rfl
  · rw [encode_relay hkey, if_neg (not_lt.2 hlength)]
  · obtain ⟨heq, hlength'⟩ := hbytes h'
    have hread := decode_core hcore f'.id f'.payload hlength'
    rw [← heq, decode_core hcore f.id f.payload hlength] at hread
    exact (Except.ok.inj hread).symm

end frames

section example_run

open Demo

def keyed : Codec.Frame := ⟨7, .mailboxCreate [1] [2] [3]⟩

theorem keyed_request_agrees : Codec.encode keyed = .ok (written 7 keyed.payload.item none) ∧
    decode goReader (written 7 keyed.payload.item none) = .ok (.of keyed) ∧ encode (.of keyed) = .ok (written 7 keyed.payload.item none) ∧
    Codec.decode serdeReader (written 7 keyed.payload.item none) = .ok keyed := by
  have hencode : Codec.encode keyed = .ok (written 7 keyed.payload.item none) := by
    rw [encode_core, if_neg (by decide +kernel)]
    rfl
  obtain ⟨hdecode, hback, hcore, -⟩ := catalog_agrees serdeReader serdeReader_lawful goReader goReader_lawful keyed _ hencode
  exact ⟨hencode, hdecode rfl, hback rfl, hcore⟩

def publishes (n : Nat) : Codec.Frame := ⟨1, .keyPackagesPublish (List.replicate n [])⟩

theorem publishes_length (n : Nat) : (written 1 (publishes n).payload.item none).length = 47 + Cbor.headLength n + n := by
  have hitems : ((Codec.byteBufs (List.replicate n [])).sorted Cbor.bytewise).write.length = Cbor.headLength n + n := by
    have hempty : (Item.bytes []).write.length = 1 := rfl
    rw [Codec.byteBufs, sorted_array, List.map_replicate, List.map_replicate, sorted_bytes, Item.write, Cbor.writeItems_eq, List.length_append,
      List.map_replicate, List.length_flatten, List.map_replicate, List.sum_replicate, List.length_replicate, Cbor.head_length, hempty]
    simp
  have hitem : (publishes n).payload.item = struct [("KeyPackagesPublish", struct [("key_packages", Codec.byteBufs (List.replicate n []))])] := rfl
  have hnames : (Item.text "id").write.length = 3 ∧ (Item.text "payload").write.length = 8 ∧
      (Item.text "KeyPackagesPublish").write.length = 19 ∧ (Item.text "key_packages").write.length = 13 := by decide
  obtain ⟨hid, hpayload, hname, hkey⟩ := hnames
  have hone : (u64 1).write.length = 1 := by decide
  have hheads : Cbor.headLength (0 + 1) = 1 ∧ Cbor.headLength (0 + 1 + 1) = 1 := by decide
  rw [written, hitem]
  simp only [Cbor.sorted_struct_length, framed, Option.map_none, Option.toList, List.append_nil, List.map_cons, List.map_nil, List.sum_cons,
    List.sum_nil, List.length_cons, List.length_nil, hitems, sorted_u64, hid, hpayload, hname, hkey, hone, hheads.1, hheads.2]
  omega

/-- The relay's decoder refuses what the core writes. -/
theorem publishes_refused {n : Nat} (hn : maxArrayElements < n) (hlength : 47 + Cbor.headLength n + n ≤ RelayQueue.maxFrameBytes) :
    ∃ b, Codec.encode (publishes n) = .ok b ∧ decode goReader b = .error .cbor := by
  have hle : (written 1 (publishes n).payload.item none).length ≤ RelayQueue.maxFrameBytes := by
    rw [publishes_length]
    exact hlength
  have hlong : ¬ within (publishes n).payload = true := by
    simp only [publishes, within, List.length_replicate, decide_eq_true_eq]
    omega
  refine ⟨written 1 (publishes n).payload.item none, ?_, ?_⟩
  · rw [encode_core]
    exact if_neg (not_lt.2 hle)
  · rw [decode_relay goReader_lawful 1 (publishes n).payload hle, if_neg hlong]

def unkeyed : Codec.Frame := ⟨7, .mailboxCreate [] [2] [3]⟩

theorem unkeyed_and_crowded_differ :
    (∃ b b', Codec.encode unkeyed = .ok b ∧ decode goReader b = .ok (.of unkeyed) ∧ encode (.of unkeyed) = .ok b' ∧ b' ≠ b) ∧
    ∃ b, Codec.encode (publishes 131073) = .ok b ∧ decode goReader b = .error .cbor := by
  refine ⟨⟨written 7 unkeyed.payload.item none, written 7 (.text "MailboxCreate") none, ?_, ?_, rfl, by decide +kernel⟩,
    publishes_refused (by decide) (by decide)⟩
  · rw [encode_core, if_neg (by decide +kernel)]
    rfl
  · exact decode_relay goReader_lawful 7 unkeyed.payload (by decide +kernel)

end example_run

end Arveil.RelayCodec

import Arveil.Spec.Archive
import Arveil.Proofs.Attribution
import Arveil.Proofs.Redirects
import Arveil.Sanity.Platform

/-! What the archive takes: texts, files and records, each with the check of the export that it
passes. -/

namespace Arveil.Archive

variable {pf : Platform}

theorem validUtf8_utf8 (t : String) : validUtf8 (utf8 t) = true := by
  unfold validUtf8 utf8
  rw [String.toUTF8_eq_toByteArray, ByteArray.validateUTF8_eq_true_iff]
  exact t.isValidUTF8

theorem safeName_length (n : String) : (utf8 (safeName n)).length ≤ 480 := by
  unfold safeName
  simp only
  split
  · decide
  · refine (utf8_ofList_length _).trans ?_
    simp only [List.length_take]
    omega

/-- A body the archive takes under a kind. -/
def FitBody (kind : EventKind) (body : Bytes) : Prop :=
  body.length ≤ 1024 * 1024 ∧ (kind = .sent ∨ kind = .received → validUtf8 body = true) ∧ kind ≠ .fileUnavailable

structure Fit (e : EventRow) : Prop where
  group : 0 < e.groupId.length ∧ e.groupId.length ≤ 128
  id : e.eventId.length = 16
  body : FitBody e.kind e.body

def FitAuthor (author : Option Bytes) : Prop := ∀ i, author = some i → i.length = 32

structure Sized (r : ArchiveRecord) : Prop where
  group : 0 < r.groupId.length ∧ r.groupId.length ≤ 128
  id : r.eventId.length = 16
  author : FitAuthor r.senderIdentity
  body : r.body.length ≤ 1024 * 1024
  file : r.file.length ≤ maxAttachmentBytes

theorem sized_iff (r : ArchiveRecord) :
    ¬ (r.groupId.isEmpty ∨ 128 < r.groupId.length ∨ r.eventId.length ≠ 16 ∨ r.senderIdentity.any (·.length ≠ 32) ∨
      1024 * 1024 < r.body.length ∨ maxAttachmentBytes < r.file.length) ↔ Sized r := by
  simp only [not_or, List.isEmpty_iff, ← List.length_eq_zero_iff, Nat.not_lt, not_not]
  constructor
  · rintro ⟨h0, h1, h2, h3, h4, h5⟩
    refine ⟨⟨Nat.pos_of_ne_zero h0, h1⟩, h2, fun i hi => ?_, h4, h5⟩
    simpa [hi] using h3
  · rintro ⟨⟨h0, h1⟩, h2, h3, h4, h5⟩
    refine ⟨Nat.ne_of_gt h0, h1, h2, ?_, h4, h5⟩
    cases hr : r.senderIdentity with
    | none => simp
    | some i => simp [h3 i hr]

theorem normalize_ok {r q : ArchiveRecord} (h : normalize r = .ok q) :
    Sized r ∧ ((((r.kind = .event .sent ∨ r.kind = .event .received) ∧ validUtf8 r.body = true ∧ r.fileName = none ∧
        r.filePresent = false ∧ r.file = []) ∧ q = r) ∨
      ((r.kind = .event .receivedFile ∨ r.kind = .event .filePending) ∧ q = fileRecord r .receivedFile) ∨
      ((r.kind = .event .sentFile ∨ r.kind = .event .fileOutgoing) ∧ q = fileRecord r .sentFile)) := by
  unfold normalize at h
  split at h
  · cases h
  · next hsize =>
    refine ⟨(sized_iff r).1 hsize, ?_⟩
    split at h
    · next hk =>
      split at h
      · cases h
      · next ht =>
        simp only [not_or, Bool.not_eq_false, Bool.not_eq_true, Option.isSome_eq_false_iff, Option.isNone_iff_eq_none,
          Decidable.not_not, List.isEmpty_iff] at ht
        exact Or.inl ⟨⟨Or.inl hk, ht⟩, (Except.ok.inj h).symm⟩
    · next hk =>
      split at h
      · cases h
      · next ht =>
        simp only [not_or, Bool.not_eq_false, Bool.not_eq_true, Option.isSome_eq_false_iff, Option.isNone_iff_eq_none,
          Decidable.not_not, List.isEmpty_iff] at ht
        exact Or.inl ⟨⟨Or.inr hk, ht⟩, (Except.ok.inj h).symm⟩
    · next hk => exact Or.inr (Or.inl ⟨Or.inl hk, (Except.ok.inj h).symm⟩)
    · next hk => exact Or.inr (Or.inl ⟨Or.inr hk, (Except.ok.inj h).symm⟩)
    · next hk => exact Or.inr (Or.inr ⟨Or.inl hk, (Except.ok.inj h).symm⟩)
    · next hk => exact Or.inr (Or.inr ⟨Or.inr hk, (Except.ok.inj h).symm⟩)
    · cases h

theorem normalize_text {r : ArchiveRecord} (hs : Sized r) (hk : r.kind = .event .sent ∨ r.kind = .event .received)
    (hu : validUtf8 r.body = true) (hn : r.fileName = none) (hp : r.filePresent = false) (hf : r.file = []) :
    normalize r = .ok r := by
  unfold normalize
  rw [if_neg ((sized_iff r).2 hs)]
  rcases hk with hk | hk <;> simp [hk, hu, hn, hp, hf]

theorem normalize_file {r : ArchiveRecord} {k : EventKind} (hs : Sized r) (hk : r.kind = .event k)
    (hf : isFile k = true) (hu : k ≠ .fileUnavailable) :
    normalize r = .ok (fileRecord r (if own k then .sentFile else .receivedFile)) := by
  unfold normalize
  rw [if_neg ((sized_iff r).2 hs)]
  cases k <;> simp_all [isFile, own]

theorem fileRecord_sized {r : ArchiveRecord} {kind : EventKind} (h : Sized r) : Sized (fileRecord r kind) := by
  refine ⟨h.group, h.id, h.author, ?_, h.file⟩
  have hname : (utf8 ((r.fileName.map safeName).getD "file")).length ≤ 480 := by
    cases r.fileName with
    | none => decide
    | some n => exact safeName_length n
  exact hname.trans (by decide)

theorem normalize_again {r q : ArchiveRecord} (h : normalize r = .ok q) : ∃ q', normalize q = .ok q' := by
  obtain ⟨hs, ⟨-, rfl⟩ | ⟨-, rfl⟩ | ⟨-, rfl⟩⟩ := normalize_ok h
  · exact ⟨q, h⟩
  · exact ⟨_, normalize_file (fileRecord_sized hs) rfl rfl (by decide)⟩
  · exact ⟨_, normalize_file (fileRecord_sized hs) rfl rfl (by decide)⟩

theorem normalize_keeps {r q : ArchiveRecord} (h : normalize r = .ok q) :
    q.groupId = r.groupId ∧ q.eventId = r.eventId ∧ q.senderIdentity = r.senderIdentity ∧ q.file = r.file ∧
      q.filePresent = r.filePresent := by
  obtain ⟨-, ⟨-, rfl⟩ | ⟨-, rfl⟩ | ⟨-, rfl⟩⟩ := normalize_ok h
  all_goals exact ⟨rfl, rfl, rfl, rfl, rfl⟩

def isDone (state : TransferState) : Prop := state = .ready ∨ state = .sent

/-- The stored copy of a transfer is the file its descriptor announces. -/
def Verified (pf : Platform) (p : Profile) (row : AttachmentRow) : Prop :=
  ∃ d bytes plain, descriptor pf row.descriptor true = .ok d ∧ attachmentBytes p row.eventId maxFileBytes = .ok bytes ∧
    verifiedPlaintext pf d bytes = .ok plain ∧ plain.length = row.size.toNat

theorem descriptor_size {bytes : Bytes} {remote : Bool} {d : FileDescriptor} (h : descriptor pf bytes remote = .ok d) :
    d.size.toNat ≤ maxAttachmentBytes := by
  unfold descriptor at h
  split at h
  · cases h
  · split at h
    · cases h
    · next hd =>
      obtain rfl := Except.ok.inj h
      omega

theorem verifiedPlaintext_size {d : FileDescriptor} {bytes plain : Bytes} (h : verifiedPlaintext pf d bytes = .ok plain) :
    plain.length = d.size.toNat := by
  unfold verifiedPlaintext at h
  split at h
  · cases h
  · split at h
    · cases h
    · split at h
      · cases h
      · next hlen =>
        obtain rfl := Except.ok.inj h
        omega

theorem availableBytes_verified {p : Profile} {e : EventRow} {row : AttachmentRow} {d : FileDescriptor} {bytes plain : Bytes}
    (he : e ∈ p.world.store.events) (hr : p.transfers.get? e.eventId = some row) (hd : isDone row.state)
    (h1 : descriptor pf row.descriptor true = .ok d) (h2 : attachmentBytes p row.eventId maxFileBytes = .ok bytes)
    (h3 : verifiedPlaintext pf d bytes = .ok plain) : availableBytes pf p e.groupId e.eventId = .ok plain := by
  have hid : row.eventId = e.eventId := (Table.get?_eq_some.1 hr).2
  have hstate : ¬ (row.state ≠ .ready ∧ row.state ≠ .sent) := by
    rintro ⟨hready, hsent⟩
    exact hd.elim hready hsent
  unfold availableBytes
  rw [Table.get?_eq_some.2 ⟨he, rfl⟩]
  simp only [ne_eq, not_true_eq_false, if_false, hr]
  rw [if_neg hstate, h1, ← hid, h2]
  exact h3

/-- A record goes through both checks of the loop, wherever it has room. -/
structure Packs (pf : Platform) (p : Profile) (x : Option EventKind × ArchiveRecord) (q out : ArchiveRecord) : Prop where
  filed : ∀ size, size + q.file.length ≤ maxArchivePayloadBytes → withFile pf p size x.1 x.2 = .ok q
  normal : normalize q = .ok out

theorem Packs.room {p : Profile} {x : Option EventKind × ArchiveRecord} {q out : ArchiveRecord} (h : Packs pf p x q out) :
    q.file.length ≤ maxArchivePayloadBytes := by
  obtain ⟨hs, -⟩ := normalize_ok h.normal
  exact hs.file.trans (by decide)

def weight (pf : Platform) (p : Profile) (x : Option EventKind × ArchiveRecord) : Nat :=
  match withFile pf p 0 x.1 x.2 with
  | .error _ => 0
  | .ok q =>
      match normalize q with
      | .error _ => 0
      | .ok out => out.body.length + out.file.length + 512

theorem Packs.weight {p : Profile} {x : Option EventKind × ArchiveRecord} {q out : ArchiveRecord} (h : Packs pf p x q out) :
    weight pf p x = out.body.length + out.file.length + 512 := by
  unfold Archive.weight
  simp only [h.filed 0 (by simpa using h.room), h.normal]

theorem isFile_of_text {kind : EventKind} (hn : kind ≠ .devicesChanged) (h : isFile kind = false) :
    kind = .sent ∨ kind = .received := by
  cases kind <;> simp_all [isFile]

theorem summary_isSome (pf : Platform) (p : Profile) (id body : Bytes) {kind : EventKind} (h : isFile kind = true) :
    ∃ sm, summary pf p id kind body = some sm ∧
      ((∃ row, p.transfers.get? id = some row ∧ sm.size = row.size ∧ sm.state = .transfer row.state) ∨
        ¬ (sm.state = .transfer .ready ∨ sm.state = .transfer .sent)) := by
  unfold summary
  cases hr : p.transfers.get? id with
  | some row => exact ⟨_, rfl, Or.inl ⟨row, rfl, rfl, rfl⟩⟩
  | none =>
    simp only [h, if_true]
    split
    · split
      · exact ⟨_, rfl, Or.inr (by simp)⟩
      · exact ⟨_, rfl, Or.inr (by simp)⟩
    · exact ⟨_, rfl, Or.inr (by simp)⟩

theorem live_packs {p : Profile} {e : EventRow} (he : e ∈ p.world.store.events) (hn : e.kind ≠ .devicesChanged) (hf : Fit e)
    (ha : FitAuthor (liveRecord p.world.store e).senderIdentity)
    (hv : ∀ row, p.transfers.get? e.eventId = some row → isDone row.state → Verified pf p row) :
    ∃ q out, Packs pf p (some e.kind, liveRecord p.world.store e) q out := by
  have hsized : Sized (liveRecord p.world.store e) := ⟨hf.group, hf.id, ha, hf.body.1, Nat.zero_le _⟩
  cases hk : isFile e.kind with
  | false =>
    have htext := isFile_of_text hn hk
    have hkind : (liveRecord p.world.store e).kind = .event .sent ∨ (liveRecord p.world.store e).kind = .event .received := by
      rcases htext with h | h
      · exact Or.inl (congrArg RecordKind.event h)
      · exact Or.inr (congrArg RecordKind.event h)
    refine ⟨_, _, ⟨fun size _ => ?_, normalize_text hsized hkind (hf.body.2.1 htext) rfl rfl rfl⟩⟩
    simp [withFile, hk]
  | true =>
    obtain ⟨sm, hsm, hst⟩ := summary_isSome pf p e.eventId e.body hk
    have hfile (name : String) (file : Bytes) (present : Bool) (hlen : file.length ≤ maxAttachmentBytes) :
        normalize { liveRecord p.world.store e with fileName := some name, file := file, filePresent := present } =
          .ok (fileRecord { liveRecord p.world.store e with fileName := some name, file := file, filePresent := present }
            (if own e.kind then .sentFile else .receivedFile)) := by
      refine normalize_file (k := e.kind) ?_ rfl hk hf.body.2.2
      exact ⟨hf.group, hf.id, ha, hf.body.1, hlen⟩
    by_cases hdone : sm.state = .transfer .ready ∨ sm.state = .transfer .sent
    · obtain ⟨row, hrow, hsize, hstate⟩ := hst.resolve_right (not_not_intro hdone)
      have hd : isDone row.state := by
        rw [hstate] at hdone
        exact hdone.imp AttachmentState.transfer.inj AttachmentState.transfer.inj
      obtain ⟨d, bytes, plain, h1, h2, h3, h4⟩ := hv row hrow hd
      have hlen : plain.length ≤ maxAttachmentBytes := by
        rw [verifiedPlaintext_size h3]
        exact descriptor_size h1
      refine ⟨_, _, ⟨fun size hroom => ?_, hfile sm.name plain true hlen⟩⟩
      have hfits : ¬ maxArchivePayloadBytes < size + sm.size.toNat := by
        rw [hsize, ← h4]
        exact Nat.not_lt.2 hroom
      have hbytes : availableBytes pf p (liveRecord p.world.store e).groupId (liveRecord p.world.store e).eventId = .ok plain :=
        availableBytes_verified he hrow hd h1 h2 h3
      unfold withFile
      simp only [hk, if_true]
      rw [show summary pf p (liveRecord p.world.store e).eventId e.kind (liveRecord p.world.store e).body = some sm from hsm]
      simp only [if_pos hdone, if_neg hfits, hbytes]
      rfl
    · refine ⟨_, _, ⟨fun size _ => ?_, hfile sm.name [] false (Nat.zero_le _)⟩⟩
      unfold withFile
      simp only [hk, if_true]
      rw [show summary pf p (liveRecord p.world.store e).eventId e.kind (liveRecord p.world.store e).body = some sm from hsm]
      simp only [if_neg hdone]
      rfl

end Arveil.Archive

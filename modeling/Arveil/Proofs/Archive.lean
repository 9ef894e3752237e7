import Arveil.Proofs.Archive.Writers

/-! Taking the history out. The export checks every record again, by rules that those
who write the records do not know: ids of sixteen bytes, text that is UTF-8, a closed
list of kinds. One record that breaks them makes the whole history impossible to
export. -/

namespace Arveil.Archive

open Receive

variable {pf : Platform} {s : Session}

theorem sound_step {p : Profile} (h : Sound pf p) (hsha : ∀ b, (pf.crypto.sha256 b).length = 32)
    (hs : s.identityId.length = 32) {d : Deed} (hd : Portable pf s p d) : Sound pf (step pf s p d) := by
  cases d with
  | act a => exact sound_act h hsha hs hd
  | recordEvent group id kind body sender => exact sound_recordEvent h hd
  | updateEvent id kind body => exact sound_updateEvent h hd
  | attachmentCreate id outgoing name size descriptor =>
    refine ⟨h.identity, h.peers, h.events, h.archived, h.files, fun row hrow hdone => ?_⟩
    rcases Table.mem_insertOrIgnore hrow with hold | rfl
    · exact h.copies row hold hdone
    · rcases hdone with hstate | hstate <;> cases hstate
  | attachmentState id state =>
    refine sound_updateTransfer h fun r hr hid _ hdone => ?_
    exact hd hdone r (Table.get?_eq_some.2 ⟨hr, hid⟩)
  | attachmentOffset id offset => exact sound_updateTransfer h fun r hr hid hgoes hdone => absurd hdone hgoes
  | attachmentDescriptor id descriptor => exact sound_updateTransfer h fun r hr hid hgoes hdone => absurd hdone hgoes
  | attachmentChunk chunk => exact sound_attachmentChunk h chunk
  | attachmentClearBytes id => exact sound_attachmentClearBytes h id
  | import_ a => exact sound_import h a

/-- In every run that puts in only what an archive takes, a history within the limits
is exported whole. Where an export returns, every live event was such. -/
theorem history_exported (hsha : ∀ b, (pf.crypto.sha256 b).length = 32) (hs : s.identityId.length = 32) (p : Profile)
    (deeds : List Deed) (h : Sound pf p) (hm : Trace.Meets (step pf s) (Portable pf s) p deeds) :
    (∀ now k, Fits pf (Trace.run (step pf s) p deeds) now k → Exported pf (Trace.run (step pf s) p deeds) now k) ∧
    ∀ p' now k out, export_ pf p' now k = .ok out → ∀ e ∈ p'.world.store.events, e.kind ≠ .devicesChanged →
      Fit e ∧ FitAuthor (liveRecord p'.world.store e).senderIdentity := by
  constructor
  · intro now k hf
    have hsound := Trace.invariant (I := Sound pf) (fun _ _ hd hp => sound_step hp hsha hs hd) hm h
    exact exported_of_sound hsound hf
  · intro p' now k out hout e he hn
    obtain ⟨row, r, -, hr, -⟩ := export_ok hout
    obtain ⟨size, q, hq, out', -, hn'⟩ := collect_records hr _ (live_mem_history he hn)
    exact (carries_of_filed hq hn').1

section demo

open Demo

def demoGroup : Group := ⟨[7], 1, 0, [⟨0, some [9], publicKey [9, 2]⟩, ⟨1, some [66], publicKey [66, 2]⟩]⟩

def demoProfile : Profile where
  world := { profile with store := { profile.store with mlsGroups := ⟨[⟨[7], group.write demoGroup⟩], by simp⟩ } }
  transfers := .empty
  chunks := .empty
  archivedEvents := .empty
  archivedFiles := .empty

/-- A member sends a message under an id of its choice. -/
def demoText (id : Bytes) : Deed :=
  .act (.receive 3 [8] ⟨1, id, [], envelopeFor 9 [8] id (eventFrom [7] 1 "text" (utf8 "hi"))⟩)

def demoId : Bytes := List.replicate 16 1

def flag : Wire Bool := Wire.byte.via (fun b => b = 1) (fun b => if b then 1 else 0) (fun b => by cases b <;> rfl)

def eventKinds : List EventKind :=
  [.sent, .received, .sentFile, .fileOutgoing, .receivedFile, .filePending, .fileUnavailable, .devicesChanged]

def recordKind : Wire RecordKind :=
  (Wire.byte.both Wire.text).via
    (fun p => match eventKinds[p.1.toNat]? with
      | some k => .event k
      | none => .other p.2)
    (fun | .event k => (UInt8.ofNat (eventKinds.idxOf k), "") | .other t => (255, t))
    (fun k => by rcases k with k | t <;> first | (cases k <;> rfl) | rfl)

def archiveRecord : Wire ArchiveRecord :=
  (Wire.bytes.both (Wire.bytes.both (recordKind.both (Wire.bytes.both (Wire.text.optional.both (Wire.bytes.both
    (flag.both Wire.bytes.optional))))))).via
    (fun p => ⟨p.1, p.2.1, p.2.2.1, p.2.2.2.1, p.2.2.2.2.1, p.2.2.2.2.2.1, p.2.2.2.2.2.2.1, p.2.2.2.2.2.2.2⟩)
    (fun r => (r.groupId, r.eventId, r.kind, r.body, r.fileName, r.file, r.filePresent, r.senderIdentity)) (fun _ => rfl)

def historyArchive : Wire HistoryArchive :=
  (Wire.byte.both (Wire.bytes.both (Wire.uint64.both archiveRecord.list))).via (fun p => ⟨p.1, p.2.1, p.2.2.1, p.2.2.2⟩)
    (fun a => (a.version, a.identityId, a.exportedAt, a.records)) (fun _ => rfl)

def demoSeal : Seal := ⟨"secret", fun a => .ok (historyArchive.write a)⟩

theorem demo_sound : Sound platform demoProfile where
  identity := ⟨⟨none, publicKey [9], identityOf 9⟩, rfl, Wire.digits_length _ _⟩
  peers q hq := (Table.not_mem_empty q hq).elim
  events e he := (Table.not_mem_empty e he).elim
  archived a ha := (Table.not_mem_empty a ha).elim
  files f hf := (Table.not_mem_empty f hf).elim
  copies row hrow := (Table.not_mem_empty row hrow).elim

def demoWithin (p : Profile) : Bool :=
  decide ((history p).length ≤ maxArchiveRecords) && decide (((history p).map fun r => rowSize r.2).sum ≤ maxArchivePayloadBytes) &&
    decide (((history p).map (weight platform p)).sum ≤ maxArchivePayloadBytes) &&
    (p.world.store.identity.all fun row => (collect platform p 0 (history p)).toOption.all fun r =>
      decide ((historyArchive.write ⟨archiveVersion, row.identityId, 0, r.1⟩).length ≤ maxArchiveBytes))

theorem demo_fits {p : Profile} (h : demoWithin p = true) : Fits platform p 0 demoSeal := by
  simp only [demoWithin, Bool.and_eq_true, decide_eq_true_eq] at h
  obtain ⟨⟨⟨hcount, hrows⟩, hpayload⟩, hsealed⟩ := h
  refine ⟨hcount, hrows, hpayload, fun row r hrow hr => ⟨_, rfl, ?_⟩⟩
  rw [hrow, hr] at hsealed
  exact of_decide_eq_true hsealed

/-- One message with an id of one byte, and the history cannot be exported. -/
theorem short_id_stops_the_export :
    Fits platform (Trace.run (step platform (sessionOf 9)) demoProfile [demoText [1]]) 0 demoSeal ∧
      (∃ e ∈ (Trace.run (step platform (sessionOf 9)) demoProfile [demoText [1]]).world.store.events.rows,
        e.kind = .received ∧ e.eventId = [1]) ∧
      (export_ platform (Trace.run (step platform (sessionOf 9)) demoProfile [demoText [1]]) 0 demoSeal).toOption = none := by
  refine ⟨demo_fits ?_, ?_⟩
  · decide +kernel
  · decide +kernel

theorem demo_portable : Portable platform (sessionOf 9) demoProfile (demoText demoId) := by
  refine ⟨fun e he hn => ?_, fun createdAt c hc => by cases hc⟩
  cases he with
  | @message _ _ _ msg gid group leaf ev kind hm hs hk =>
    have hheard := heard_of_sentBy hm hs
    have hsaid : (heard platform (sessionOf 9) demoProfile.world.store [8]
        ⟨1, demoId, [], envelopeFor 9 [8] demoId (eventFrom [7] 1 "text" (utf8 "hi"))⟩).map (fun h => (h.1, h.2.2.2)) =
        some ([7], ⟨"text", utf8 "hi"⟩) := by decide +kernel
    rw [hheard] at hsaid
    obtain ⟨rfl, rfl⟩ := Prod.mk.inj (Option.some.inj hsaid)
    have hsmall : (utf8 "hi").length ≤ 1024 * 1024 := by decide
    refine ⟨⟨by simp, by simp⟩, rfl, hsmall, fun _ => validUtf8_utf8 "hi", ?_⟩
    rcases hk with ⟨-, rfl⟩ | ⟨-, rfl⟩ <;> simp
  | notice hb hroot hv hk hid => exact absurd hk hn

/-- Under an id of sixteen bytes the message is exported. -/
theorem message_is_exported :
    Exported platform (Trace.run (step platform (sessionOf 9)) demoProfile [demoText demoId]) 0 demoSeal := by
  refine (@history_exported platform (sessionOf 9) (fun _ => Wire.digits_length _ _) (Wire.digits_length _ _) demoProfile
    [demoText demoId] demo_sound ⟨demo_portable, trivial⟩).1 0 demoSeal (demo_fits ?_)
  decide +kernel

end demo

end Arveil.Archive

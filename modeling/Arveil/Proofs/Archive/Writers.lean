import Arveil.Proofs.Archive.Export

/-! What messages, transfers and imports put into a profile is what an archive takes, with the ids,
texts and copies that the archive asks for. -/

namespace Arveil.Archive

open Client Receive

variable {pf : Platform} {s : Session}

/-- What is put in is what an archive takes. Messages of members are asked for their
id, their text and their group; a file is never given up; a transfer is done with only
when its copy verifies. -/
def Portable (pf : Platform) (s : Session) (p : Profile) : Deed → Prop
  | .act a => (∀ e, Attribution.Records pf s p.world.store a e → e.kind ≠ .devicesChanged → Fit e) ∧
      ∀ createdAt c, a = .saveConversation createdAt c → ∀ q ∈ c.peers, q.identity.length = 32
  | .recordEvent group id kind body sender => FitAuthor (sender.bind (·.identityId)) ∧
      Fit ⟨group, id, kind, body, sender.bind (·.deviceId), sender.bind (·.identityId)⟩
  | .updateEvent id kind body => FitBody kind body ∧ ∀ e ∈ p.world.store.events, e.eventId = id → isFile e.kind = true
  | .attachmentState id state => isDone state → ∀ row, p.transfers.get? id = some row → Verified pf p row
  | _ => True

theorem identityId_length {cx : Crypto} (hsha : ∀ b, (cx.sha256 b).length = 32) (root : Bytes) :
    (Identity.identityId cx root).length = 32 := hsha _

theorem saves_identity {st : Store} {a : Act} {gid : Bytes} {peers : List Peer} (hsha : ∀ b, (pf.crypto.sha256 b).length = 32)
    (ha : ∀ createdAt c, a = .saveConversation createdAt c → ∀ q ∈ c.peers, q.identity.length = 32)
    (h : Saves pf s st a gid peers) : ∀ q ∈ peers, q.identity.length = 32 := by
  cases h with
  | roster hm hs hk hp =>
    intro q hq
    obtain ⟨line, -, r, hr, rfl⟩ := rosterPeers_mem hp hq
    have hid : r.identityId = Identity.identityId pf.crypto r.rootPublic := (Route.parse_ok hr).2.symm
    exact (congrArg List.length hid).trans (identityId_length hsha _)
  | @person createdAt c => exact ha createdAt c rfl

theorem step_peers_identity {w : World} {a : Act} (hsha : ∀ b, (pf.crypto.sha256 b).length = 32)
    (ha : ∀ createdAt c, a = .saveConversation createdAt c → ∀ q ∈ c.peers, q.identity.length = 32)
    (h : ∀ q ∈ w.store.peers, q.peerIdentity.length = 32) :
    ∀ q ∈ (Act.step pf s w a).store.peers, q.peerIdentity.length = 32 := by
  intro q hq
  rcases step_peers pf s w a with ⟨hashes, hp⟩ | ⟨gid, peers, hsaves, hp⟩
  · rw [hp] at hq
    obtain ⟨q', hq', rfl⟩ := mem_markAll_peers.1 hq
    split
    · exact h q' hq'
    · exact h q' hq'
  · rw [hp] at hq
    rcases Redirects.mem_savePeers_origin hq with ⟨q', hq', ho⟩ | ⟨q', hq', ho⟩
    · have hid : q.peerIdentity = q'.peerIdentity := (congrArg (·.2.2.1) ho).symm
      rw [hid]
      exact h q' hq'
    · have hid : q.peerIdentity = q'.identity := (congrArg (·.2.2.1) ho).symm
      rw [hid]
      exact saves_identity hsha ha hsaves q' hq'

theorem records_author {p : Profile} (h : Sound pf p) (hs : s.identityId.length = 32) {a : Act} {e : EventRow}
    (hr : Attribution.Records pf s p.world.store a e) (hn : e.kind ≠ .devicesChanged) : FitAuthor e.senderIdentity := by
  intro i hi
  cases hr with
  | message hm hs hk =>
    obtain ⟨d, -, hd, -⟩ := senderOf_identity hi
    rcases Attribution.of_deviceIdentity hd with ⟨hown, -⟩ | ⟨q, hq, -, -, rfl⟩
    · obtain ⟨row, hrow, hlen⟩ := h.identity
      rw [Client.identityId, hrow] at hown
      obtain rfl := Option.some.inj hown
      exact hlen
    · exact h.peers q hq
  | notice hb hroot hv hk hid => exact absurd hk hn
  | written =>
    obtain rfl := Option.some.inj hi
    exact hs

theorem sound_act {p : Profile} (h : Sound pf p) (hsha : ∀ b, (pf.crypto.sha256 b).length = 32)
    (hs : s.identityId.length = 32) {a : Act} (ha : Portable pf s p (.act a)) :
    Sound pf (step pf s p (.act a)) := by
  refine ⟨?_, step_peers_identity hsha ha.2 h.peers, fun e he hn => ?_, h.archived, h.files, h.copies⟩
  · obtain ⟨row, hrow, hlen⟩ := h.identity
    exact ⟨row, (step_identity p.world a).trans hrow, hlen⟩
  · rcases Attribution.step_events he with hold | hnew
    · exact h.events e hold hn
    · exact ⟨ha.1 e hnew hn, records_author h hs hnew hn⟩

theorem sound_recordEvent {p : Profile} (h : Sound pf p) {group id body : Bytes} {kind : EventKind}
    {sender : Option Delivery.EventSender} (hd : Portable pf s p (.recordEvent group id kind body sender)) :
    Sound pf (step pf s p (.recordEvent group id kind body sender)) := by
  have hidentity : Prog.Fixes (fun st : Store => st.identity) (Delivery.recordEventBy group id kind body sender) :=
    fixes_sqlInsert fun _ _ => rfl
  have hpeers : Prog.Fixes (fun st : Store => st.peers) (Delivery.recordEventBy group id kind body sender) :=
    fixes_sqlInsert fun _ _ => rfl
  refine ⟨?_, ?_, fun e he hn => ?_, h.archived, h.files, h.copies⟩
  · obtain ⟨row, hrow, hlen⟩ := h.identity
    exact ⟨row, (hidentity p.world.store).trans hrow, hlen⟩
  · intro q hq
    have hsame : (Delivery.recordEventBy group id kind body sender p.world.store).2.peers = p.world.store.peers :=
      hpeers p.world.store
    exact h.peers q (hsame ▸ hq)
  · rcases Attribution.recordEventBy_atMost group id kind body sender p.world.store e he with hold | rfl
    · exact h.events e hold hn
    · exact ⟨hd.2, hd.1⟩

theorem mem_updateEvent {id body : Bytes} {kind : EventKind} {st : Store} {e : EventRow}
    (h : e ∈ (updateEvent id kind body st).events) :
    (∃ e' ∈ st.events, e'.eventId = id ∧ e = { e' with kind := kind, body := body }) ∨ e ∈ st.events := by
  simp only [updateEvent, Table.mem_update] at h
  obtain ⟨e', he', rfl⟩ := h
  by_cases hid : e'.eventId = id
  · exact Or.inl ⟨e', he', hid, by simp [hid]⟩
  · exact Or.inr (by simpa [hid] using he')

theorem sound_updateEvent {p : Profile} (h : Sound pf p) {id body : Bytes} {kind : EventKind}
    (hd : Portable pf s p (.updateEvent id kind body)) : Sound pf (step pf s p (.updateEvent id kind body)) := by
  refine ⟨h.identity, h.peers, fun e he hn => ?_, h.archived, h.files, h.copies⟩
  rcases mem_updateEvent he with ⟨e', he', hid, rfl⟩ | hold
  · have hfile := hd.2 e' he' hid
    have hkind : e'.kind ≠ .devicesChanged := by
      intro hk
      rw [hk] at hfile
      cases hfile
    obtain ⟨hfit, hauthor⟩ := h.events e' he' hkind
    exact ⟨⟨hfit.group, hfit.id, hd.1⟩, hauthor⟩
  · exact h.events e hold hn

theorem Verified.congr {p p' : Profile} {row : AttachmentRow} (h : Verified pf p row)
    (hc : (p'.chunks.rows.filter fun c => c.eventId = row.eventId) = p.chunks.rows.filter fun c => c.eventId = row.eventId) :
    Verified pf p' row := by
  unfold Verified attachmentBytes at h ⊢
  rw [hc]
  exact h

theorem not_finished {p : Profile} {id : Bytes} (h : finished p id = false) {row : AttachmentRow} (hr : row ∈ p.transfers)
    (hid : row.eventId = id) : ¬ isDone row.state := by
  unfold finished at h
  rw [Table.get?_eq_some.2 ⟨hr, hid⟩] at h
  simpa [isDone] using h

theorem sound_onTransfer {p : Profile} (h : Sound pf p) {id : Bytes} {f : Profile → Profile}
    (hrest : (f p).world = p.world ∧ (f p).archivedEvents = p.archivedEvents ∧ (f p).archivedFiles = p.archivedFiles)
    (hf : finished p id = false → ∀ row ∈ (f p).transfers, isDone row.state → Verified pf (f p) row) :
    Sound pf (onTransfer id f p) := by
  unfold onTransfer
  cases hdone : finished p id with
  | true => simpa using h
  | false =>
    simp only [Bool.false_eq_true, if_false]
    obtain ⟨hw, he, hfiles⟩ := hrest
    have hrecord (a : ArchivedRow) : archivedRecord (f p) a = archivedRecord p a := by
      unfold archivedRecord
      rw [hfiles]
    refine ⟨by rw [hw]; exact h.identity, by rw [hw]; exact h.peers, by rw [hw]; exact h.events, ?_, ?_, hf hdone⟩
    · intro a ha
      rw [hrecord]
      rw [he] at ha
      exact h.archived a ha
    · rw [hfiles, he]
      exact h.files

theorem mem_updateTransfer {id : Bytes} {f : AttachmentRow → AttachmentRow} {hf : ∀ r, (f r).eventId = r.eventId} {p : Profile}
    {row : AttachmentRow} (h : row ∈ (updateTransfer id f hf p).transfers) :
    (∃ r ∈ p.transfers, r.eventId = id ∧ row = f r) ∨ (row ∈ p.transfers ∧ row.eventId ≠ id) := by
  simp only [updateTransfer, Table.mem_update] at h
  obtain ⟨r, hr, rfl⟩ := h
  by_cases hid : r.eventId = id
  · exact Or.inl ⟨r, hr, hid, by simp [hid]⟩
  · exact Or.inr ⟨by simpa [hid] using hr, by simp [hid]⟩

theorem sound_updateTransfer {p : Profile} (h : Sound pf p) {id : Bytes} {f : AttachmentRow → AttachmentRow}
    {hf : ∀ r, (f r).eventId = r.eventId}
    (hdone : ∀ r ∈ p.transfers, r.eventId = id → ¬ isDone r.state → isDone (f r).state → Verified pf p (f r)) :
    Sound pf (onTransfer id (updateTransfer id f hf) p) := by
  refine sound_onTransfer h ⟨rfl, rfl, rfl⟩ fun hfin row hrow hd => ?_
  have hcopy : Verified pf p row := by
    rcases mem_updateTransfer hrow with ⟨r, hr, hid, rfl⟩ | ⟨hold, -⟩
    · exact hdone r hr hid (not_finished hfin hr hid) hd
    · exact h.copies row hold hd
  exact hcopy.congr rfl

theorem sound_attachmentChunk {p : Profile} (h : Sound pf p) (c : ChunkRow) :
    Sound pf (onTransfer c.eventId (fun p => { p with chunks := p.chunks.insertOrIgnore c }) p) := by
  refine sound_onTransfer h ⟨rfl, rfl, rfl⟩ fun hfin row hrow hd => ?_
  have hne : c.eventId ≠ row.eventId := fun hid => not_finished hfin hrow hid.symm hd
  refine (h.copies row hrow hd).congr ?_
  show ((p.chunks.insertOrIgnore c).rows.filter _) = _
  unfold Table.insertOrIgnore
  cases hi : p.chunks.insert c with
  | none => rfl
  | some t => simp [(Table.insert_eq_some hi).1, List.filter_append, hne]

theorem sound_attachmentClearBytes {p : Profile} (h : Sound pf p) (id : Bytes) :
    Sound pf (onTransfer id (attachmentClearBytes id) p) := by
  refine sound_onTransfer h ⟨rfl, rfl, rfl⟩ fun hfin row hrow hd => ?_
  rcases mem_updateTransfer hrow with ⟨r, hr, hid, rfl⟩ | ⟨hold, hne⟩
  · have hr : r ∈ p.transfers := hr
    have hstate : ¬ isDone r.state := not_finished hfin hr hid
    exact absurd hd hstate
  · refine (h.copies row hold hd).congr ?_
    show ((p.chunks.delete fun c => c.eventId = id).rows.filter _) = _
    simp only [Table.delete, List.filter_filter]
    refine List.filter_congr fun c _ => ?_
    by_cases hc : c.eventId = row.eventId
    · simp [hc, hne]
    · simp [hc]

/-- The records of a profile's archive pass the check, and its files have records. -/
def Kept (p : Profile) : Prop :=
  (∀ a ∈ p.archivedEvents, ∃ q, normalize (archivedRecord p a) = .ok q) ∧
    ∀ f ∈ p.archivedFiles, ∃ a ∈ p.archivedEvents, (a.groupId, a.eventId) = (f.groupId, f.eventId)

def SameButArchive (p p' : Profile) : Prop :=
  p'.world = p.world ∧ p'.transfers = p.transfers ∧ p'.chunks = p.chunks

theorem normalize_present {r q : ArchiveRecord} (h : normalize r = .ok q) (hf : r.filePresent = true ∨ ¬ r.file.isEmpty = true) :
    ∃ q', normalize { r with filePresent := true } = .ok q' := by
  obtain ⟨hs, hcases⟩ := normalize_ok h
  have hs' : Sized { r with filePresent := true } := ⟨hs.group, hs.id, hs.author, hs.body, hs.file⟩
  rcases hcases with ⟨⟨-, -, -, hp, hempty⟩, -⟩ | ⟨hk | hk, -⟩ | ⟨hk | hk, -⟩
  · rcases hf with hf | hf
    · simp [hp] at hf
    · simp [hempty] at hf
  all_goals exact ⟨_, normalize_file hs' hk rfl (by decide)⟩

theorem importFile_ok {r : ArchiveRecord} {p p' : Profile} (h : importFile r p = .ok p') :
    ((r.filePresent = true ∨ ¬ r.file.isEmpty = true) ∧ ∃ t, p.archivedFiles.insert ⟨r.groupId, r.eventId, r.file⟩ = some t ∧
        p' = { p with archivedFiles := t }) ∨
      (¬ (r.filePresent = true ∨ ¬ r.file.isEmpty = true) ∧ p' = p) := by
  unfold importFile at h
  split at h
  · next hf =>
    cases hi : p.archivedFiles.insert ⟨r.groupId, r.eventId, r.file⟩ with
    | none => simp [hi] at h
    | some t =>
      simp only [hi, Except.ok.injEq] at h
      exact Or.inl ⟨hf, t, rfl, h.symm⟩
  · next hf => exact Or.inr ⟨hf, (Except.ok.inj h).symm⟩

theorem kept_import {r q : ArchiveRecord} (hr : normalize r = .ok q) {p p' : Profile} (h : Kept p) {t}
    (hi : p.archivedEvents.insert ⟨r.groupId, r.eventId, r.kind, r.body, r.fileName, r.senderIdentity⟩ = some t)
    (hf : importFile r { p with archivedEvents := t } = .ok p') : Kept p' ∧ SameButArchive p p' := by
  have hfree := (Table.insert_eq_some hi).2
  have hnofile : p.archivedFiles.get? (r.groupId, r.eventId) = none := by
    refine Table.get?_eq_none.2 fun f hf hk => ?_
    obtain ⟨a, ha, hka⟩ := h.2 f hf
    exact hfree a ha (hka.trans hk)
  have hother (a : ArchivedRow) (ha : a ∈ p.archivedEvents) : (r.groupId, r.eventId) ≠ (a.groupId, a.eventId) :=
    fun hk => hfree a ha hk.symm
  rcases importFile_ok hf with ⟨hfile, files, hfiles, rfl⟩ | ⟨hfile, rfl⟩
  · refine ⟨⟨fun a ha => ?_, fun f hf => ?_⟩, rfl, rfl, rfl⟩
    · rcases (Table.mem_insert hi).1 ha with hold | rfl
      · have hsame : archivedRecord { p with archivedEvents := t, archivedFiles := files } a = archivedRecord p a := by
          unfold archivedRecord
          rw [Table.get?_insert hfiles, if_neg (hother a hold)]
        rw [hsame]
        exact h.1 a hold
      · obtain ⟨q', hq'⟩ := normalize_present hr hfile
        refine ⟨q', ?_⟩
        unfold archivedRecord
        rw [Table.get?_insert hfiles, if_pos rfl]
        exact hq'
    · rcases (Table.mem_insert hfiles).1 hf with hold | rfl
      · obtain ⟨a, ha, hk⟩ := h.2 f hold
        exact ⟨a, (Table.mem_insert hi).2 (Or.inl ha), hk⟩
      · exact ⟨_, (Table.mem_insert hi).2 (Or.inr rfl), rfl⟩
  · simp only [not_or, Bool.not_eq_true, Decidable.not_not, List.isEmpty_iff] at hfile
    refine ⟨⟨fun a ha => ?_, fun f hf => ?_⟩, rfl, rfl, rfl⟩
    · rcases (Table.mem_insert hi).1 ha with hold | rfl
      · exact h.1 a hold
      · refine ⟨q, ?_⟩
        have hsame : archivedRecord { p with archivedEvents := t }
            ⟨r.groupId, r.eventId, r.kind, r.body, r.fileName, r.senderIdentity⟩ = r := by
          unfold archivedRecord
          rw [hnofile]
          simp [← hfile.1, ← hfile.2]
        rw [hsame]
        exact hr
    · obtain ⟨a, ha, hk⟩ := h.2 f hf
      exact ⟨a, (Table.mem_insert hi).2 (Or.inl ha), hk⟩

theorem kept_archiveImport {rs : List ArchiveRecord} (hrs : ∀ r ∈ rs, ∃ q, normalize r = .ok q) {p p' : Profile} (h : Kept p)
    (hi : archiveImport rs p = .ok p') : Kept p' ∧ SameButArchive p p' := by
  induction rs generalizing p with
  | nil =>
    obtain rfl := Except.ok.inj hi
    exact ⟨h, rfl, rfl, rfl⟩
  | cons r rest ih =>
    have hrest := fun x hx => hrs x (List.mem_cons_of_mem r hx)
    unfold archiveImport at hi
    cases ht : p.archivedEvents.insert ⟨r.groupId, r.eventId, r.kind, r.body, r.fileName, r.senderIdentity⟩ with
    | none =>
      simp only [ht] at hi
      exact ih hrest h hi
    | some t =>
      simp only [ht, bind, Except.bind] at hi
      cases hf : importFile r { p with archivedEvents := t } with
      | error e => simp [hf] at hi
      | ok p₁ =>
        simp only [hf] at hi
        obtain ⟨q, hq⟩ := hrs r List.mem_cons_self
        obtain ⟨hkept, hw, htr, hc⟩ := kept_import hq h ht hf
        obtain ⟨hkept', hw', htr', hc'⟩ := ih hrest hkept hi
        exact ⟨hkept', hw'.trans hw, htr'.trans htr, hc'.trans hc⟩

theorem normalizeAll_ok {rs qs : List ArchiveRecord} (h : normalizeAll rs = .ok qs) : ∀ q ∈ qs, ∃ q', normalize q = .ok q' := by
  induction rs generalizing qs with
  | nil =>
    obtain rfl := Except.ok.inj h
    intro q hq
    cases hq
  | cons r rest ih =>
    simp only [normalizeAll, bind, Except.bind] at h
    cases hr : normalize r with
    | error e => simp [hr] at h
    | ok q₁ =>
      simp only [hr] at h
      cases hrest : normalizeAll rest with
      | error e => simp [hrest] at h
      | ok qs' =>
        simp only [hrest] at h
        obtain rfl := Except.ok.inj h
        intro q hq
        rcases List.mem_cons.1 hq with rfl | hq
        · exact normalize_again hr
        · exact ih hrest q hq

theorem import_ok {a : HistoryArchive} {p p' : Profile} (h : import_ a p = .ok p') :
    ∃ rs, (∀ r ∈ rs, ∃ q, normalize r = .ok q) ∧ archiveImport rs p = .ok p' := by
  unfold import_ at h
  split at h
  · cases h
  · simp only [bind, Except.bind] at h
    cases hn : normalizeAll a.records with
    | error e => simp [hn] at h
    | ok rs =>
      simp only [hn] at h
      cases hi : archiveImport rs p with
      | error e => simp [hi] at h
      | ok p₁ =>
        simp only [hi] at h
        obtain rfl := Except.ok.inj h
        exact ⟨rs, normalizeAll_ok hn, hi⟩

/-- An import needs no condition: what it stores was checked. -/
theorem sound_import {p : Profile} (h : Sound pf p) (a : HistoryArchive) : Sound pf ((import_ a p).toOption.getD p) := by
  cases hi : import_ a p with
  | error e => exact h
  | ok p' =>
    obtain ⟨rs, hrs, hai⟩ := import_ok hi
    obtain ⟨hkept, hw, ht, hc⟩ := kept_archiveImport hrs ⟨h.archived, h.files⟩ hai
    show Sound pf p'
    refine ⟨by rw [hw]; exact h.identity, by rw [hw]; exact h.peers, by rw [hw]; exact h.events, hkept.1, hkept.2, ?_⟩
    intro row hrow hd
    rw [ht] at hrow
    exact (h.copies row hrow hd).congr (by rw [hc])

end Arveil.Archive

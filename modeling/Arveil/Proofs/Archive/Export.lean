import Arveil.Proofs.Archive.Records

/-! The loop collects what goes through both checks and stops at the first record that does not, so
an export holds every record or none. -/

namespace Arveil.Archive

variable {pf : Platform}

def tally (out : ArchiveRecord) (tail : List ArchiveRecord × Nat × Nat) : List ArchiveRecord × Nat × Nat :=
  if out.fileName.isSome then
    if out.file.isEmpty ∧ out.filePresent = false then (out :: tail.1, tail.2.1, tail.2.2 + 1)
    else (out :: tail.1, tail.2.1 + 1, tail.2.2)
  else (out :: tail.1, tail.2.1, tail.2.2)

theorem tally_records (out : ArchiveRecord) (tail : List ArchiveRecord × Nat × Nat) : (tally out tail).1 = out :: tail.1 := by
  unfold tally
  split
  · split <;> rfl
  · rfl

theorem collect_cons {p : Profile} {size : Nat} {x : Option EventKind × ArchiveRecord} {q out : ArchiveRecord}
    {rest : List (Option EventKind × ArchiveRecord)} (hq : withFile pf p size x.1 x.2 = .ok q) (hn : normalize q = .ok out) :
    collect pf p size (x :: rest) =
      if maxArchivePayloadBytes < size + (out.body.length + out.file.length + 512) then .error invalid
      else (collect pf p (size + (out.body.length + out.file.length + 512)) rest).map (tally out) := by
  obtain ⟨live, r⟩ := x
  simp only at hq
  simp only [collect, hq, bind, Except.bind, hn]
  split
  · rfl
  · cases collect pf p (size + (out.body.length + out.file.length + 512)) rest with
    | error e => rfl
    | ok tail =>
      simp only [Except.map, tally]
      split
      · split <;> rfl
      · rfl

theorem collect_head {p : Profile} {size : Nat} {x : Option EventKind × ArchiveRecord}
    {rest : List (Option EventKind × ArchiveRecord)} {r : List ArchiveRecord × Nat × Nat}
    (h : collect pf p size (x :: rest) = .ok r) : ∃ q out, withFile pf p size x.1 x.2 = .ok q ∧ normalize q = .ok out := by
  obtain ⟨live, rec⟩ := x
  simp only [collect, bind, Except.bind] at h
  cases hq : withFile pf p size live rec with
  | error e => simp [hq] at h
  | ok q =>
    cases hn : normalize q with
    | error e => simp [hq, hn] at h
    | ok out => exact ⟨q, out, rfl, hn⟩

theorem collect_ok {p : Profile} {rs : List (Option EventKind × ArchiveRecord)}
    (h : ∀ x ∈ rs, ∃ q out, Packs pf p x q out) {size : Nat}
    (hfit : size + (rs.map (weight pf p)).sum ≤ maxArchivePayloadBytes) :
    ∃ r, collect pf p size rs = .ok r := by
  induction rs generalizing size with
  | nil => exact ⟨([], 0, 0), rfl⟩
  | cons x rest ih =>
    obtain ⟨q, out, hx⟩ := h x List.mem_cons_self
    have hfile : q.file = out.file := (normalize_keeps hx.normal).2.2.2.1.symm
    rw [List.map_cons, List.sum_cons, hx.weight] at hfit
    have hroom : size + q.file.length ≤ maxArchivePayloadBytes := by
      rw [hfile]
      omega
    have hrest : size + (out.body.length + out.file.length + 512) + (rest.map (weight pf p)).sum ≤ maxArchivePayloadBytes := by
      omega
    obtain ⟨r, hr⟩ := ih (fun y hy => h y (List.mem_cons_of_mem x hy)) hrest
    rw [collect_cons (hx.filed size hroom) hx.normal, if_neg (by omega), hr]
    exact ⟨_, rfl⟩

theorem collect_records {p : Profile} {rs : List (Option EventKind × ArchiveRecord)} {size : Nat}
    {r : List ArchiveRecord × Nat × Nat} (h : collect pf p size rs = .ok r) :
    ∀ x ∈ rs, ∃ size q, withFile pf p size x.1 x.2 = .ok q ∧ ∃ out ∈ r.1, normalize q = .ok out := by
  induction rs generalizing size r with
  | nil =>
    intro x hx
    cases hx
  | cons y rest ih =>
    obtain ⟨q, out, hq, hn⟩ := collect_head h
    rw [collect_cons hq hn] at h
    split at h
    · cases h
    · cases hrest : collect pf p (size + (out.body.length + out.file.length + 512)) rest with
      | error e => simp [hrest, Except.map] at h
      | ok tail =>
        rw [hrest] at h
        obtain rfl := Except.ok.inj h
        intro x hx
        rw [tally_records]
        rcases List.mem_cons.1 hx with rfl | hx
        · exact ⟨size, q, hq, out, List.mem_cons_self, hn⟩
        · obtain ⟨size', q', hq', out', hout, hn'⟩ := ih hrest x hx
          exact ⟨size', q', hq', out', List.mem_cons_of_mem out hout, hn'⟩

structure Carries (st : Store) (e : EventRow) (r : ArchiveRecord) : Prop where
  group : r.groupId = e.groupId
  id : r.eventId = e.eventId
  author : r.senderIdentity = (liveRecord st e).senderIdentity
  text : isFile e.kind = false → r.kind = .event e.kind ∧ r.body = e.body
  file : isFile e.kind = true → r.kind = .event (if own e.kind then .sentFile else .receivedFile) ∧ r.fileName.isSome = true

/-- The content of a profile is within the limits of an archive, and so is the archive
that the export builds of it, sealed. -/
structure Fits (pf : Platform) (p : Profile) (now : UInt64) (k : Seal) : Prop where
  count : (history p).length ≤ maxArchiveRecords
  rows : ((history p).map fun r => rowSize r.2).sum ≤ maxArchivePayloadBytes
  payload : ((history p).map (weight pf p)).sum ≤ maxArchivePayloadBytes
  sealed : ∀ row r, p.world.store.identity = some row → collect pf p 0 (history p) = .ok r →
    ∃ b, k.archiveSeal ⟨archiveVersion, row.identityId, now, r.1⟩ = .ok b ∧ b.length ≤ maxArchiveBytes

/-- Imported history whose id no live event has. -/
def Imported (p : Profile) (a : ArchivedRow) : Prop :=
  a ∈ p.archivedEvents ∧ ∀ e ∈ p.world.store.events, ¬ (e.groupId = a.groupId ∧ e.eventId = a.eventId)

/-- The export returns an archive of the whole history. -/
def Exported (pf : Platform) (p : Profile) (now : UInt64) (k : Seal) : Prop :=
  ∃ row records out, p.world.store.identity = some row ∧ export_ pf p now k = .ok out ∧
    k.archiveSeal ⟨archiveVersion, row.identityId, now, records⟩ = .ok out.encrypted ∧
    (∀ e ∈ p.world.store.events, e.kind ≠ .devicesChanged → ∃ r ∈ records, Carries p.world.store e r) ∧
    ∀ a, Imported p a → ∃ r ∈ records, normalize (archivedRecord p a) = .ok r

/-- A profile whose history can be taken out. -/
structure Sound (pf : Platform) (p : Profile) : Prop where
  identity : ∃ row, p.world.store.identity = some row ∧ row.identityId.length = 32
  peers : ∀ q ∈ p.world.store.peers, q.peerIdentity.length = 32
  events : ∀ e ∈ p.world.store.events, e.kind ≠ .devicesChanged → Fit e ∧ FitAuthor e.senderIdentity
  archived : ∀ a ∈ p.archivedEvents, ∃ q, normalize (archivedRecord p a) = .ok q
  files : ∀ f ∈ p.archivedFiles, ∃ a ∈ p.archivedEvents, (a.groupId, a.eventId) = (f.groupId, f.eventId)
  copies : ∀ row ∈ p.transfers, isDone row.state → Verified pf p row

theorem live_mem_history {p : Profile} {e : EventRow} (he : e ∈ p.world.store.events) (hn : e.kind ≠ .devicesChanged) :
    (some e.kind, liveRecord p.world.store e) ∈ history p :=
  List.mem_append_left _ (List.mem_map.2 ⟨e, List.mem_filter.2 ⟨he, by simpa using hn⟩, rfl⟩)

theorem imported_mem_history {p : Profile} {a : ArchivedRow} (h : Imported p a) : (none, archivedRecord p a) ∈ history p := by
  refine List.mem_append_right _ (List.mem_map.2 ⟨a, List.mem_filter.2 ⟨h.1, ?_⟩, rfl⟩)
  simp only [Bool.not_eq_true', List.any_eq_false, Bool.and_eq_true, decide_eq_true_eq]
  exact h.2

theorem mem_history {p : Profile} {x : Option EventKind × ArchiveRecord} (h : x ∈ history p) :
    (∃ e ∈ p.world.store.events, e.kind ≠ .devicesChanged ∧ x = (some e.kind, liveRecord p.world.store e)) ∨
      ∃ a ∈ p.archivedEvents, x = (none, archivedRecord p a) := by
  rcases List.mem_append.1 h with h | h
  · obtain ⟨e, he, rfl⟩ := List.mem_map.1 h
    obtain ⟨he, hn⟩ := List.mem_filter.1 he
    exact Or.inl ⟨e, he, by simpa using hn, rfl⟩
  · obtain ⟨a, ha, rfl⟩ := List.mem_map.1 h
    exact Or.inr ⟨a, (List.mem_filter.1 ha).1, rfl⟩

theorem Sound.author {p : Profile} (h : Sound pf p) {e : EventRow} (he : FitAuthor e.senderIdentity) :
    FitAuthor (liveRecord p.world.store e).senderIdentity := by
  intro i hi
  simp only [liveRecord] at hi
  rcases Option.or_eq_some_iff.1 hi with hi | ⟨-, hi⟩
  · rcases Option.or_eq_some_iff.1 hi with hi | ⟨-, hi⟩
    · exact he i hi
    · obtain ⟨q, hq, rfl⟩ := Option.map_eq_some_iff.1 hi
      obtain ⟨d, -, hd⟩ := Option.bind_eq_some_iff.1 hq
      exact h.peers q (Table.get?_eq_some.1 hd).1
  · obtain ⟨row, hrow, hlen⟩ := h.identity
    split at hi
    · rw [hrow] at hi
      obtain rfl := Option.some.inj hi
      exact hlen
    · cases hi

theorem Sound.packs {p : Profile} (h : Sound pf p) : ∀ x ∈ history p, ∃ q out, Packs pf p x q out := by
  intro x hx
  rcases mem_history hx with ⟨e, he, hn, rfl⟩ | ⟨a, ha, rfl⟩
  · obtain ⟨hf, hauthor⟩ := h.events e he hn
    exact live_packs he hn hf (h.author hauthor) fun row hr hd => h.copies row (Table.get?_eq_some.1 hr).1 hd
  · obtain ⟨q, hq⟩ := h.archived a ha
    exact ⟨_, q, ⟨fun _ _ => rfl, hq⟩⟩

theorem withFile_keeps {p : Profile} {size : Nat} {live : Option EventKind} {r q : ArchiveRecord}
    (h : withFile pf p size live r = .ok q) :
    q.groupId = r.groupId ∧ q.eventId = r.eventId ∧ q.kind = r.kind ∧ q.body = r.body ∧ q.senderIdentity = r.senderIdentity := by
  unfold withFile at h
  split at h
  · obtain rfl := Except.ok.inj h
    exact ⟨rfl, rfl, rfl, rfl, rfl⟩
  · split at h
    · split at h
      · obtain rfl := Except.ok.inj h
        exact ⟨rfl, rfl, rfl, rfl, rfl⟩
      · split at h
        · split at h
          · cases h
          · cases hb : availableBytes pf p r.groupId r.eventId with
            | error e => simp [hb, bind, Except.bind] at h
            | ok bytes =>
              simp only [hb, bind, Except.bind] at h
              obtain rfl := Except.ok.inj h
              exact ⟨rfl, rfl, rfl, rfl, rfl⟩
        · obtain rfl := Except.ok.inj h
          exact ⟨rfl, rfl, rfl, rfl, rfl⟩
    · obtain rfl := Except.ok.inj h
      exact ⟨rfl, rfl, rfl, rfl, rfl⟩

theorem carries_of_filed {p : Profile} {size : Nat} {e : EventRow} {q out : ArchiveRecord}
    (hq : withFile pf p size (some e.kind) (liveRecord p.world.store e) = .ok q) (hn : normalize q = .ok out) :
    (Fit e ∧ FitAuthor (liveRecord p.world.store e).senderIdentity) ∧ Carries p.world.store e out := by
  obtain ⟨hg, hid, hkind, hbody, hauthor⟩ := withFile_keeps hq
  obtain ⟨hg', hid', hauthor', -, -⟩ := normalize_keeps hn
  obtain ⟨hs, hcases⟩ := normalize_ok hn
  have hg : q.groupId = e.groupId := hg
  have hid : q.eventId = e.eventId := hid
  have hkind : q.kind = .event e.kind := hkind
  have hbody : q.body = e.body := hbody
  have hsized : FitAuthor (liveRecord p.world.store e).senderIdentity := hauthor ▸ hs.author
  have hfit (hutf : e.kind = .sent ∨ e.kind = .received → validUtf8 q.body = true) (hu : e.kind ≠ .fileUnavailable) : Fit e := by
    refine ⟨hg ▸ hs.group, hid ▸ hs.id, ?_, ?_, hu⟩
    · exact hbody ▸ hs.body
    · exact hbody ▸ hutf
  have hcarries (ht : isFile e.kind = false → out.kind = .event e.kind ∧ out.body = q.body)
      (hf : isFile e.kind = true → out.kind = .event (if own e.kind then .sentFile else .receivedFile) ∧
        out.fileName.isSome = true) : Carries p.world.store e out :=
    ⟨hg'.trans hg, hid'.trans hid, hauthor'.trans hauthor, fun h => ⟨(ht h).1, (ht h).2.trans hbody⟩, hf⟩
  rw [hkind] at hcases
  rcases hcases with ⟨⟨hk, hu, -, -, -⟩, rfl⟩ | ⟨hk, rfl⟩ | ⟨hk, rfl⟩
  · have hk : e.kind = .sent ∨ e.kind = .received := hk.imp RecordKind.event.inj RecordKind.event.inj
    have hnot : isFile e.kind = false := by rcases hk with h | h <;> rw [h] <;> rfl
    refine ⟨⟨hfit (fun _ => hu) ?_, hsized⟩, hcarries (fun _ => ⟨hkind, rfl⟩) fun h => absurd h (by simp [hnot])⟩
    rintro h
    rw [h] at hk
    simp at hk
  · have hk : e.kind = .receivedFile ∨ e.kind = .filePending := hk.imp RecordKind.event.inj RecordKind.event.inj
    refine ⟨⟨hfit ?_ ?_, hsized⟩, hcarries ?_ fun _ => ⟨?_, rfl⟩⟩
    all_goals rcases hk with h | h <;> simp [h, isFile, own, fileRecord]
  · have hk : e.kind = .sentFile ∨ e.kind = .fileOutgoing := hk.imp RecordKind.event.inj RecordKind.event.inj
    refine ⟨⟨hfit ?_ ?_, hsized⟩, hcarries ?_ fun _ => ⟨?_, rfl⟩⟩
    all_goals rcases hk with h | h <;> simp [h, isFile, own, fileRecord]

theorem export_ok {p : Profile} {now : UInt64} {k : Seal} {out : ArchiveExport} (h : export_ pf p now k = .ok out) :
    ∃ row r, p.world.store.identity = some row ∧ collect pf p 0 (history p) = .ok r ∧
      k.archiveSeal ⟨archiveVersion, row.identityId, now, r.1⟩ = .ok out.encrypted := by
  unfold export_ at h
  cases hid : p.world.store.identity with
  | none => simp [hid, bind, Except.bind] at h
  | some row =>
    simp only [hid, bind, Except.bind, pure, Except.pure] at h
    unfold archiveSnapshot at h
    split at h
    · cases h
    · next snapshot hs =>
      split at hs
      · cases hs
      · obtain rfl := Except.ok.inj hs
        cases hc : collect pf p 0 (history p) with
        | error e => simp [hc] at h
        | ok r =>
          obtain ⟨records, files, missing⟩ := r
          simp only [hc] at h
          cases hk : k.archiveSeal ⟨archiveVersion, row.identityId, now, records⟩ with
          | error e => simp [hk] at h
          | ok b =>
            simp only [hk] at h
            split at h
            · cases h
            · obtain rfl := Except.ok.inj h
              exact ⟨row, _, rfl, rfl, hk⟩

theorem export_total {p : Profile} (h : Sound pf p) {now : UInt64} {k : Seal} (hf : Fits pf p now k) :
    ∃ out, export_ pf p now k = .ok out := by
  obtain ⟨row, hrow, -⟩ := h.identity
  have hroom : 0 + ((history p).map (weight pf p)).sum ≤ maxArchivePayloadBytes := by simpa using hf.payload
  obtain ⟨⟨records, files, missing⟩, hr⟩ := collect_ok h.packs hroom
  obtain ⟨b, hb, hlen⟩ := hf.sealed row _ hrow hr
  have hsnap : archiveSnapshot p = .ok (history p) :=
    if_neg fun hbig => hbig.elim (Nat.not_lt.2 hf.count) (Nat.not_lt.2 hf.rows)
  unfold export_
  simp only [hrow, bind, Except.bind, pure, Except.pure, hsnap, hr, hb]
  rw [if_neg (Nat.not_lt.2 hlen)]
  exact ⟨_, rfl⟩

theorem exported_of_sound {p : Profile} (h : Sound pf p) {now : UInt64} {k : Seal} (hf : Fits pf p now k) :
    Exported pf p now k := by
  obtain ⟨out, hout⟩ := export_total h hf
  obtain ⟨row, r, hrow, hr, hseal⟩ := export_ok hout
  refine ⟨row, r.1, out, hrow, hout, hseal, fun e he hn => ?_, fun a ha => ?_⟩
  · obtain ⟨size, q, hq, r, hmem, hr⟩ := collect_records hr _ (live_mem_history he hn)
    exact ⟨r, hmem, (carries_of_filed hq hr).2⟩
  · obtain ⟨size, q, hq, out, hmem, hn⟩ := collect_records hr _ (imported_mem_history ha)
    obtain rfl := Except.ok.inj hq
    exact ⟨out, hmem, hn⟩

end Arveil.Archive

import Arveil.Spec.Transfers
import Arveil.Proofs.Uploads
import Arveil.Sanity.Cbor
import Arveil.Sanity.Platform

/-! Chunks that are stored one after the other read back in order, and the relay keeps what it
acknowledged under the hash that was asked for. -/

namespace Arveil.Transfers

open Archive (maxFileBytes joinChunks)

variable {cx : Crypto} {items : CborItems}

section chunks

theorem orderedInsert_concat {α : Type} {r : α → α → Prop} [DecidableRel r] {a x : α} (h : r a x) (l : List α) :
    List.orderedInsert r a (l ++ [x]) = List.orderedInsert r a l ++ [x] := by
  induction l with
  | nil => simp [List.orderedInsert, h]
  | cons b l ih =>
    by_cases hab : r a b
    · simp [List.orderedInsert, hab]
    · simp [List.orderedInsert, hab, ih]

theorem insertionSort_concat {α : Type} {r : α → α → Prop} [DecidableRel r] {x : α} {l : List α} (h : ∀ a ∈ l, r a x) :
    List.insertionSort r (l ++ [x]) = List.insertionSort r l ++ [x] := by
  induction l with
  | nil => rfl
  | cons a l ih =>
    rw [List.forall_mem_cons] at h
    rw [List.cons_append, List.insertionSort_cons, List.insertionSort_cons, ih h.2, orderedInsert_concat h.1]

variable {max : Nat}

theorem joinChunks_concat {b bytes : Bytes} {l : List ChunkRow} {c : ChunkRow} (h : joinChunks max b l = .ok bytes)
    (hoffset : c.offset.toNat = bytes.length) (hfits : c.data.length ≤ max - bytes.length) :
    joinChunks max b (l ++ [c]) = .ok (bytes ++ c.data) := by
  induction l generalizing b with
  | nil =>
    obtain rfl := Except.ok.inj h
    rw [List.nil_append, joinChunks, if_neg (by omega), joinChunks]
  | cons c' l ih =>
    rw [joinChunks] at h
    split at h
    · cases h
    · next hgood =>
      rw [List.cons_append, joinChunks, if_neg hgood]
      exact ih h

theorem joinChunks_bounds {b bytes : Bytes} {l : List ChunkRow} (h : joinChunks max b l = .ok bytes) :
    b.length ≤ bytes.length ∧ (b.length ≤ max → bytes.length ≤ max) ∧ ∀ c ∈ l, c.offset.toNat + c.data.length ≤ bytes.length := by
  induction l generalizing b with
  | nil =>
    obtain rfl := Except.ok.inj h
    exact ⟨Nat.le_refl _, fun h => h, fun c hc => absurd hc List.not_mem_nil⟩
  | cons c l ih =>
    rw [joinChunks] at h
    split at h
    · cases h
    · next hgood =>
      rw [not_or, not_not] at hgood
      obtain ⟨hlength, hmax, hrest⟩ := ih h
      rw [List.length_append] at hlength hmax
      refine ⟨by omega, fun hb => hmax (by omega), fun c' hc' => ?_⟩
      rcases List.mem_cons.1 hc' with rfl | hc'
      · omega
      · exact hrest c' hc'

theorem mem_chunksOf {s : State} {id : Bytes} {c : ChunkRow} : c ∈ chunksOf s id ↔ c ∈ s.chunks ∧ c.eventId = id := by
  rw [chunksOf, List.mem_insertionSort, List.mem_filter, decide_eq_true_eq, Table.mem_def]

/-- The bytes of an attachment, in chunks that are not empty. -/
def Stored (s : State) (id bytes : Bytes) : Prop := attachmentBytes s id = .ok bytes ∧ ∀ c ∈ chunksOf s id, c.data ≠ []

theorem Stored.congr {s s' : State} {id bytes : Bytes} (h : Stored s id bytes) (hchunks : chunksOf s' id = chunksOf s id) :
    Stored s' id bytes := by
  unfold Stored attachmentBytes at h ⊢
  rw [hchunks]
  exact h

theorem Stored.length_le {s : State} {id bytes : Bytes} (h : Stored s id bytes) : bytes.length ≤ maxFileBytes :=
  (joinChunks_bounds h.1).2.1 (Nat.zero_le _)

theorem toNat_ofNat_offset {n : Nat} (h : n ≤ maxFileBytes) : (UInt64.ofNat n).toNat = n := by
  rw [UInt64.toNat_ofNat']
  have hmax : maxFileBytes = 26214400 := rfl
  omega

theorem chunksOf_insert_ne {s : State} {t : Table fun c : ChunkRow => (c.eventId, c.offset)} {c : ChunkRow} (h : s.chunks.insert c = some t)
    {id : Bytes} (hne : c.eventId ≠ id) : chunksOf { s with chunks := t } id = chunksOf s id := by
  unfold chunksOf
  rw [(Table.insert_eq_some h).1, List.filter_append, List.filter_singleton, decide_eq_false hne]
  simp

theorem Stored.chunk {s : State} {id bytes data : Bytes} (h : Stored s id bytes) (hdata : data ≠ []) (hfits : data.length ≤ maxFileBytes - bytes.length) :
    ∃ t, s.chunks.insert ⟨id, UInt64.ofNat bytes.length, data⟩ = some t ∧ Stored { s with chunks := t } id (bytes ++ data) := by
  have hoffset := toNat_ofNat_offset h.length_le
  have hbefore : ∀ c ∈ chunksOf s id, c.offset.toNat < bytes.length := by
    intro c hc
    have hend := (joinChunks_bounds h.1).2.2 c hc
    have hpos := List.length_pos_iff.2 (h.2 c hc)
    omega
  have hfree : s.chunks.insert ⟨id, UInt64.ofNat bytes.length, data⟩ ≠ none := by
    rw [ne_eq, Table.insert_eq_none]
    rintro ⟨c, hc, hkey⟩
    obtain ⟨hid, hoff⟩ := Prod.mk.inj hkey
    have hlt := hbefore c (mem_chunksOf.2 ⟨hc, hid⟩)
    rw [hoff, hoffset] at hlt
    exact Nat.lt_irrefl _ hlt
  obtain ⟨t, ht⟩ := Option.ne_none_iff_exists'.1 hfree
  have hchunks : chunksOf { s with chunks := t } id = chunksOf s id ++ [⟨id, UInt64.ofNat bytes.length, data⟩] := by
    unfold chunksOf
    rw [(Table.insert_eq_some ht).1, List.filter_append, List.filter_singleton, decide_eq_true rfl]
    refine insertionSort_concat fun c hc => ?_
    have hlt := hbefore c (by rwa [chunksOf, List.mem_insertionSort])
    rw [UInt64.le_iff_toNat_le, hoffset]
    omega
  refine ⟨t, ht, ?_, ?_⟩
  · rw [attachmentBytes, hchunks]
    exact joinChunks_concat h.1 hoffset hfits
  · intro c hc
    rw [hchunks] at hc
    rcases List.mem_append.1 hc with hc | hc
    · exact h.2 c hc
    · rw [List.mem_singleton.1 hc]
      exact hdata

end chunks

section relay

open RelayStore RelayServer Blobs

theorem stagingRead_ok {id content : Bytes} {db db' : Db} (h : (Call.stagingRead id).prog cx.sha256 db = (.ok content, db')) :
    ∃ f, db.staging.get? id = some f ∧ f.content = content ∧ db' = db := by
  obtain ⟨f, db₁, hrequire, hread⟩ := Prog.bind_eq_ok.1 h
  obtain ⟨hf, rfl⟩ := require_eq_ok.1 hrequire
  obtain ⟨hcontent, rfl⟩ := Prod.mk.inj hread
  exact ⟨f, hf, Except.ok.inj hcontent, rfl⟩

theorem stagingRename_ok {id : Bytes} {db db' : Db} (h : (Call.stagingRename id).prog cx.sha256 db = (.ok (), db')) :
    ∃ f, db.staging.get? id = some f ∧ db' = { db with staging := db.staging.delete fun g => g.blobId = id, files := db.files.replace f } := by
  obtain ⟨f, db₁, hrequire, hmodify⟩ := Prog.bind_eq_ok.1 h
  obtain ⟨hf, rfl⟩ := require_eq_ok.1 hrequire
  exact ⟨f, hf, (Prod.mk.inj hmodify).2.symm⟩

theorem get?_blobCommitted {t : Table BlobRow.blobId} {id : Bytes} {b : BlobRow} (hb : t.get? id = some b) (expiry : Int) :
    (t.update (fun b => b.blobId = id) (fun b => { b with state := .committed, expiresAt := expiry }) fun _ => rfl).get? id =
      some { b with state := .committed, expiresAt := expiry } := by
  rw [Table.get?_update, hb, Option.map_some, if_pos (decide_eq_true (Table.get?_eq_some.1 hb).2)]

theorem mem_heldBlob {db : Db} {id : Bytes} {b : BlobRow} {f : BlobFile} (hb : db.blobs.get? id = some b) (hstate : b.state = .committed)
    (hf : db.files.get? id = some f) : (id, f.content) ∈ heldBlob db id := by
  rw [heldBlob, hb, hf, Option.filter_some, if_pos (decide_eq_true hstate)]
  exact List.mem_singleton.2 rfl

/-- A relay that answers that a blob is committed holds what has the hash it was given. -/
theorem commit_holds {s : RelayServer.Session} {blobId hash : Bytes} {requestedExpiry : UInt64} {now : Int} {db db' : Db} {o : Outcome}
    (h : (dispatch cx items s (.blobCommit blobId hash requestedExpiry) now).finish db = (o, db')) {expiry : Int}
    (ho : o.answer = .blobCommitted expiry) : ∃ content, (blobId, content) ∈ heldBlob db' blobId ∧ cx.sha256 content = hash := by
  have hsuccess : o.answer.success = true := by rw [ho]; rfl
  unfold dispatch at h
  split at h
  · obtain ⟨rfl, -⟩ := Prod.mk.inj h
    cases ho
  · change (blobCommit cx s blobId hash requestedExpiry now).finish db = (o, db') at h
    unfold blobCommit whenMember at h
    split at h
    · obtain ⟨rfl, -⟩ := Prod.mk.inj h
      cases ho
    · next d hd =>
      obtain ⟨b, db₁, hrow, h₁⟩ := finish_blobCall_success h hsuccess
      obtain ⟨hb, rfl⟩ := require_eq_ok.1 hrow
      obtain ⟨hb, -⟩ := Option.filter_eq_some_iff.1 hb
      split at h₁
      · exact absurd hsuccess (by rw [blobError_fails h₁]; exact Bool.false_ne_true)
      · split at h₁
        · exact absurd hsuccess (by rw [blobError_fails h₁]; exact Bool.false_ne_true)
        · obtain ⟨content, db₂, hread, h₂⟩ := finish_blobCall_success h₁ hsuccess
          obtain ⟨f, hf, rfl, rfl⟩ := stagingRead_ok hread
          split at h₂
          · exact absurd hsuccess (by rw [blobError_fails h₂]; exact Bool.false_ne_true)
          · next hhash =>
            obtain ⟨u, db₃, hrename, h₃⟩ := finish_blobCall_success h₂ hsuccess
            obtain ⟨f', hf', rfl⟩ := stagingRename_ok hrename
            obtain rfl := Option.some.inj (hf.symm.trans hf')
            obtain ⟨u', db₄, hcommit, h₄⟩ := finish_blobCall_success h₃ hsuccess
            obtain rfl := (Prod.mk.inj hcommit).2
            obtain ⟨-, rfl⟩ := Prod.mk.inj h₄
            refine ⟨f.content, ?_, not_not.1 hhash⟩
            refine mem_heldBlob (get?_blobCommitted hb _) rfl ?_
            exact Table.get?_eq_some.2 ⟨Table.mem_replace.2 (Or.inr rfl), (Table.get?_eq_some.1 hf).2⟩

end relay

end Arveil.Transfers

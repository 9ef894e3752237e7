import Arveil.Proofs.Transfers.Uploads

/-! A download stores its chunks without a gap, and is ready only where the file opens. With it
every resumption keeps what holds, whichever way the transfer goes. -/

namespace Arveil.Transfers

open Archive (maxFileBytes maxAttachmentBytes descriptor)

variable {pf : Platform} {encodeFile : FileDescriptor → Bytes} {cx : Crypto}
variable {s s' : State} {id : Bytes}

/-- While the transfer goes on, its row is the download it began with, and these bytes are stored. -/
def Has (id desc bytes : Bytes) (s : State) : Prop :=
  ∀ r ∈ s.transfers, r.eventId = id → r.state = .transferring → r.outgoing = false ∧ r.descriptor = desc ∧ Stored s id bytes

theorem Has.env {desc bytes : Bytes} (h : Has id desc bytes s) (hs : Env s s') : Has id desc bytes s' := by
  intro r hr hid hstate
  obtain ⟨hr₀, hchunks⟩ := hs.rows r hr hstate
  obtain ⟨hin, hdesc, hstored⟩ := h r hr₀ hid hstate
  exact ⟨hin, hdesc, hstored.congr (hid ▸ hchunks)⟩

section download

variable {a : Resume} {d : FileDescriptor} {desc bytes : Bytes}

theorem inv_state_active (h : Inv pf cx s) (hactive : isActive s id = true) {state : TransferState} (hstate : state ≠ .ready) :
    Inv pf cx (attachmentState id state s).2 := by
  refine h.update fun r hr hid => ?_
  have htransferring := transferring_of_active hactive hr hid
  have hrow := h.rows r hr
  refine hrow.setState ?_ (fun _ => ?_) fun hin => (hrow.download hin).setState hstate
  · rw [htransferring]
    nofun
  · rw [htransferring]
    nofun

def takeChunk (id bytes data : Bytes) : Local Unit := Prog.unitOfWork do
  attachmentChunk id bytes.length data
  attachmentOffset id (bytes.length + data.length)

theorem takeChunk_inv (h : Inv pf cx s) (hactive : isActive s id = true) (hhas : Has id desc bytes s) {data : Bytes} (hdata : data ≠ [])
    (hfits : data.length ≤ maxFileBytes - bytes.length) :
    ∃ s', takeChunk id bytes data s = (.ok (), s') ∧ Inv pf cx s' ∧ isActive s' id = true ∧ Has id desc (bytes ++ data) s' := by
  obtain ⟨r, hr, hid, hstate⟩ := isActive_iff.1 hactive
  obtain ⟨hin, hdesc, hstored⟩ := hhas r hr hid hstate
  obtain ⟨t, ht, hstored'⟩ := hstored.chunk hdata hfits
  have hlength : (bytes ++ data).length = bytes.length + data.length := List.length_append
  let s₁ : State := { s with chunks := t }
  let s₂ : State := updateTransfer id (fun r => { r with offset := UInt64.ofNat (bytes.length + data.length) }) (fun _ => rfl) s₁
  have hothers : ∀ k, k ≠ id → chunksOf s₁ k = chunksOf s k := fun k hk => chunksOf_insert_ne ht hk.symm
  have hkeys : ∀ k, (∃ r ∈ s.transfers, r.eventId = k) → ∃ r ∈ s₂.transfers, r.eventId = k := by
    intro k hk
    dsimp only [s₂, s₁, updateTransfer]
    exact Table.exists_key_update.2 hk
  have hshape : ∀ r' ∈ s₂.transfers, r'.eventId = id → r' = { r with offset := UInt64.ofNat (bytes.length + data.length) } := by
    intro r' hr' hid'
    obtain ⟨r₀, hr₀, hid₀, rfl⟩ := mem_updateTransfer hr' hid'
    rw [Table.eq_of_key hr₀ hr (hid₀.trans hid.symm)]
  have hrun : takeChunk id bytes data s = (.ok (), s₂) := by
    unfold takeChunk
    refine Prog.unitOfWork_eq_ok.2 (Prog.bind_eq_ok.2 ⟨(), s₁, ?_, rfl⟩)
    rw [attachmentChunk, ht]
  refine ⟨s₂, hrun, ⟨h.once, fun e he => hkeys _ (h.known e he), h.committed, ?_, ?_⟩, ?_, ?_⟩
  · intro c hc
    rcases (Table.mem_insert ht).1 hc with hc | rfl
    · exact hkeys _ (h.owned c hc)
    · exact hkeys id ⟨r, hr, hid⟩
  · intro r' hr'
    by_cases hid' : r'.eventId = id
    · have hrow := h.rows r hr
      obtain ⟨d, bytes', hd, hsize, -, -, -⟩ := hrow.download hin
      rw [hshape r' hr' hid']
      refine ⟨hrow.queued, hrow.cancelled, hrow.committed, fun _ => ⟨d, bytes ++ data, hd, hsize, hid ▸ hstored'.congr rfl, ?_, ?_⟩⟩
      · have hmax := hstored'.length_le
        rw [hlength] at hmax
        rw [hlength]
        exact (toNat_ofNat_offset hmax).symm
      · intro hready
        have hready' : r.state = .ready := hready
        rw [hstate] at hready'
        cases hready'
    · have hapart : Apart id s₁ s₂ := apart_update
      exact (h.rows r' (hapart.rows r' hr' hid')).congr (fun e he _ => he) (fun p hp => hp) (hothers _ hid')
  · have hactive₁ : isActive s₁ id = true := hactive
    exact isActive_update (fun _ => rfl) hactive₁
  · intro r' hr' hid' _
    rw [hshape r' hr' hid']
    exact ⟨hin, hdesc, hstored'.congr rfl⟩

/-- The outcome of the fetching: the bytes are those that are stored. -/
def FetchedAll (pf : Platform) (cx : Crypto) (id desc : Bytes) (r : Except CliError (Option Bytes)) (s : State) : Prop :=
  Inv pf cx s ∧ ∀ bytes, r = .ok (some bytes) → isActive s id = true ∧ Has id desc bytes s

theorem fetchChunks_goes (hd : d.size.toNat ≤ maxAttachmentBytes) (fuel : Nat) : ∀ {bytes : Bytes} {s : State}, Inv pf cx s → isActive s a.id = true →
    Has a.id desc bytes s → Goes pf cx (fetchChunks a d fuel bytes) (FetchedAll pf cx a.id desc) s := by
  have htotal : total d ≤ maxFileBytes := by
    unfold total
    have hmax : maxAttachmentBytes = maxFileBytes - 16 := rfl
    have hsixteen : 16 ≤ maxFileBytes := by decide
    omega
  induction fuel with
  | zero =>
    intro bytes s h hactive hhas
    refine ⟨h, fun b hb => ?_⟩
    obtain rfl := Option.some.inj (Except.ok.inj hb)
    exact ⟨hactive, hhas⟩
  | succ fuel ih =>
    intro bytes s h hactive hhas
    have hstop : ∀ {s : State} {r : Except CliError (Option Bytes)}, Inv pf cx s → (∀ b, r ≠ .ok (some b)) → FetchedAll pf cx a.id desc r s :=
      fun h hr => ⟨h, fun b hb => absurd hb (hr b)⟩
    rw [fetchChunks]
    split
    · refine ⟨h, fun b hb => ?_⟩
      obtain rfl := Option.some.inj (Except.ok.inj hb)
      exact ⟨hactive, hhas⟩
    · refine Dialog.safe_question_bind fun s₁ hs₁ r _ => ?_
      have h₁ := hs₁.2 h
      have hhas₁ := hhas.env hs₁.1
      refine goes_whileActive h₁ (fun hactive₁ => ?_) (hstop h₁ nofun)
      split
      · next data _ =>
        split
        · have hinvalid : Inv pf cx (attachmentState a.id .invalid s₁).2 := inv_state_active h₁ hactive₁ nofun
          exact ⟨fun _ => hinvalid, hstop hinvalid nofun⟩
        · next hgood =>
          rw [not_or, not_or, not_or] at hgood
          obtain ⟨-, hempty, -, hfits⟩ := hgood
          have hdata : data ≠ [] := fun hnil => hempty (by rw [hnil]; rfl)
          obtain ⟨s₂, hrun, h₂, hactive₂, hhas₂⟩ := takeChunk_inv h₁ hactive₁ hhas₁ hdata (by omega)
          refine Dialog.safe_call_bind (p := takeChunk a.id bytes data) (fun _ => ?_) (fun e s' hrun' => ?_) fun u s' hrun' => ?_
          · rw [hrun]
            exact h₂
          · cases hrun.symm.trans hrun'
          · obtain rfl := (Prod.mk.inj (hrun.symm.trans hrun')).2
            exact ih h₂ hactive₂ hhas₂
      · exact hstop h₁ nofun
      · split
        · have hexpired : Inv pf cx (attachmentState a.id .expired s₁).2 := inv_state_active h₁ hactive₁ nofun
          exact ⟨fun _ => hexpired, hstop hexpired nofun⟩
        · split
          · have hunavailable : Inv pf cx (attachmentState a.id .unavailable s₁).2 := inv_state_active h₁ hactive₁ nofun
            exact ⟨fun _ => hunavailable, hstop hunavailable nofun⟩
          · exact hstop h₁ nofun

theorem Stored.unique {bytes' : Bytes} (h : Stored s id bytes) (h' : Stored s id bytes') : bytes = bytes' := Except.ok.inj (h.1.symm.trans h'.1)

theorem finishDownload_goes (h : Inv pf cx s) (hactive : isActive s a.id = true) (hhas : Has a.id desc bytes s) (hdesc : descriptor pf desc true = .ok d) :
    Goes pf cx (finishDownload pf a d bytes) (fun _ s => Inv pf cx s) s := by
  unfold finishDownload
  split
  · next e _ =>
    have hready : TransferState.invalid ≠ .ready := nofun
    have hrow : ∀ r ∈ s.transfers, r.eventId = a.id →
        r.state ≠ .sent ∧ (r.outgoing = true → r.state = .cancelled → TransferState.invalid = .cancelled) := by
      intro r hr hid
      rw [transferring_of_active hactive hr hid]
      exact ⟨nofun, fun _ hc => by cases hc⟩
    have hcleared := (inv_clear h hready hrow).1
    exact ⟨fun _ => hcleared, hcleared⟩
  · next plain hplain =>
    have hready : Inv pf cx (attachmentState a.id .ready s).2 := by
      refine h.update fun r hr hid => ?_
      have htransferring := transferring_of_active hactive hr hid
      have hrow := h.rows r hr
      refine hrow.setState ?_ (fun _ => ?_) fun hin => ?_
      · rw [htransferring]
        nofun
      · rw [htransferring]
        nofun
      · obtain ⟨-, hrdesc, hstored⟩ := hhas r hr hid htransferring
        obtain ⟨d', bytes', hd', hsize, hstored', hlength, -⟩ := hrow.download hin
        rw [hrdesc, hdesc] at hd'
        obtain rfl := Except.ok.inj hd'
        obtain rfl := hstored.unique (hid ▸ hstored')
        exact ⟨d, bytes, hrdesc ▸ hdesc, hsize, hstored', hlength, fun _ => ⟨plain, hplain⟩⟩
    refine Dialog.safe_call_bind (fun _ => hready) (fun e s₁ hrun => by cases hrun) fun u s₁ hrun => ?_
    obtain rfl := (Prod.mk.inj hrun).2
    exact fun s₂ hs₂ _ _ => hs₂.2 hready

theorem download_goes {row : TransferRow} (h : Inv pf cx s)
    (hin : ∀ r ∈ s.transfers, r.eventId = a.id → r.state = .transferring → r.outgoing = false ∧ r.descriptor = row.descriptor) :
    Goes pf cx (download pf a row) (fun _ s => Inv pf cx s) s := by
  refine goes_lift (fun e _ => h) fun d hd => ?_
  refine Dialog.safe_call_bind (fun _ => h) (fun e s₁ hrun => ?_) fun bytes s₁ hrun => ?_
  · obtain rfl := (Prod.mk.inj hrun).2
    exact h
  obtain ⟨hbytes, rfl⟩ := Prod.mk.inj hrun
  have hhas : Has a.id row.descriptor bytes s := by
    intro r hr hid hstate
    obtain ⟨hout, hdesc⟩ := hin r hr hid hstate
    obtain ⟨d', bytes', -, -, hstored, -, -⟩ := (h.rows r hr).download hout
    rw [hid] at hstored
    obtain rfl := Except.ok.inj (hbytes.symm.trans hstored.1)
    exact ⟨hout, hdesc, hstored⟩
  split
  · exact h
  · refine goes_lift (fun e _ => h) fun u _ => ?_
    refine goes_request (fun s' e hs => hs.2 h) fun s₁ _ hs₁ _ => ?_
    have h₁ := hs₁.2 h
    have hfetched : Goes pf cx (whileActive a.id (fetchChunks a d (total d - bytes.length) bytes)) (FetchedAll pf cx a.id row.descriptor) s₁ :=
      goes_whileActive h₁ (fun hactive => fetchChunks_goes (descriptor_ok hd).2 _ h₁ hactive (hhas.env hs₁.1))
        ⟨h₁, fun b hb => by cases hb⟩
    refine Dialog.safe_bind (Dialog.safe_mono (fun r s₂ h₂ => ?_) hfetched)
    match r with
    | .error e => exact h₂.1
    | .ok none => exact h₂.1
    | .ok (some b) =>
      obtain ⟨hactive, hhas₂⟩ := h₂.2 b rfl
      exact finishDownload_goes h₂.1 hactive hhas₂ hd

end download

theorem resume_goes (hcodec : ∀ d, pf.decodeFile (encodeFile d) = .ok d) (a : Resume) (h : Inv pf cx s) :
    Goes pf cx (resume pf encodeFile a) (fun _ s => Inv pf cx s) s := by
  obtain ⟨hensured, -⟩ := ensureRow_inv h a.group a.id
  refine Dialog.safe_call_bind (fun _ => hensured) (fun e s₁ hrun => ?_) fun row s₁ hrun => ?_
  · rw [hrun] at hensured
    exact hensured
  rw [hrun] at hensured
  obtain ⟨hmem, hid, -⟩ := ensureRow_mem hrun
  split
  · exact hensured
  · next hopen =>
    split
    · exact hensured
    · next hresumable =>
      rw [not_or] at hopen hresumable
      have hrow : ∀ r ∈ s₁.transfers, r.eventId = a.id → r = row := fun r hr hr' => Table.eq_of_key hr hmem (hr'.trans hid.symm)
      have hbegun : Inv pf cx (attachmentState a.id .transferring s₁).2 := by
        refine hensured.update fun r hr hr' => ?_
        rw [hrow r hr hr']
        have h₁ := hensured.rows row hmem
        exact h₁.setState hopen.1 (fun hout hc => hresumable.2 ⟨hout, hc⟩) fun hin => (h₁.download hin).setState nofun
      have hrow' : ∀ r ∈ (attachmentState a.id .transferring s₁).2.transfers, r.eventId = a.id → r = { row with state := .transferring } := by
        intro r hr hr'
        replace hr : r ∈ (updateTransfer a.id (fun r => { r with state := .transferring }) (fun _ => rfl) s₁).transfers := hr
        obtain ⟨r₀, hr₀, hid₀, rfl⟩ := mem_updateTransfer hr hr'
        rw [hrow r₀ hr₀ hid₀]
      refine Dialog.safe_call_bind (fun _ => hbegun) (fun e s₂ hrun => by cases hrun) fun u s₂ hrun => ?_
      obtain rfl := (Prod.mk.inj hrun).2
      have htransfer : Goes pf cx (if row.outgoing = true then upload pf encodeFile a row else download pf a row) (fun _ s => Inv pf cx s)
          (attachmentState a.id .transferring s₁).2 := by
        split
        · next hout =>
          refine upload_goes hcodec ⟨hbegun, fun r hr hr' _ => ?_⟩ (fun ho hc d hd => ?_) hout
          · rw [hrow' r hr hr']
            exact hout
          · exact ((hensured.rows row hmem).committed ho hc d hd).mono fun p hp => hp
        · next hout =>
          refine download_goes hbegun fun r hr hr' _ => ?_
          rw [hrow' r hr hr']
          exact ⟨Bool.eq_false_of_not_eq_true hout, rfl⟩
      refine Dialog.safe_bind (Dialog.safe_attempt (Dialog.safe_mono (fun r s₃ h₃ => ?_) htransfer))
      cases r with
      | ok u => exact h₃
      | error e =>
        refine goes_active h₃ ?_
        cases hactive : isActive s₃ a.id with
        | false => exact h₃
        | true =>
          have hpending : Inv pf cx (attachmentState a.id .pending s₃).2 := inv_state_active h₃ hactive nofun
          exact ⟨fun _ => hpending, hpending⟩

end Arveil.Transfers

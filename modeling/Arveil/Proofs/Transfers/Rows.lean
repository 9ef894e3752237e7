import Arveil.Proofs.Transfers.Chunks

/-! `Inv` is what holds of the transfer rows and what was done on their behalf. Whatever the person
does while a transfer waits keeps it, and leaves the rows of a transfer that goes on alone. -/

namespace Arveil.Transfers

open Archive (maxFileBytes maxAttachmentBytes descriptor joinChunks verifiedPlaintext)

variable {pf : Platform} {encodeFile : FileDescriptor → Bytes} {cx : Crypto}

/-- What the row of a download says is what is stored. -/
def Download (pf : Platform) (s : State) (r : TransferRow) : Prop :=
  ∃ d bytes, descriptor pf r.descriptor true = .ok d ∧ r.size = d.size ∧ Stored s r.eventId bytes ∧ bytes.length = r.offset.toNat ∧
    (r.state = .ready → ∃ plain, verifiedPlaintext pf d bytes = .ok plain)

structure RowInv (pf : Platform) (cx : Crypto) (s : State) (r : TransferRow) : Prop where
  queued : ∀ d, .queued r.eventId d ∈ s.deeds → r.state = .sent
  cancelled : r.outgoing = true → .cancelled r.eventId ∈ s.deeds → r.state = .cancelled
  committed : r.outgoing = true → r.committed = true → ∀ d, descriptor pf r.descriptor false = .ok d → Committed cx s d
  download : r.outgoing = false → Download pf s r

structure Inv (pf : Platform) (cx : Crypto) (s : State) : Prop where
  once : QueuedOnce s
  known : ∀ e ∈ s.deeds, ∃ r ∈ s.transfers, r.eventId = e.id
  committed : QueuedCommitted cx s
  owned : ∀ c ∈ s.chunks, ∃ r ∈ s.transfers, r.eventId = c.eventId
  rows : ∀ r ∈ s.transfers, RowInv pf cx s r

section rows

variable {s s' : State} {r : TransferRow} {id : Bytes}

theorem Committed.mono {d : FileDescriptor} (h : Committed cx s d) (hheld : ∀ p ∈ s.held, p ∈ s'.held) : Committed cx s' d := by
  obtain ⟨content, hmem, hhash⟩ := h
  exact ⟨content, hheld _ hmem, hhash⟩

theorem Download.congr (h : Download pf s r) (hchunks : chunksOf s' r.eventId = chunksOf s r.eventId) : Download pf s' r := by
  obtain ⟨d, bytes, hd, hsize, hstored, hlength, hready⟩ := h
  exact ⟨d, bytes, hd, hsize, hstored.congr hchunks, hlength, hready⟩

theorem RowInv.congr (h : RowInv pf cx s r) (hdeeds : ∀ e ∈ s'.deeds, e.id = r.eventId → e ∈ s.deeds) (hheld : ∀ p ∈ s.held, p ∈ s'.held)
    (hchunks : chunksOf s' r.eventId = chunksOf s r.eventId) : RowInv pf cx s' r where
  queued d hd := h.queued d (hdeeds _ hd rfl)
  cancelled hout hc := h.cancelled hout (hdeeds _ hc rfl)
  committed hout hc d hd := (h.committed hout hc d hd).mono hheld
  download hin := (h.download hin).congr hchunks

theorem Inv.congr (h : Inv pf cx s) (ht : s'.transfers = s.transfers) (hc : s'.chunks = s.chunks) (hd : s'.deeds = s.deeds)
    (hheld : ∀ p ∈ s.held, p ∈ s'.held) : Inv pf cx s' := by
  refine ⟨?_, ?_, ?_, ?_, ?_⟩
  · rw [QueuedOnce, hd]
    exact h.once
  · rw [hd, ht]
    exact h.known
  · intro id d hmem
    rw [hd] at hmem
    exact (h.committed id d hmem).mono hheld
  · rw [hc, ht]
    exact h.owned
  · intro r hr
    rw [ht] at hr
    refine (h.rows r hr).congr (fun e he _ => hd ▸ he) hheld ?_
    rw [chunksOf, hc, chunksOf]

theorem Inv.update (h : Inv pf cx s) {f : TransferRow → TransferRow} {hf : ∀ r, (f r).eventId = r.eventId}
    (hrow : ∀ r ∈ s.transfers, r.eventId = id → RowInv pf cx s (f r)) : Inv pf cx (updateTransfer id f hf s) := by
  refine ⟨h.once, ?_, h.committed, ?_, ?_⟩
  · intro e he
    dsimp only [updateTransfer]
    exact Table.exists_key_update.2 (h.known e he)
  · intro c hc
    dsimp only [updateTransfer]
    exact Table.exists_key_update.2 (h.owned c hc)
  · intro r hr
    dsimp only [updateTransfer] at hr
    have hsame : RowInv pf cx s r := by
      rcases Table.of_mem_update hr with ⟨hr, -⟩ | ⟨r₀, hr₀, hid, rfl⟩
      · exact h.rows r hr
      · exact hrow r₀ hr₀ (of_decide_eq_true hid)
    exact hsame.congr (fun e he _ => he) (fun p hp => hp) rfl

theorem Download.setState (h : Download pf s r) {state : TransferState} (hstate : state ≠ .ready) : Download pf s { r with state := state } := by
  obtain ⟨d, bytes, hd, hsize, hstored, hlength, -⟩ := h
  exact ⟨d, bytes, hd, hsize, hstored, hlength, fun heq => absurd heq hstate⟩

theorem RowInv.setState (h : RowInv pf cx s r) (hsent : r.state ≠ .sent) (hcancelled : r.outgoing = true → r.state ≠ .cancelled)
    {state : TransferState} (hdownload : r.outgoing = false → Download pf s { r with state := state }) :
    RowInv pf cx s { r with state := state } where
  queued d hd := absurd (h.queued d hd) hsent
  cancelled hout hc := absurd (h.cancelled hout hc) (hcancelled hout)
  committed := h.committed
  download := hdownload

theorem isActive_iff : isActive s id = true ↔ ∃ r ∈ s.transfers, r.eventId = id ∧ r.state = .transferring := by
  rw [isActive, Option.any_eq_true]
  constructor
  · rintro ⟨r, hr, hstate⟩
    obtain ⟨hmem, hid⟩ := Table.get?_eq_some.1 hr
    exact ⟨r, hmem, hid, of_decide_eq_true hstate⟩
  · rintro ⟨r, hr, hid, hstate⟩
    exact ⟨r, Table.get?_eq_some.2 ⟨hr, hid⟩, decide_eq_true hstate⟩

theorem transferring_of_active (h : isActive s id = true) (hr : r ∈ s.transfers) (hid : r.eventId = id) : r.state = .transferring := by
  obtain ⟨r', hr', hid', hstate⟩ := isActive_iff.1 h
  rw [Table.eq_of_key hr hr' (hid.trans hid'.symm)]
  exact hstate

end rows

section meanwhile

variable {s s' s₁ s₂ : State} {r : TransferRow} {id : Bytes}

/-- What nobody changes while a transfer waits: rows that say `transferring`, and their chunks. -/
structure Env (s s' : State) : Prop where
  rows : ∀ r ∈ s'.transfers, r.state = .transferring → r ∈ s.transfers ∧ chunksOf s' r.eventId = chunksOf s r.eventId
  held : ∀ p ∈ s.held, p ∈ s'.held

theorem Env.refl (s : State) : Env s s := ⟨fun _ hr _ => ⟨hr, rfl⟩, fun _ hp => hp⟩

theorem Env.trans (h₁ : Env s s₁) (h₂ : Env s₁ s₂) : Env s s₂ where
  rows r hr hstate := by
    obtain ⟨hr₁, hchunks₁⟩ := h₂.rows r hr hstate
    obtain ⟨hr₀, hchunks₀⟩ := h₁.rows r hr₁ hstate
    exact ⟨hr₀, hchunks₁.trans hchunks₀⟩
  held p hp := h₂.held p (h₁.held p hp)

/-- Only what belongs to one attachment differs. -/
structure Apart (id : Bytes) (s s' : State) : Prop where
  rows : ∀ r ∈ s'.transfers, r.eventId ≠ id → r ∈ s.transfers
  chunks : ∀ k, k ≠ id → chunksOf s' k = chunksOf s k
  held : s'.held = s.held

theorem Apart.refl (s : State) : Apart id s s := ⟨fun _ hr _ => hr, fun _ _ => rfl, rfl⟩

theorem Apart.trans (h₁ : Apart id s s₁) (h₂ : Apart id s₁ s₂) : Apart id s s₂ where
  rows r hr hne := h₁.rows r (h₂.rows r hr hne) hne
  chunks k hk := (h₂.chunks k hk).trans (h₁.chunks k hk)
  held := h₂.held.trans h₁.held

theorem Apart.env (h : Apart id s s') (hrow : ∀ r ∈ s'.transfers, r.eventId = id → r.state ≠ .transferring) : Env s s' where
  rows r hr hstate := by
    have hne : r.eventId ≠ id := fun hid => hrow r hr hid hstate
    exact ⟨h.rows r hr hne, h.chunks _ hne⟩
  held p hp := by
    rw [h.held]
    exact hp

theorem apart_update {f : TransferRow → TransferRow} {hf : ∀ r, (f r).eventId = r.eventId} : Apart id s (updateTransfer id f hf s) where
  rows r hr hne := by
    dsimp only [updateTransfer] at hr
    rcases Table.of_mem_update hr with ⟨hr, -⟩ | ⟨r₀, -, hid, rfl⟩
    · exact hr
    · exact absurd ((hf r₀).trans (of_decide_eq_true hid)) hne
  chunks _ _ := rfl
  held := rfl

theorem mem_updateTransfer {f : TransferRow → TransferRow} {hf : ∀ r, (f r).eventId = r.eventId} (hr : r ∈ (updateTransfer id f hf s).transfers)
    (hid : r.eventId = id) : ∃ r₀ ∈ s.transfers, r₀.eventId = id ∧ r = f r₀ := by
  dsimp only [updateTransfer] at hr
  rcases Table.of_mem_update hr with ⟨-, hne⟩ | ⟨r₀, hr₀, hid₀, heq⟩
  · exact absurd hid (of_decide_eq_false hne)
  · exact ⟨r₀, hr₀, of_decide_eq_true hid₀, heq⟩

theorem inv_create (h : Inv pf cx s) {row : TransferRow} {t : Table fun r : TransferRow => r.eventId} (ht : s.transfers.insert row = some t)
    (hcommitted : row.committed = false) (hoffset : row.offset = 0) (hstate : row.state ≠ .ready)
    (hdescriptor : row.outgoing = false → ∃ d, descriptor pf row.descriptor true = .ok d ∧ row.size = d.size) :
    Inv pf cx { s with transfers := t } ∧ Apart row.eventId s { s with transfers := t } := by
  have hfree := (Table.insert_eq_some ht).2
  have hdeeds : ∀ e ∈ s.deeds, e.id ≠ row.eventId := by
    intro e he hid
    obtain ⟨r, hr, hkey⟩ := h.known e he
    exact hfree r hr (hkey.trans hid)
  have hchunks : chunksOf s row.eventId = [] := by
    refine List.eq_nil_iff_forall_not_mem.2 fun c hc => ?_
    obtain ⟨hc, hid⟩ := mem_chunksOf.1 hc
    obtain ⟨r, hr, hkey⟩ := h.owned c hc
    exact hfree r hr (hkey.trans hid)
  refine ⟨⟨h.once, ?_, h.committed, ?_, ?_⟩, ⟨?_, fun _ _ => rfl, rfl⟩⟩
  · intro e he
    obtain ⟨r, hr, hid⟩ := h.known e he
    exact ⟨r, (Table.mem_insert ht).2 (Or.inl hr), hid⟩
  · intro c hc
    obtain ⟨r, hr, hid⟩ := h.owned c hc
    exact ⟨r, (Table.mem_insert ht).2 (Or.inl hr), hid⟩
  · intro r hr
    rcases (Table.mem_insert ht).1 hr with hr | rfl
    · exact (h.rows r hr).congr (fun e he _ => he) (fun p hp => hp) rfl
    · refine ⟨fun d hd => absurd rfl (hdeeds _ hd), fun _ hc => absurd rfl (hdeeds _ hc), fun _ hc => ?_, fun hin => ?_⟩
      · rw [hcommitted] at hc
        cases hc
      · obtain ⟨d, hd, hsize⟩ := hdescriptor hin
        refine ⟨d, [], hd, hsize, ⟨?_, ?_⟩, ?_, fun hready => absurd hready hstate⟩
        · change joinChunks maxFileBytes [] (chunksOf s r.eventId) = .ok []
          rw [hchunks]
          rfl
        · change ∀ c ∈ chunksOf s r.eventId, c.data ≠ []
          rw [hchunks]
          exact fun c hc => absurd hc List.not_mem_nil
        · rw [hoffset]
          rfl
  · intro r hr hne
    rcases (Table.mem_insert ht).1 hr with hr | rfl
    · exact hr
    · exact absurd rfl hne

theorem ensureRow_cases (pf : Platform) (group id : Bytes) (s : State) :
    (∃ e, ensureRow pf group id s = (.error e, s)) ∨
    (∃ row ∈ s.transfers, row.eventId = id ∧ ensureRow pf group id s = (.ok row, s)) ∨
    ∃ d body t, descriptor pf body true = .ok d ∧ s.transfers.insert (newRow id false d body) = some t ∧
      ensureRow pf group id s = (.ok (newRow id false d body), { s with transfers := t }) := by
  rcases hevent : checkedEvent group id s with e | ev
  · exact Or.inl ⟨e, by simp [ensureRow, Prog.bind_run, check, hevent]⟩
  rcases hrow : s.transfers.get? id with _ | row
  · by_cases hkind : ev.kind ≠ .filePending
    · exact Or.inl ⟨_, by simp [ensureRow, Prog.bind_run, check, hevent, hrow, Prog.when_pos hkind]; rfl⟩
    rcases hd : descriptor pf ev.body true with e | d
    · exact Or.inl ⟨e, by simp [ensureRow, Prog.bind_run, check, hevent, hrow, Prog.when_neg hkind, hd]⟩
    rcases ht : s.transfers.insert (newRow id false d ev.body) with _ | t
    · exact Or.inl ⟨_, by simp [ensureRow, Prog.bind_run, check, hevent, hrow, Prog.when_neg hkind, hd, attachmentCreate, ht]; rfl⟩
    · exact Or.inr (Or.inr ⟨d, ev.body, t, hd, ht, by
        simp [ensureRow, Prog.bind_run, check, hevent, hrow, Prog.when_neg hkind, hd, attachmentCreate, ht]⟩)
  · obtain ⟨hmem, hid⟩ := Table.get?_eq_some.1 hrow
    exact Or.inr (Or.inl ⟨row, hmem, hid, by simp [ensureRow, Prog.bind_run, check, hevent, hrow]⟩)

theorem ensureRow_inv (h : Inv pf cx s) (group id : Bytes) : Inv pf cx (ensureRow pf group id s).2 ∧ Apart id s (ensureRow pf group id s).2 := by
  rcases ensureRow_cases pf group id s with ⟨e, hrun⟩ | ⟨row, -, -, hrun⟩ | ⟨d, body, t, hd, ht, hrun⟩
  · rw [hrun]
    exact ⟨h, .refl s⟩
  · rw [hrun]
    exact ⟨h, .refl s⟩
  · rw [hrun]
    exact inv_create h ht rfl rfl nofun fun _ => ⟨d, hd, rfl⟩

theorem ensureRow_mem {group : Bytes} {row : TransferRow} (hrun : ensureRow pf group id s = (.ok row, s')) :
    row ∈ s'.transfers ∧ row.eventId = id ∧ s'.deeds = s.deeds := by
  rcases ensureRow_cases pf group id s with ⟨e, hrun'⟩ | ⟨row', hmem, hid, hrun'⟩ | ⟨d, body, t, -, ht, hrun'⟩
  · cases hrun.symm.trans hrun'
  · obtain ⟨hrow, rfl⟩ := Prod.mk.inj (hrun.symm.trans hrun')
    obtain rfl := Except.ok.inj hrow
    exact ⟨hmem, hid, rfl⟩
  · obtain ⟨hrow, rfl⟩ := Prod.mk.inj (hrun.symm.trans hrun')
    obtain rfl := Except.ok.inj hrow
    exact ⟨(Table.mem_insert ht).2 (Or.inr rfl), rfl, rfl⟩

theorem chunksOf_delete (s : State) (id : Bytes) :
    chunksOf { s with chunks := s.chunks.delete fun c => c.eventId = id } id = [] ∧
      ∀ k, k ≠ id → chunksOf { s with chunks := s.chunks.delete fun c => c.eventId = id } k = chunksOf s k := by
  constructor
  · refine List.eq_nil_iff_forall_not_mem.2 fun c hc => ?_
    obtain ⟨hc, hid⟩ := mem_chunksOf.1 hc
    exact of_decide_eq_false (Table.mem_delete.1 hc).2 hid
  · intro k hk
    unfold chunksOf
    congr 1
    change (s.chunks.rows.filter _).filter _ = _
    rw [List.filter_filter]
    refine List.filter_congr fun c _ => ?_
    by_cases hc : c.eventId = k
    · simp [hc, hk]
    · simp [hc]

theorem inv_clear (h : Inv pf cx s) {state : TransferState} (hstate : state ≠ .ready)
    (hrow : ∀ r ∈ s.transfers, r.eventId = id → r.state ≠ .sent ∧ (r.outgoing = true → r.state = .cancelled → state = .cancelled)) :
    Inv pf cx (attachmentState id state (attachmentClearBytes id s).2).2 ∧ Apart id s (attachmentState id state (attachmentClearBytes id s).2).2 ∧
      (∀ r ∈ (attachmentState id state (attachmentClearBytes id s).2).2.transfers, r.eventId = id → r.state = state) ∧
      ∀ k, (∃ r ∈ s.transfers, r.eventId = k) → ∃ r ∈ (attachmentState id state (attachmentClearBytes id s).2).2.transfers, r.eventId = k := by
  let s₁ : State := { s with chunks := s.chunks.delete fun c => c.eventId = id }
  let s₂ : State := updateTransfer id (fun r => { r with offset := UInt64.ofNat 0 }) (fun _ => rfl) s₁
  let s₃ : State := updateTransfer id (fun r => { r with state := state }) (fun _ => rfl) s₂
  change Inv pf cx s₃ ∧ Apart id s s₃ ∧ (∀ r ∈ s₃.transfers, r.eventId = id → r.state = state) ∧
    ∀ k, (∃ r ∈ s.transfers, r.eventId = k) → ∃ r ∈ s₃.transfers, r.eventId = k
  obtain ⟨hnone, hothers⟩ := chunksOf_delete s id
  have hdelete : Apart id s s₁ := ⟨fun r hr _ => hr, hothers, rfl⟩
  have hapart : Apart id s s₃ := (hdelete.trans apart_update).trans apart_update
  have hshape : ∀ r ∈ s₃.transfers, r.eventId = id →
      ∃ r₀ ∈ s.transfers, r₀.eventId = id ∧ r = { r₀ with offset := UInt64.ofNat 0, state := state } := by
    intro r hr hid
    obtain ⟨r₁, hr₁, hid₁, rfl⟩ := mem_updateTransfer hr hid
    obtain ⟨r₀, hr₀, hid₀, rfl⟩ := mem_updateTransfer hr₁ hid₁
    exact ⟨r₀, hr₀, hid₀, rfl⟩
  have hkeys : ∀ k, (∃ r ∈ s.transfers, r.eventId = k) → ∃ r ∈ s₃.transfers, r.eventId = k := by
    intro k hk
    dsimp only [s₃, s₂, s₁, updateTransfer]
    exact Table.exists_key_update.2 (Table.exists_key_update.2 hk)
  refine ⟨⟨h.once, fun e he => hkeys _ (h.known e he), h.committed, ?_, ?_⟩, hapart, ?_, hkeys⟩
  · intro c hc
    exact hkeys _ (h.owned c (Table.mem_delete.1 hc).1)
  · intro r hr
    by_cases hid : r.eventId = id
    · obtain ⟨r₀, hr₀, hid₀, rfl⟩ := hshape r hr hid
      obtain ⟨hsent, hcancelled⟩ := hrow r₀ hr₀ hid₀
      have h₀ := h.rows r₀ hr₀
      refine ⟨fun d hd => absurd (h₀.queued d hd) hsent, fun hout hc => hcancelled hout (h₀.cancelled hout hc), h₀.committed, fun hin => ?_⟩
      obtain ⟨d, bytes, hd, hsize, -, -, -⟩ := h₀.download hin
      refine ⟨d, [], hd, hsize, ⟨?_, ?_⟩, rfl, fun hready => absurd hready hstate⟩
      · change joinChunks maxFileBytes [] (chunksOf s₁ r₀.eventId) = .ok []
        rw [hid₀, hnone]
        rfl
      · change ∀ c ∈ chunksOf s₁ r₀.eventId, c.data ≠ []
        rw [hid₀, hnone]
        exact fun c hc => absurd hc List.not_mem_nil
    · exact (h.rows r (hapart.rows r hr hid)).congr (fun e he _ => he) (fun p hp => hp) (hapart.chunks _ hid)
  · intro r hr hid
    obtain ⟨r₀, -, -, rfl⟩ := hshape r hr hid
    rfl

theorem Inv.addCancelled (h : Inv pf cx s) (hr : r ∈ s.transfers) (hid : r.eventId = id)
    (hstate : ∀ r ∈ s.transfers, r.eventId = id → r.state = .cancelled) : Inv pf cx { s with deeds := .cancelled id :: s.deeds } := by
  refine ⟨?_, ?_, ?_, h.owned, ?_⟩
  · refine List.pairwise_cons.2 ⟨?_, h.once⟩
    intro e he id' d heq
    cases heq
  · intro e he
    rcases List.mem_cons.1 he with rfl | he
    · exact ⟨r, hr, hid⟩
    · exact h.known e he
  · intro id' d hd
    rcases List.mem_cons.1 hd with heq | hd
    · cases heq
    · exact h.committed id' d hd
  · intro r' hr'
    have h' := h.rows r' hr'
    refine ⟨fun d hd => ?_, fun hout hc => ?_, h'.committed, fun hin => (h'.download hin).congr rfl⟩
    · rcases List.mem_cons.1 hd with heq | hd
      · cases heq
      · exact h'.queued d hd
    · rcases List.mem_cons.1 hc with heq | hc
      · exact hstate r' hr' (Deed.cancelled.inj heq)
      · exact h'.cancelled hout hc

theorem cancel_inv (h : Inv pf cx s) (group id : Bytes) : Inv pf cx (cancel pf group id s).2 ∧ Env s (cancel pf group id s).2 := by
  rcases hrun : cancel pf group id s with ⟨e | u, s'⟩
  · rw [Prog.unitOfWork_error hrun]
    exact ⟨h, .refl s⟩
  · obtain ⟨row, s₁, hensure, hrest⟩ := Prog.bind_eq_ok.1 (Prog.unitOfWork_eq_ok.1 hrun)
    obtain ⟨hmem, hid, hdeeds⟩ := ensureRow_mem hensure
    obtain ⟨h₁, hapart₁⟩ := ensureRow_inv h group id
    rw [hensure] at h₁ hapart₁
    dsimp only at h₁ hapart₁
    obtain ⟨u₁, s₂, hwhen, hrest⟩ := Prog.bind_eq_ok.1 hrest
    rcases Prog.when_eq_ok.1 hwhen with ⟨-, hfail⟩ | ⟨hopen, rfl⟩
    · cases hfail
    rw [not_or] at hopen
    have hrow : ∀ r ∈ s₁.transfers, r.eventId = id → r = row := fun r hr hr' => Table.eq_of_key hr hmem (hr'.trans hid.symm)
    have hstates : ∀ r ∈ s₁.transfers, r.eventId = id →
        r.state ≠ .sent ∧ (r.outgoing = true → r.state = .cancelled → TransferState.cancelled = .cancelled) := by
      intro r hr hr'
      rw [hrow r hr hr']
      exact ⟨hopen.1, fun _ _ => rfl⟩
    have hready : TransferState.cancelled ≠ .ready := nofun
    obtain ⟨h₃, hapart₃, hcancelled, hkeys⟩ := inv_clear h₁ hready hstates
    obtain rfl : { (attachmentState id .cancelled (attachmentClearBytes id s₁).2).2 with
        deeds := .cancelled id :: (attachmentState id .cancelled (attachmentClearBytes id s₁).2).2.deeds } = s' := (Prod.mk.inj hrest).2
    obtain ⟨row₃, hrow₃, hid₃⟩ := hkeys id ⟨row, hmem, hid⟩
    refine ⟨h₃.addCancelled hrow₃ hid₃ hcancelled, Apart.env (?_ : Apart id _ _) fun r hr hr' hstate => ?_⟩
    · exact (hapart₁.trans hapart₃).trans ⟨fun r hr _ => hr, fun _ _ => rfl, rfl⟩
    · rw [hcancelled r hr hr'] at hstate
      cases hstate

theorem inv_outgoingChunk (h : Inv pf cx s) (hr : r ∈ s.transfers) (hout : r.outgoing = true)
    {t : Table fun c : ChunkRow => (c.eventId, c.offset)} {c : ChunkRow} (ht : s.chunks.insert c = some t) (hc : c.eventId = r.eventId) :
    Inv pf cx { s with chunks := t } ∧ Apart r.eventId s { s with chunks := t } := by
  have hothers : ∀ k, k ≠ r.eventId → chunksOf { s with chunks := t } k = chunksOf s k :=
    fun k hk => chunksOf_insert_ne ht fun heq => hk (heq.symm.trans hc)
  refine ⟨⟨h.once, h.known, h.committed, ?_, ?_⟩, fun r hr _ => hr, hothers, rfl⟩
  · intro c' hc'
    rcases (Table.mem_insert ht).1 hc' with hc' | rfl
    · exact h.owned c' hc'
    · exact ⟨r, hr, hc.symm⟩
  · intro r' hr'
    have h' := h.rows r' hr'
    by_cases hid : r'.eventId = r.eventId
    · obtain rfl := Table.eq_of_key hr' hr hid
      exact ⟨h'.queued, h'.cancelled, h'.committed, fun hin => by rw [hout] at hin; cases hin⟩
    · exact h'.congr (fun e he _ => he) (fun p hp => hp) (hothers _ hid)

theorem storeChunks_inv {chunks : List Bytes} : ∀ {index : Nat} {s s' : State}, Inv pf cx s → r ∈ s.transfers → r.outgoing = true →
    storeChunks r.eventId index chunks s = (.ok (), s') → Inv pf cx s' ∧ s'.transfers = s.transfers ∧ Apart r.eventId s s' := by
  induction chunks with
  | nil =>
    intro index s s' h hr hout hrun
    obtain rfl := (Prod.mk.inj hrun).2
    exact ⟨h, rfl, .refl s⟩
  | cons chunk rest ih =>
    intro index s s' h hr hout hrun
    obtain ⟨u, s₁, hchunk, hrest⟩ := Prog.bind_eq_ok.1 hrun
    unfold attachmentChunk at hchunk
    split at hchunk
    · cases hchunk
    · next t ht =>
      obtain rfl := (Prod.mk.inj hchunk).2
      obtain ⟨h₁, hapart⟩ := inv_outgoingChunk h hr hout ht rfl
      obtain ⟨h', htransfers, hapart'⟩ := ih h₁ hr hout hrest
      exact ⟨h', htransfers, hapart.trans hapart'⟩

theorem unitOfWork_ends {σ ε α : Type} {P : σ → Prop} {p : Prog σ ε α} {s : σ} (hs : P s) (hp : ∀ a s', p s = (.ok a, s') → P s') :
    P (Prog.unitOfWork p s).2 := by
  rcases hrun : Prog.unitOfWork p s with ⟨e | a, s'⟩
  · rw [Prog.unitOfWork_error hrun]
    exact hs
  · exact hp a s' (Prog.unitOfWork_eq_ok.1 hrun)

theorem queue_inv (h : Inv pf cx s) (f : NewFile) : Inv pf cx (queue encodeFile f s).2 ∧ Env s (queue encodeFile f s).2 := by
  have hsame : Inv pf cx s ∧ Env s s := ⟨h, .refl s⟩
  unfold queue
  by_cases hsize : maxAttachmentBytes < f.size
  · rw [Prog.when_pos hsize]
    exact hsame
  rw [Prog.when_neg hsize]
  cases hready : f.ready with
  | error e => exact hsame
  | ok u =>
    refine unitOfWork_ends (P := fun s' => Inv pf cx s' ∧ Env s s') hsame fun u s' hrun => ?_
    obtain ⟨u₁, s₁, hevent, hrest⟩ := Prog.bind_eq_ok.1 hrun
    obtain rfl := (Prod.mk.inj hevent).2
    obtain ⟨u₂, s₂, hcreate, hchunks⟩ := Prog.bind_eq_ok.1 hrest
    unfold attachmentCreate at hcreate
    split at hcreate
    · cases hcreate
    · next t ht =>
      obtain rfl := (Prod.mk.inj hcreate).2
      obtain ⟨h₁, hapart₁⟩ := inv_create h ht rfl rfl nofun fun hin => by cases hin
      have hmem : newRow f.id true f.descriptor (encodeFile f.descriptor) ∈ t := (Table.mem_insert ht).2 (Or.inr rfl)
      have h₂ : Inv pf cx { s with events := s.events.insertOrIgnore ⟨f.group, f.id, .fileOutgoing, [], none, none⟩, transfers := t } :=
        h₁.congr rfl rfl rfl fun p hp => hp
      obtain ⟨h₃, htransfers, hapart₃⟩ := storeChunks_inv h₂ hmem rfl hchunks
      have hapart : Apart f.id s s' := hapart₁.trans ⟨hapart₃.rows, hapart₃.chunks, hapart₃.held⟩
      refine ⟨h₃, hapart.env fun r hr hid hstate => ?_⟩
      rw [htransfers] at hr
      rw [Table.eq_of_key hr hmem hid] at hstate
      cases hstate

end meanwhile

end Arveil.Transfers

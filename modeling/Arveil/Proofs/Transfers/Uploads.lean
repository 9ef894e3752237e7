import Arveil.Proofs.Transfers.Rows

/-! A transfer asks after each wait whether it still goes on. An upload queues its descriptor once,
after the relay's commitment, and not after a cancellation. -/

namespace Arveil.Transfers

open Archive (maxAttachmentBytes descriptor)
open RelayServer (Answer)

variable {pf : Platform} {encodeFile : FileDescriptor → Bytes} {cx : Crypto}
variable {s s' : State} {id : Bytes} {α β : Type}

def Guar (pf : Platform) (cx : Crypto) (s s' : State) : Prop := Inv pf cx s → Inv pf cx s'

def Rely (pf : Platform) (cx : Crypto) (s s' : State) : Prop := Env s s' ∧ (Inv pf cx s → Inv pf cx s')

/-- A commitment that the client hears of was made. -/
def Tells (cx : Crypto) (q : Request) (r : Reply) (s : State) : Prop :=
  ∀ blobId hash requestedExpiry expiry, q = .blobCommit blobId hash requestedExpiry → r = .ok (.blobCommitted expiry) →
    ∃ content, (blobId, content) ∈ s.held ∧ cx.sha256 content = hash

def Goes (pf : Platform) (cx : Crypto) (t : Command α) (Post : Except CliError α → State → Prop) (s : State) : Prop :=
  Dialog.Safe (Guar pf cx) (fun _ => Rely pf cx) (Tells cx) Post t s

theorem goes_request {q : Request} {g : Answer → Command β} {Post : Except CliError β → State → Prop}
    (herror : ∀ s' e, Rely pf cx s s' → Post (.error e) s')
    (hok : ∀ s' answer, Rely pf cx s s' → Tells cx q (.ok answer) s' → Goes pf cx (g answer) Post s') :
    Goes pf cx (request q >>= g) Post s := by
  intro s' hs r hr
  cases r with
  | error e => exact herror s' e hs
  | ok answer => exact hok s' answer hs hr

theorem goes_active {g : Bool → Command β} {Post : Except CliError β → State → Prop} (h : Inv pf cx s)
    (hg : Goes pf cx (g (isActive s id)) Post s) : Goes pf cx (active id >>= g) Post s := ⟨fun _ => h, hg⟩

theorem goes_whileActive {k : Command (Option β)} {Post : Except CliError (Option β) → State → Prop} (h : Inv pf cx s)
    (hk : isActive s id = true → Goes pf cx k Post s) (hnone : Post (.ok none) s) : Goes pf cx (whileActive id k) Post s := by
  refine goes_active h ?_
  cases hactive : isActive s id with
  | true => exact hk hactive
  | false => exact hnone

theorem goes_lift {r : Except CliError α} {g : α → Command β} {Post : Except CliError β → State → Prop}
    (herror : ∀ e, r = .error e → Post (.error e) s) (hok : ∀ a, r = .ok a → Goes pf cx (g a) Post s) : Goes pf cx (lift r >>= g) Post s := by
  cases r with
  | error e => exact herror e rfl
  | ok a => exact hok a rfl

/-- While the transfer goes on, its row is outgoing. -/
def Up (pf : Platform) (cx : Crypto) (id : Bytes) (s : State) : Prop :=
  Inv pf cx s ∧ ∀ r ∈ s.transfers, r.eventId = id → r.state = .transferring → r.outgoing = true

theorem Up.rely (h : Up pf cx id s) (hs : Rely pf cx s s') : Up pf cx id s' :=
  ⟨hs.2 h.1, fun r hr hid hstate => h.2 r (hs.1.rows r hr hstate).1 hid hstate⟩

theorem Up.write (h : Up pf cx id s) (hactive : isActive s id = true) {f : TransferRow → TransferRow} {hf : ∀ r, (f r).eventId = r.eventId}
    (hout : ∀ r, (f r).outgoing = r.outgoing) (hstate : ∀ r, (f r).state = r.state)
    (hcommitted : ∀ r ∈ s.transfers, r.outgoing = true → (f r).committed = true → ∀ d, descriptor pf (f r).descriptor false = .ok d →
      Committed cx s d) :
    Up pf cx id (updateTransfer id f hf s) := by
  refine ⟨h.1.update fun r hr hid => ?_, fun r hr hid _ => ?_⟩
  · have hrow := h.1.rows r hr
    have htransferring := transferring_of_active hactive hr hid
    refine ⟨fun d hd => ?_, fun ho hc => ?_, fun ho hc => hcommitted r hr ((hout r).symm.trans ho) hc, fun hin => ?_⟩
    · rw [hstate]
      rw [hf] at hd
      exact hrow.queued d hd
    · rw [hstate]
      rw [hf] at hc
      rw [hout] at ho
      exact hrow.cancelled ho hc
    · rw [hout, h.2 r hr hid htransferring] at hin
      cases hin
  · obtain ⟨r₀, hr₀, hid₀, rfl⟩ := mem_updateTransfer hr hid
    rw [hout]
    exact h.2 r₀ hr₀ hid₀ (transferring_of_active hactive hr₀ hid₀)

theorem Up.offset (h : Up pf cx id s) (hactive : isActive s id = true) (n : Nat) : Up pf cx id (attachmentOffset id n s).2 := by
  refine h.write hactive (fun _ => rfl) (fun _ => rfl) fun r hr ho hc d hd => ?_
  exact (h.1.rows r hr).committed ho hc d hd

theorem fileDescriptor_ok {b : Bytes} {d : FileDescriptor} (h : pf.fileDescriptor b = .ok d) : pf.decodeFile b = .ok d := by
  unfold Platform.fileDescriptor at h
  split at h
  · cases h
  · next d' hd' =>
    split at h
    · cases h
    · rw [hd', Except.ok.inj h]

theorem descriptor_ok {b : Bytes} {remote : Bool} {d : FileDescriptor} (h : descriptor pf b remote = .ok d) :
    pf.decodeFile b = .ok d ∧ d.size.toNat ≤ maxAttachmentBytes := by
  unfold descriptor at h
  split at h
  · cases h
  · next d' hd' =>
    split at h
    · cases h
    · next hgood =>
      obtain rfl := Except.ok.inj h
      rw [not_or] at hgood
      exact ⟨fileDescriptor_ok hd', Nat.le_of_not_lt hgood.1⟩

theorem isActive_update {f : TransferRow → TransferRow} {hf : ∀ r, (f r).eventId = r.eventId} (hstate : ∀ r, (f r).state = r.state)
    (h : isActive s id = true) : isActive (updateTransfer id f hf s) id = true := by
  obtain ⟨r, hr, hid, htransferring⟩ := isActive_iff.1 h
  refine isActive_iff.2 ⟨f r, ?_, (hf r).trans hid, (hstate r).trans htransferring⟩
  dsimp only [updateTransfer]
  exact Table.mem_update_pos hr (decide_eq_true hid)

theorem descriptor_encode (hcodec : ∀ d, pf.decodeFile (encodeFile d) = .ok d) {d d' : FileDescriptor} {remote : Bool}
    (h : descriptor pf (encodeFile d) remote = .ok d') : d' = d :=
  Except.ok.inj ((descriptor_ok h).1.symm.trans (hcodec d))

theorem held_attachmentDescriptor (b : Bytes) (expiry : Option UInt64) : (attachmentDescriptor id b expiry s).2.held = s.held := by
  unfold attachmentDescriptor
  split <;> rfl

theorem Up.descriptor (hcodec : ∀ d, pf.decodeFile (encodeFile d) = .ok d) (h : Up pf cx id s) (hactive : isActive s id = true)
    {d : FileDescriptor} {expiry : Option UInt64} (hd : expiry.isSome = true → Committed cx s d) :
    Up pf cx id (attachmentDescriptor id (encodeFile d) expiry s).2 := by
  unfold attachmentDescriptor
  split
  · exact h
  · refine h.write hactive (fun _ => rfl) (fun _ => rfl) fun r hr ho hc d' hd' => ?_
    rw [descriptor_encode hcodec hd']
    exact hd hc

section upload

variable {a : Resume} {bytes : Bytes}

theorem sendChunks_goes (d : FileDescriptor) (fuel : Nat) : ∀ {offset : Nat} {s : State}, Up pf cx a.id s →
    Goes pf cx (sendChunks a bytes d fuel offset) (fun _ s => Up pf cx a.id s) s := by
  induction fuel with
  | zero => exact fun h => h
  | succ fuel ih =>
    intro offset s h
    rw [sendChunks]
    split
    · exact h
    · refine goes_request (fun s' e hs => h.rely hs) fun s' answer hs _ => ?_
      have h' := h.rely hs
      refine goes_whileActive h'.1 (fun hactive => ?_) h'
      split
      · exact h'
      · have hwritten := h'.offset hactive (min (offset + blobChunk) bytes.length)
        refine Dialog.safe_call_bind (fun _ => hwritten.1) (fun e s₁ hrun => by cases hrun) fun u s₁ hrun => ?_
        obtain rfl := (Prod.mk.inj hrun).2
        exact ih hwritten

/-- The outcome of an upload: what is to be announced is committed. -/
def Uploaded (pf : Platform) (cx : Crypto) (id : Bytes) (r : Except CliError (Option FileDescriptor)) (s : State) : Prop :=
  Up pf cx id s ∧ ∀ d, r = .ok (some d) → Committed cx s d

theorem commitBlob_goes (hcodec : ∀ d, pf.decodeFile (encodeFile d) = .ok d) (d : FileDescriptor) (h : Up pf cx a.id s) :
    Goes pf cx (commitBlob encodeFile a d) (Uploaded pf cx a.id) s := by
  refine goes_request (fun s' e hs => ⟨h.rely hs, fun d hd => by cases hd⟩) fun s' answer hs htells => ?_
  have h' := h.rely hs
  refine goes_whileActive h'.1 (fun hactive => ?_) ⟨h', fun d hd => by cases hd⟩
  split
  · next expiry =>
    have hcommitted : Committed cx s' d := htells _ _ _ _ rfl rfl
    have hwritten : Up pf cx a.id (attachmentDescriptor a.id (encodeFile d) (some (UInt64.ofInt expiry)) s').2 :=
      h'.descriptor hcodec hactive fun _ => hcommitted
    have hheld : (attachmentDescriptor a.id (encodeFile d) (some (UInt64.ofInt expiry)) s').2.held = s'.held := held_attachmentDescriptor _ _
    refine Dialog.safe_call_bind (fun _ => hwritten.1) (fun e s₁ hrun => ?_) fun u s₁ hrun => ?_
    · rw [hrun] at hwritten
      exact ⟨hwritten, fun d hd => by cases hd⟩
    · rw [hrun] at hwritten hheld
      intro s₂ hs₂ r _
      refine ⟨hwritten.rely hs₂, fun d' hd' => ?_⟩
      obtain rfl := Option.some.inj (Except.ok.inj hd')
      exact hcommitted.mono fun p hp => hs₂.1.held p (hheld ▸ hp)
  · exact ⟨h', fun d hd => by cases hd⟩

theorem sendFrom_goes (hcodec : ∀ d, pf.decodeFile (encodeFile d) = .ok d) (d : FileDescriptor) (offset : Nat) (h : Up pf cx a.id s)
    (hactive : isActive s a.id = true) : Goes pf cx (sendFrom encodeFile a bytes d offset) (Uploaded pf cx a.id) s := by
  have hwritten := h.offset hactive offset
  refine Dialog.safe_call_bind (fun _ => hwritten.1) (fun e s₁ hrun => by cases hrun) fun u s₁ hrun => ?_
  obtain rfl := (Prod.mk.inj hrun).2
  refine Dialog.safe_bind (Dialog.safe_mono (fun r s₂ h₂ => ?_) (sendChunks_goes d _ hwritten))
  match r with
  | .error e => exact ⟨h₂, fun d hd => by cases hd⟩
  | .ok none => exact ⟨h₂, fun d hd => by cases hd⟩
  | .ok (some ()) => exact commitBlob_goes hcodec d h₂

theorem resumeOffset_goes (d : FileDescriptor) (h : Up pf cx id s) : Goes pf cx (resumeOffset bytes d) (fun _ s => Up pf cx id s) s := by
  unfold resumeOffset
  split
  · exact h
  · refine Dialog.safe_question_bind fun s' hs r _ => ?_
    have h' := h.rely hs
    split
    · split
      · exact h'
      · exact h'
    · exact h'
    · split
      · exact h'
      · exact h'

theorem beginUpload_goes (h : Up pf cx id s) : Goes pf cx (beginUpload bytes) (fun _ s => Up pf cx id s) s := by
  refine goes_request (fun s' e hs => h.rely hs) fun s' answer hs _ => ?_
  have h' := h.rely hs
  split
  · exact h'
  · exact h'

theorem uploadBytes_goes (hcodec : ∀ d, pf.decodeFile (encodeFile d) = .ok d) (d : FileDescriptor) (h : Up pf cx a.id s) :
    Goes pf cx (uploadBytes encodeFile a bytes d) (Uploaded pf cx a.id) s := by
  have hnothing : ∀ {s : State}, Up pf cx a.id s → Uploaded pf cx a.id (.ok none) s := fun h => ⟨h, fun d hd => by cases hd⟩
  have hfailed : ∀ {s : State} {e : CliError}, Up pf cx a.id s → Uploaded pf cx a.id (.error e) s := fun h => ⟨h, fun d hd => by cases hd⟩
  refine goes_request (fun s' e hs => hfailed (h.rely hs)) fun s₁ answer hs _ => ?_
  have h₁ := h.rely hs
  refine goes_whileActive h₁.1 (fun _ => ?_) (hnothing h₁)
  refine Dialog.safe_bind (Dialog.safe_mono (fun r s₂ h₂ => ?_) (resumeOffset_goes d h₁))
  cases r with
  | error e => exact hfailed h₂
  | ok resumed =>
    refine goes_whileActive h₂.1 (fun hactive => ?_) (hnothing h₂)
    cases resumed with
    | some offset => exact sendFrom_goes hcodec d offset h₂ hactive
    | none =>
      refine Dialog.safe_bind (Dialog.safe_mono (fun r s₃ h₃ => ?_) (beginUpload_goes h₂))
      cases r with
      | error e => exact hfailed h₃
      | ok started =>
        refine goes_whileActive h₃.1 (fun hactive => ?_) (hnothing h₃)
        have hwritten : Up pf cx a.id (attachmentDescriptor a.id
            (encodeFile { d with blobId := started.1, readCapability := started.2 }) none s₃).2 :=
          h₃.descriptor hcodec hactive fun hsome => by cases hsome
        refine Dialog.safe_call_bind (fun _ => hwritten.1) (fun e s₄ hrun => by cases hrun) fun u s₄ hrun => ?_
        obtain rfl := (Prod.mk.inj hrun).2
        exact sendFrom_goes hcodec _ 0 hwritten (isActive_update (fun _ => rfl) hactive)

theorem Inv.addQueued {r : TransferRow} (h : Inv pf cx s) (hr : r ∈ s.transfers) (hid : r.eventId = id) (hout : r.outgoing = true)
    (hstate : r.state = .transferring) {d : FileDescriptor} (hd : Committed cx s d) :
    Inv pf cx { (attachmentState id .sent s).2 with deeds := .queued id d :: s.deeds } := by
  have hrow := h.rows r hr
  have hfirst : ∀ e ∈ s.deeds, e.id ≠ id := by
    intro e he heq
    cases e with
    | queued id' d' =>
      obtain rfl : id' = id := heq
      have hsent := hrow.queued d' (hid ▸ he)
      rw [hstate] at hsent
      cases hsent
    | cancelled id' =>
      obtain rfl : id' = id := heq
      have hcancelled := hrow.cancelled hout (hid ▸ he)
      rw [hstate] at hcancelled
      cases hcancelled
  have hkeys : ∀ k, (∃ r ∈ s.transfers, r.eventId = k) → ∃ r ∈ (attachmentState id .sent s).2.transfers, r.eventId = k := by
    intro k hk
    dsimp only [attachmentState, Prog.modify, updateTransfer]
    exact Table.exists_key_update.2 hk
  refine ⟨?_, ?_, ?_, fun c hc => hkeys _ (h.owned c hc), ?_⟩
  · refine List.pairwise_cons.2 ⟨?_, h.once⟩
    intro e he id' d' heq
    obtain ⟨rfl, rfl⟩ := Deed.queued.inj heq
    exact hfirst e he
  · intro e he
    rcases List.mem_cons.1 he with rfl | he
    · exact hkeys id ⟨r, hr, hid⟩
    · exact hkeys _ (h.known e he)
  · intro id' d' hd'
    rcases List.mem_cons.1 hd' with heq | hd'
    · obtain ⟨rfl, rfl⟩ := Deed.queued.inj heq
      exact hd
    · exact h.committed id' d' hd'
  · intro r' hr'
    replace hr' : r' ∈ (updateTransfer id (fun r => { r with state := .sent }) (fun _ => rfl) s).transfers := hr'
    by_cases hid' : r'.eventId = id
    · obtain ⟨r₀, hr₀, hid₀, rfl⟩ := mem_updateTransfer hr' hid'
      obtain rfl := Table.eq_of_key hr₀ hr (hid₀.trans hid.symm)
      refine ⟨fun _ _ => rfl, fun _ hc => ?_, hrow.committed, fun hin => ?_⟩
      · rcases List.mem_cons.1 hc with heq | hc
        · cases heq
        · exact absurd hid (hfirst _ hc)
      · rw [hout] at hin
        cases hin
    · refine (h.rows r' (apart_update.rows r' hr' hid')).congr (fun e he heq => ?_) (fun p hp => hp) rfl
      rcases List.mem_cons.1 he with rfl | he
      · exact absurd heq.symm hid'
      · exact he

theorem sendDescriptor_inv (h : Up pf cx a.id s) (hactive : isActive s a.id = true) {d : FileDescriptor} (hd : Committed cx s d) :
    Inv pf cx (sendDescriptor a d s).2 := by
  unfold sendDescriptor
  cases a.ready with
  | error e => exact h.1
  | ok u =>
    obtain ⟨r, hr, hid, hstate⟩ := isActive_iff.1 hactive
    refine (h.1.addQueued hr hid (h.2 r hr hid hstate) hstate hd).congr ?_ ?_ ?_ ?_
    · rfl
    · rfl
    · rfl
    · exact fun p hp => hp

theorem upload_goes (hcodec : ∀ d, pf.decodeFile (encodeFile d) = .ok d) {row : TransferRow} (h : Up pf cx a.id s)
    (hrow : row.outgoing = true → row.committed = true → ∀ d, descriptor pf row.descriptor false = .ok d → Committed cx s d)
    (hout : row.outgoing = true) : Goes pf cx (upload pf encodeFile a row) (fun _ s => Inv pf cx s) s := by
  refine goes_lift (fun e _ => h.1) fun d hd => ?_
  refine Dialog.safe_call_bind (fun _ => h.1) (fun e s₁ hrun => ?_) fun bytes s₁ hrun => ?_
  · obtain rfl := (Prod.mk.inj hrun).2
    exact h.1
  obtain rfl := (Prod.mk.inj hrun).2
  refine goes_lift (fun e _ => h.1) fun plain _ => ?_
  refine goes_lift (fun e _ => h.1) fun u _ => ?_
  have huploaded : Goes pf cx (ensureUploaded encodeFile a bytes row d) (Uploaded pf cx a.id) s := by
    unfold ensureUploaded
    split
    · exact uploadBytes_goes hcodec d h
    · next hkept =>
      rw [not_or, Bool.not_eq_false] at hkept
      refine ⟨h, fun d' hd' => ?_⟩
      obtain rfl := Option.some.inj (Except.ok.inj hd')
      exact hrow hout hkept.1 d hd
  refine Dialog.safe_bind (Dialog.safe_mono (fun r s₂ h₂ => ?_) huploaded)
  match r with
  | .error e => exact h₂.1.1
  | .ok none => exact h₂.1.1
  | .ok (some d) =>
    refine goes_active h₂.1.1 ?_
    cases hactive : isActive s₂ a.id with
    | false => exact h₂.1.1
    | true =>
      have hsent := sendDescriptor_inv h₂.1 hactive (h₂.2 d rfl)
      refine Dialog.safe_call_bind (fun _ => hsent) (fun e s₃ hrun => ?_) fun u s₃ hrun => ?_
      · rw [hrun] at hsent
        exact hsent
      · rw [hrun] at hsent
        refine goes_request (fun s' e hs => hs.2 hsent) fun s₄ _ hs₄ _ => ?_
        refine goes_request (fun s' e hs => hs.2 (hs₄.2 hsent)) fun s₅ _ hs₅ _ => ?_
        exact fun s₆ hs₆ _ _ => hs₆.2 (hs₅.2 (hs₄.2 hsent))

end upload

end Arveil.Transfers

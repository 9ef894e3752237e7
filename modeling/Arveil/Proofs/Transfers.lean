import Arveil.Proofs.Transfers.Downloads

/-! Attachment transfers. A transfer asks after each wait whether it still goes on, so what it
knows of its row at a question need only hold while the row says `transferring`; nobody else
touches such a row but a cancellation, which ends it. -/

namespace Arveil.Transfers

open Archive (verifiedPlaintext)
open RelayServer (Frame Answer)

variable {pf : Platform} {encodeFile : FileDescriptor → Bytes} {cx : Crypto} {items : CborItems}

section runs

variable {w : World} {s : State}

theorem rely_refl (s : State) : Rely pf cx s s := ⟨.refl s, fun h => h⟩

theorem rely_trans (s₁ s₂ s₃ : State) (h₁ : Rely pf cx s₁ s₂) (h₂ : Rely pf cx s₂ s₃) : Rely pf cx s₁ s₃ :=
  ⟨h₁.1.trans h₂.1, fun h => h₂.2 (h₁.2 h)⟩

theorem inv_guar {s' : State} (h : Inv pf cx s) (hs : Relation.ReflTransGen (Guar pf cx) s s') : Inv pf cx s' := by
  induction hs with
  | refl => exact h
  | tail _ hstep ih => exact hstep ih

structure WorldInv (pf : Platform) (cx : Crypto) (w : World) : Prop where
  state : Inv pf cx w.state
  job : ∀ j, w.job = some j → ∃ q, j.task.asks = some q ∧ Goes pf cx j.task (fun _ s => Inv pf cx s) w.state ∧
    ∀ answer, j.answer = some answer → Tells cx q (heard answer) w.state

theorem proceed_inv {t : Command Unit} (h : Inv pf cx s) (ht : Goes pf cx t (fun _ s => Inv pf cx s) s) (writes : Option Nat) :
    WorldInv pf cx (proceed t writes s) := by
  cases writes with
  | some n => exact ⟨inv_guar h (Dialog.cut_safe n ht), fun j hj => by cases hj⟩
  | none =>
    obtain ⟨hguar, hleft⟩ := Dialog.go_safe ht
    have hends := Dialog.go_ends t s
    unfold proceed
    rcases hgo : Dialog.go t s with ⟨t', s'⟩
    rw [hgo] at hguar hleft hends
    have h' := inv_guar h hguar
    cases t' with
    | done r => exact ⟨h', fun j hj => by cases hj⟩
    | step f k =>
      rcases hends with ⟨r, hr⟩ | ⟨q, hq⟩
      · cases hr
      · cases hq
    | ask q k =>
      refine ⟨h', fun j hj => ?_⟩
      obtain rfl := Option.some.inj hj
      exact ⟨q, rfl, hleft, fun answer ha => by cases ha⟩

theorem WorldInv.elsewhere (h : WorldInv pf cx w) {s' : State} (hs : Rely pf cx w.state s') : WorldInv pf cx { w with state := s' } := by
  refine ⟨hs.2 h.state, fun j hj => ?_⟩
  obtain ⟨q, hq, hgoes, hanswer⟩ := h.job j hj
  refine ⟨q, hq, Dialog.safe_rely (fun _ => rely_trans) hq hgoes hs, fun answer ha blobId hash requestedExpiry expiry hcommit hreply => ?_⟩
  obtain ⟨content, hmem, hhash⟩ := hanswer answer ha blobId hash requestedExpiry expiry hcommit hreply
  exact ⟨content, hs.1.held _ hmem, hhash⟩

theorem rely_of_tables {s' : State} (ht : s'.transfers = s.transfers) (hc : s'.chunks = s.chunks) (hd : s'.deeds = s.deeds)
    (hheld : ∀ p ∈ s.held, p ∈ s'.held) : Rely pf cx s s' := by
  refine ⟨⟨fun r hr _ => ⟨ht ▸ hr, ?_⟩, hheld⟩, fun h => h.congr ht hc hd hheld⟩
  rw [chunksOf, hc, chunksOf]

theorem service_tells (v : Service) {q : Request} {f : Frame} (hf : q.frame v.drawn = some f) {answer : Answer}
    (ha : (v.run cx items f w.state.db).1 = some answer) :
    Tells cx q (heard answer) { w.state with
      db := (v.run cx items f w.state.db).2, held := heldBlob (v.run cx items f w.state.db).2 q.blob ++ w.state.held } := by
  intro blobId hash requestedExpiry expiry hcommit hreply
  subst hcommit
  obtain rfl := Option.some.inj hf
  have hanswer : answer = .blobCommitted expiry := by
    cases answer <;> first | exact Except.ok.inj hreply | cases hreply
  cases hops : v.operations with
  | some n =>
    rw [Service.run, hops] at ha
    cases ha
  | none =>
    rcases hrun : (RelayServer.dispatch cx items v.session (.blobCommit blobId hash requestedExpiry) v.now).finish w.state.db with ⟨o, db'⟩
    have hservice : v.run cx items (.blobCommit blobId hash requestedExpiry) w.state.db = (some o.answer, db') := by
      rw [Service.run, hops, hrun]
      rfl
    rw [hservice] at ha ⊢
    obtain ⟨content, hmem, hhash⟩ := commit_holds hrun ((Option.some.inj ha).trans hanswer)
    exact ⟨content, List.mem_append_left _ hmem, hhash⟩

theorem step_inv (hcodec : ∀ d, pf.decodeFile (encodeFile d) = .ok d) (h : WorldInv pf cx w) (e : Event) :
    WorldInv pf cx (step pf encodeFile cx items w e) := by
  cases e with
  | record e => exact h.elsewhere (rely_of_tables rfl rfl rfl fun p hp => hp)
  | updateEvent id kind body => exact h.elsewhere (rely_of_tables rfl rfl rfl fun p hp => hp)
  | queue f =>
    obtain ⟨hinv, henv⟩ := @queue_inv pf encodeFile cx w.state h.state f
    exact h.elsewhere ⟨henv, fun _ => hinv⟩
  | cancel group id =>
    obtain ⟨hinv, henv⟩ := cancel_inv h.state group id
    exact h.elsewhere ⟨henv, fun _ => hinv⟩
  | resume a writes =>
    dsimp only [step]
    split
    · exact h
    · exact proceed_inv h.state (resume_goes hcodec a h.state) writes
  | serve v =>
    dsimp only [step]
    split
    · exact h
    · next j hj =>
      split
      · next q hanswer hq =>
        split
        · exact h
        · next f hf =>
          have hrely : Rely pf cx w.state { w.state with
              db := (v.run cx items f w.state.db).2, held := heldBlob (v.run cx items f w.state.db).2 q.blob ++ w.state.held } :=
            rely_of_tables rfl rfl rfl fun p hp => List.mem_append_right _ hp
          have h' := h.elsewhere hrely
          obtain ⟨q', hq', hgoes, -⟩ := h'.job j hj
          refine ⟨h'.state, fun j' hj' => ?_⟩
          obtain rfl := Option.some.inj hj'
          refine ⟨q, hq, hgoes, fun answer ha => service_tells v hf ha⟩
      · exact h
  | deliver other writes =>
    dsimp only [step]
    split
    · exact h
    · next j hj =>
      obtain ⟨q, hq, hgoes, hanswer⟩ := h.job j hj
      split
      · next r _ =>
        split
        · next hdenies =>
          refine proceed_inv h.state (Dialog.safe_reply (fun _ => rely_refl) hq hgoes fun blobId hash requestedExpiry expiry _ hreply => ?_) writes
          rw [hreply] at hdenies
          cases hdenies
        · exact h
      · next answer ha => exact proceed_inv h.state (Dialog.safe_reply (fun _ => rely_refl) hq hgoes (hanswer answer ha)) writes
      · exact h
  | crash => exact ⟨h.state, fun j hj => by cases hj⟩
  | elsewhere e => exact h.elsewhere (rely_of_tables rfl rfl rfl fun p hp => hp)

theorem fresh_inv (h : Fresh w) : WorldInv pf cx w := by
  refine ⟨⟨?_, ?_, ?_, fun c hc => absurd hc (h.chunks c), fun r hr => absurd hr (h.transfers r)⟩, fun j hj => ?_⟩
  · rw [QueuedOnce, h.deeds]
    exact List.Pairwise.nil
  · rw [h.deeds]
    exact fun e he => absurd he List.not_mem_nil
  · intro id d hd
    rw [h.deeds] at hd
    exact absurd hd List.not_mem_nil
  · rw [h.idle] at hj
    cases hj

theorem Inv.gapFree (h : Inv pf cx s) : GapFree s := by
  intro r hr hin
  obtain ⟨d, bytes, -, -, hstored, hlength, -⟩ := (h.rows r hr).download hin
  exact ⟨bytes, hstored.1, hlength⟩

theorem verifiedPlaintext_length {d : FileDescriptor} {bytes plain : Bytes} (h : verifiedPlaintext pf d bytes = .ok plain) :
    plain.length = d.size.toNat := by
  unfold verifiedPlaintext at h
  split at h
  · cases h
  · split at h
    · cases h
    · split at h
      · cases h
      · next hlength =>
        obtain rfl := Except.ok.inj h
        exact not_not.1 hlength

theorem Inv.readyOpens (h : Inv pf cx s) : ReadyOpens pf s := by
  intro r hr hin hready
  obtain ⟨d, bytes, hd, hsize, hstored, -, hplain⟩ := (h.rows r hr).download hin
  obtain ⟨plain, hplain⟩ := hplain hready
  exact ⟨d, bytes, plain, hd, hstored.1, hplain, hsize ▸ verifiedPlaintext_length hplain⟩

end runs

/-- However transfers are cancelled, cut off and resumed: a descriptor is queued once and never after a cancellation, what it names is
committed, downloads have no gaps, and one that is ready opens. -/
theorem transfers_hold (pf : Platform) (encodeFile : FileDescriptor → Bytes) (hcodec : ∀ d, pf.decodeFile (encodeFile d) = .ok d) (cx : Crypto)
    (items : CborItems) (w : World) (hw : Fresh w) (evs : List Event) :
    QueuedOnce (Trace.run (step pf encodeFile cx items) w evs).state ∧ QueuedCommitted cx (Trace.run (step pf encodeFile cx items) w evs).state ∧
      GapFree (Trace.run (step pf encodeFile cx items) w evs).state ∧ ReadyOpens pf (Trace.run (step pf encodeFile cx items) w evs).state := by
  have h : WorldInv pf cx (Trace.run (step pf encodeFile cx items) w evs) := by
    refine Trace.invariant ?_ (Trace.meets_true w evs) (fresh_inv hw)
    exact fun w e _ h => step_inv hcodec h e
  exact ⟨h.state.once, h.state.committed, h.state.gapFree, h.state.readyOpens⟩

section demo

open Demo Blobs

def demoCiphertext : Bytes := [5, 6] ++ List.replicate 16 0

def demoFile : NewFile where
  group := [9]
  id := [1]
  name := "a"
  size := 2
  fileKey := List.replicate 32 1
  nonce := List.replicate 12 0
  ciphertextHash := crypto.sha256 demoCiphertext
  ciphertext := demoCiphertext
  ready := .ok ()

def demoWorld : World := ⟨⟨.empty, .empty, .empty, [], letterStart, []⟩, none⟩

theorem demo_fresh : Fresh demoWorld :=
  ⟨fun r hr => absurd hr (Table.not_mem_empty r), fun c hc => absurd hc (Table.not_mem_empty c), rfl, rfl⟩

def demoResume (id : Bytes) : Resume := ⟨[9], id, .ok (), 10, 0, .ok ()⟩

def demoService : Service := ⟨letter.session, 10, (List.replicate 16 7, List.replicate 32 8), none⟩

def demoSent : FileDescriptor := { demoFile.descriptor with blobId := List.replicate 16 7, readCapability := List.replicate 32 8 }

/-- A file goes out: the first attempt is cut off after it began the upload, the second sends it. A cancellation comes too late. -/
def demoUpload : List Event :=
  [.queue demoFile, .resume (demoResume [1]) none, .deliver (some (.ok .pong)) none, .serve demoService, .deliver none (some 2),
    .resume (demoResume [1]) none, .deliver (some (.ok .pong)) none, .serve demoService, .deliver none none, .serve demoService, .deliver none none,
    .serve demoService, .deliver none none, .deliver (some (.ok .pong)) none, .cancel [9] [1], .crash]

/-- The same file comes in; a first download is cancelled. -/
def demoDownload : List Event :=
  [.record ⟨[9], [2], .filePending, file.write demoSent, none, none⟩, .resume (demoResume [2]) none, .cancel [9] [2],
    .deliver (some (.ok .pong)) none, .resume (demoResume [2]) none, .deliver (some (.ok .pong)) none, .serve demoService, .deliver none none]

theorem demo_transfers_hold :
    let s := (Trace.run (step platform file.write crypto cborItems) demoWorld (demoUpload ++ demoDownload)).state
    (QueuedOnce s ∧ QueuedCommitted crypto s ∧ GapFree s ∧ ReadyOpens platform s) ∧
      s.deeds = [.cancelled [2], .queued [1] demoSent] ∧ s.transfers.rows.map (·.state) = [.sent, .ready] :=
  ⟨transfers_hold platform file.write file.decode_write crypto cborItems demoWorld demo_fresh (demoUpload ++ demoDownload),
    by decide +kernel, by decide +kernel⟩

end demo

end Arveil.Transfers

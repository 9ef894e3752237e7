import Arveil.Spec.Blobs
import Arveil.Proofs.Footprint
import Arveil.Sanity.Store

/-! Uploads that are cut off. The staging file and the row are written one after the other; as
long as no call is cut off between the two, the file holds what the row says, and whoever asks
for the offset and goes on from there completes the upload. -/

namespace Arveil.Blobs

open Prog RelayStore RelayServer

variable {cx : Crypto}

section calls

variable (c : Call) (k : c.Result → Handles cx Outcome) (db : Db)

theorem blobError_pure (e : StoreError) : ∃ code message, blobError cx e = pure ⟨.error code message, none⟩ := by
  cases e <;> exact ⟨_, _, rfl⟩

theorem finish_blobError (e : StoreError) : ((blobError cx e).finish db).2 = db := by
  obtain ⟨code, message, h⟩ := @blobError_pure cx e
  rw [h]
  rfl

theorem steps_blobError (n : Nat) (e : StoreError) : (Handler.steps n (blobError cx e) db).2 = db := by
  obtain ⟨code, message, h⟩ := @blobError_pure cx e
  rw [h, Handler.steps_pure]

variable {c k db}

theorem finish_ask {α : Type} (f : Except StoreError c.Result → Handles cx α) :
    (ask cx c >>= f).finish db = (f (c.prog cx.sha256 db).1).finish (c.prog cx.sha256 db).2 := rfl

theorem steps_ask {α : Type} (n : Nat) (f : Except StoreError c.Result → Handles cx α) :
    Handler.steps (n + 1) (ask cx c >>= f) db = Handler.steps n (f (c.prog cx.sha256 db).1) (c.prog cx.sha256 db).2 := rfl

theorem finish_blobCall_ok {r : c.Result} {db' : Db} (h : c.prog cx.sha256 db = (.ok r, db')) :
    (blobCall cx c k).finish db = (k r).finish db' := by
  rw [blobCall, finish_ask, h]

theorem finish_blobCall_error {e : StoreError} {db' : Db} (h : c.prog cx.sha256 db = (.error e, db')) :
    ((blobCall cx c k).finish db).2 = db' := by
  rw [blobCall, finish_ask, h]
  exact finish_blobError db' e

theorem finish_blobCall_success {o : Outcome} {db' : Db} (h : (blobCall cx c k).finish db = (o, db')) (ho : o.answer.success = true) :
    ∃ r db₁, c.prog cx.sha256 db = (.ok r, db₁) ∧ (k r).finish db₁ = (o, db') := by
  rcases hrun : c.prog cx.sha256 db with ⟨e | r, db₁⟩
  · obtain ⟨code, message, herror⟩ := @blobError_pure cx e
    rw [blobCall, finish_ask, hrun] at h
    dsimp only at h
    rw [herror] at h
    obtain ⟨rfl, -⟩ := Prod.mk.inj h
    cases ho
  · rw [finish_blobCall_ok hrun] at h
    exact ⟨r, db₁, rfl, h⟩

theorem blobError_fails {e : StoreError} {o : Outcome} {db db' : Db} (h : (blobError cx e).finish db = (o, db')) : o.answer.success = false := by
  obtain ⟨code, message, herror⟩ := @blobError_pure cx e
  rw [herror] at h
  obtain ⟨rfl, -⟩ := Prod.mk.inj h
  rfl

theorem steps_blobCall_ok (n : Nat) {r : c.Result} {db' : Db} (h : c.prog cx.sha256 db = (.ok r, db')) :
    Handler.steps (n + 1) (blobCall cx c k) db = Handler.steps n (k r) db' := by
  rw [blobCall, steps_ask, h]

theorem steps_blobCall_error (n : Nat) {e : StoreError} {db' : Db} (h : c.prog cx.sha256 db = (.error e, db')) :
    (Handler.steps (n + 1) (blobCall cx c k) db).2 = db' := by
  rw [blobCall, steps_ask, h]
  exact steps_blobError db' n e

end calls

section chunk

variable {d : RelayStore.Device} {s : RelayServer.Session} {id : Bytes} {offset : Nat} {data : Bytes} {db : Db}

/-- What a chunk call checks before it writes. -/
def takes (identity id : Bytes) (offset : Nat) (data : Bytes) (db : Db) : Bool :=
  decide (0 < data.length ∧ data.length ≤ maxBlobChunk) && (db.blobs.get? id).any fun b =>
    b.ownerIdentity = identity && b.state = .staging && b.storedSize = offset && decide (b.storedSize + data.length ≤ b.declaredSize)

def appended (id data : Bytes) (db : Db) : Db :=
  { db with staging := db.staging.update (fun f => f.blobId = id) (fun f => { f with content := f.content ++ data }) (BlobFile.appended_key data) }

def grown (id : Bytes) (n : Nat) (db : Db) : Db :=
  { db with blobs := db.blobs.update (fun b => b.blobId = id) (fun b => { b with storedSize := b.storedSize + n }) (BlobRow.grown_key n) }

theorem blobRow_run {b : BlobRow} {identity : Bytes} (hb : db.blobs.get? id = some b) (howner : b.ownerIdentity = identity) :
    Call.prog cx.sha256 (.blobRow id identity) db = (.ok b, db) :=
  require_eq_ok.2 ⟨by simp [hb, howner], rfl⟩

theorem stagingAppend_run {f : BlobFile} (hf : db.staging.get? id = some f) :
    Call.prog cx.sha256 (.stagingAppend id data) db = (.ok (), appended id data db) := by
  show stagingAppend id data db = _
  rw [stagingAppend, bind_ok (require_eq_ok.2 ⟨hf, rfl⟩)]
  rfl

theorem blobChunk_taken (hs : s.device = some d) (h : takes d.identityId id offset data db = true) (n : Nat) :
    (blobChunk cx s id offset data).finish db =
        (blobCall cx (.stagingAppend id data) fun _ => blobCall cx (.blobGrow id data.length) fun _ => RelayServer.answer cx .ack).finish db ∧
      Handler.steps (n + 1) (blobChunk cx s id offset data) db =
        Handler.steps n (blobCall cx (.stagingAppend id data) fun _ => blobCall cx (.blobGrow id data.length) fun _ => RelayServer.answer cx .ack) db := by
  simp only [takes, Bool.and_eq_true, decide_eq_true_eq, Option.any_eq_true] at h
  obtain ⟨⟨hpos, hmax⟩, b, hb, ⟨⟨howner, hstate⟩, hstored⟩, hfits⟩ := h
  have hshape : ¬ (data.length = 0 ∨ maxBlobChunk < data.length) := by omega
  have hrow : Call.prog cx.sha256 (.blobRow id d.identityId) db = (.ok b, db) := blobRow_run hb howner
  unfold blobChunk whenMember
  rw [hs]
  dsimp only
  rw [if_neg hshape, finish_blobCall_ok hrow, steps_blobCall_ok n hrow, if_neg (not_not.2 hstate), if_neg (not_not.2 hstored),
    if_neg (not_lt.2 hfits)]
  exact ⟨rfl, rfl⟩

theorem blobRow_cases (id identity : Bytes) (db : Db) :
    (∃ e, Call.prog cx.sha256 (.blobRow id identity) db = (.error e, db) ∧ ∀ b, db.blobs.get? id = some b → b.ownerIdentity ≠ identity) ∨
      ∃ b, Call.prog cx.sha256 (.blobRow id identity) db = (.ok b, db) ∧ db.blobs.get? id = some b ∧ b.ownerIdentity = identity := by
  rcases hrun : Call.prog cx.sha256 (.blobRow id identity) db with ⟨e | b, db'⟩
  · obtain rfl := ends_unchanged (fixes_require _ _) hrun
    refine Or.inl ⟨e, rfl, fun b hb howner => ?_⟩
    rw [blobRow_run hb howner] at hrun
    cases hrun
  · obtain ⟨hb, rfl⟩ := require_eq_ok.1 hrun
    obtain ⟨hget, howner⟩ := Option.filter_eq_some_iff.1 hb
    exact Or.inr ⟨b, rfl, hget, of_decide_eq_true howner⟩

theorem blobChunk_refused (hs : s.device = some d) (h : takes d.identityId id offset data db = false) (n : Nat) :
    ((blobChunk cx s id offset data).finish db).2 = db ∧ (Handler.steps (n + 1) (blobChunk cx s id offset data) db).2 = db := by
  unfold blobChunk whenMember
  rw [hs]
  dsimp only
  by_cases hshape : data.length = 0 ∨ maxBlobChunk < data.length
  · rw [if_pos hshape]
    exact ⟨finish_blobError db _, steps_blobError db (n + 1) _⟩
  rw [if_neg hshape]
  rcases @blobRow_cases cx id d.identityId db with ⟨e, hrun, -⟩ | ⟨b, hrun, hb, howner⟩
  · exact ⟨finish_blobCall_error hrun, steps_blobCall_error n hrun⟩
  rw [finish_blobCall_ok hrun, steps_blobCall_ok n hrun]
  split
  · exact ⟨finish_blobError db _, steps_blobError db n _⟩
  next hstate =>
  split
  · exact ⟨finish_blobError db _, steps_blobError db n _⟩
  next hstored =>
  split
  · exact ⟨finish_blobError db _, steps_blobError db n _⟩
  next hfits =>
  have hlength : 0 < data.length ∧ data.length ≤ maxBlobChunk := by omega
  have htakes : takes d.identityId id offset data db = true := by
    simp only [takes, hlength, hb, howner, not_not.1 hstate, not_not.1 hstored, Option.any_some, decide_true, Bool.true_and, and_self]
    rw [← not_not.1 hstored]
    exact decide_eq_true (not_lt.1 hfits)
  rw [htakes] at h
  cases h

theorem blobChunk_finish (hs : s.device = some d) (h : takes d.identityId id offset data db = true) {f : BlobFile}
    (hf : db.staging.get? id = some f) :
    (blobChunk cx s id offset data).finish db = (⟨.ack, none⟩, grown id data.length (appended id data db)) := by
  rw [(@blobChunk_taken cx d s id offset data db hs h 0).1, finish_blobCall_ok (stagingAppend_run hf)]
  exact finish_blobCall_ok rfl

/-- A chunk call that is cut off: before the file is written, between file and row, or after. -/
theorem blobChunk_steps (hs : s.device = some d) (h : takes d.identityId id offset data db = true) {f : BlobFile}
    (hf : db.staging.get? id = some f) (n : Nat) :
    (Handler.steps n (blobChunk cx s id offset data) db).2 =
      if n < 2 then db else if n = 2 then appended id data db else grown id data.length (appended id data db) := by
  match n with
  | 0 => rfl
  | 1 => rw [(@blobChunk_taken cx d s id offset data db hs h 0).2]; rfl
  | 2 => rw [(@blobChunk_taken cx d s id offset data db hs h 1).2, steps_blobCall_ok 0 (stagingAppend_run hf)]; rfl
  | n + 3 =>
    rw [(@blobChunk_taken cx d s id offset data db hs h (n + 2)).2, steps_blobCall_ok (n + 1) (stagingAppend_run hf),
      @steps_blobCall_ok cx (.blobGrow id data.length) _ _ n () (grown id data.length (appended id data db)) rfl]
    have hlate : ¬ n + 3 < 2 ∧ n + 3 ≠ 2 := by omega
    rw [if_neg hlate.1, if_neg hlate.2, RelayServer.answer, Handler.steps_pure]

theorem get?_grown (j : Bytes) (n : Nat) :
    (grown id n db).blobs.get? j = (db.blobs.get? j).map fun b => if b.blobId = id then { b with storedSize := b.storedSize + n } else b := by
  simp [grown, Table.get?_update]

theorem get?_appended (j : Bytes) :
    (appended id data db).staging.get? j = (db.staging.get? j).map fun f => if f.blobId = id then { f with content := f.content ++ data } else f := by
  simp [appended, Table.get?_update]

end chunk

/-- The row says how much there is, and the file is that much of the ciphertext. -/
structure Staged (cx : Crypto) (u : Upload) (o : Nat) (db : Db) : Prop where
  row : ∃ b, db.blobs.get? u.blobId = some b ∧ b.ownerIdentity = u.device.identityId ∧ b.readCapHash = cx.sha256 u.readCap ∧
    b.declaredSize = u.ciphertext.length ∧ b.storedSize = o ∧ b.state = .staging
  file : db.staging.get? u.blobId = some ⟨u.blobId, u.ciphertext.take o⟩
  unnamed : db.files.get? u.blobId = none
  fits : o ≤ u.ciphertext.length

section staged

variable {u : Upload} {o : Nat} {db : Db}

theorem Upload.slice_length (u : Upload) (offset n : Nat) : (u.slice offset n).length = min n (u.ciphertext.length - offset) := by
  simp [Upload.slice]

theorem Upload.take_slice (u : Upload) (o n : Nat) : u.ciphertext.take o ++ u.slice o n = u.ciphertext.take (o + (u.slice o n).length) := by
  rw [u.slice_length, Upload.slice, List.take_add]
  congr 1
  rw [List.take_eq_take_iff, List.length_drop]
  omega

theorem takes_staged (h : Staged cx u o db) {offset n : Nat} :
    takes u.device.identityId u.blobId offset (u.slice offset n) db = true ↔
      offset = o ∧ 0 < (u.slice offset n).length ∧ (u.slice offset n).length ≤ maxBlobChunk := by
  obtain ⟨b, hb, howner, -, hdeclared, hstored, hstate⟩ := h.row
  simp only [takes, hb, Option.any_some, howner, hstate, hstored, hdeclared, decide_true, Bool.true_and, Bool.and_eq_true, decide_eq_true_eq]
  constructor
  · rintro ⟨hlength, heq, -⟩
    exact ⟨heq.symm, hlength⟩
  · rintro ⟨rfl, hlength⟩
    refine ⟨hlength, rfl, ?_⟩
    have hslice := u.slice_length offset n
    have hfits := h.fits
    omega

theorem staged_chunk (h : Staged cx u o db) {n : Nat} (hslice : o + (u.slice o n).length ≤ u.ciphertext.length) :
    Staged cx u (o + (u.slice o n).length) (grown u.blobId (u.slice o n).length (appended u.blobId (u.slice o n) db)) := by
  obtain ⟨b, hb, howner, hcap, hdeclared, hstored, hstate⟩ := h.row
  refine ⟨⟨{ b with storedSize := b.storedSize + (u.slice o n).length }, ?_, howner, hcap, hdeclared, ?_, hstate⟩, ?_, h.unnamed, hslice⟩
  · have hid : b.blobId = u.blobId := (Table.get?_eq_some.1 hb).2
    have hget : (appended u.blobId (u.slice o n) db).blobs.get? u.blobId = some b := hb
    rw [get?_grown, hget]
    simp [hid]
  · rw [← hstored]
  · have hget : (grown u.blobId (u.slice o n).length (appended u.blobId (u.slice o n) db)).staging =
      (appended u.blobId (u.slice o n) db).staging := rfl
    rw [hget, get?_appended, h.file, ← u.take_slice]
    simp

theorem staged_restart (h : Staged cx u o db) : Staged cx u o (reconcile db) := by
  obtain ⟨b, hb, hrow⟩ := h.row
  have hget : (reconcile db).blobs.get? u.blobId = some b := by
    obtain ⟨hmem, hid⟩ := Table.get?_eq_some.1 hb
    refine Table.get?_eq_some.2 ⟨Table.mem_delete.2 ⟨hmem, ?_⟩, hid⟩
    rw [hid, h.unnamed]
    simp
  refine ⟨⟨b, hget, hrow⟩, ?_, ?_, h.fits⟩
  · obtain ⟨hmem, hid⟩ := Table.get?_eq_some.1 h.file
    refine Table.get?_eq_some.2 ⟨Table.mem_delete.2 ⟨hmem, ?_⟩, hid⟩
    have hsome : ((reconcile db).blobs.get? u.blobId).isNone = false := by rw [hget]; rfl
    exact hsome
  · refine Table.get?_eq_none.2 fun f hf hid => ?_
    exact Table.get?_eq_none.1 h.unnamed f (Table.mem_delete.1 hf).1 hid

def tears (u : Upload) (db : Db) : Event → Bool
  | .chunk offset n cut => decide (cut = 2) && takes u.device.identityId u.blobId offset (u.slice offset n) db
  | .restart => false

theorem staged_step (h : Staged cx u o db) {e : Event} (he : tears u db e = false) : ∃ o', Staged cx u o' (u.step cx db e) := by
  cases e with
  | restart => exact ⟨o, staged_restart h⟩
  | chunk offset n cut =>
    show ∃ o', Staged cx u o' (Handler.steps cut (blobChunk cx u.session u.blobId offset (u.slice offset n)) db).2
    have hmember : u.session.device = some u.device := rfl
    cases htakes : takes u.device.identityId u.blobId offset (u.slice offset n) db with
    | false =>
      cases cut with
      | zero => exact ⟨o, h⟩
      | succ k =>
        rw [(@blobChunk_refused cx u.device u.session u.blobId offset (u.slice offset n) db hmember htakes k).2]
        exact ⟨o, h⟩
    | true =>
      obtain ⟨rfl, hpos, hmax⟩ := (takes_staged h).1 htakes
      rw [blobChunk_steps hmember htakes h.file]
      have hcut : cut ≠ 2 := by
        rintro rfl
        simp [tears, htakes] at he
      split
      · exact ⟨offset, h⟩
      · have hslice := u.slice_length offset n
        have hfits := h.fits
        exact ⟨_, staged_chunk h (by omega)⟩

end staged

section going

variable {u : Upload} {o : Nat} {db : Db}

theorem staged_resume (h : Staged cx u o db) {n : Nat} (hn : 0 < n) (hmax : n ≤ maxBlobChunk) :
    Staged cx u (min (o + n) u.ciphertext.length) (u.resume cx n db) := by
  have hmember : u.session.device = some u.device := rfl
  obtain ⟨b, hb, howner, -, -, hstored, hstate⟩ := h.row
  have hoffset : (blobResume cx u.session u.blobId).finish db = (⟨.blobOffset o, none⟩, db) := by
    unfold blobResume whenMember
    rw [hmember]
    dsimp only
    rw [finish_blobCall_ok (blobRow_run hb howner), if_neg (not_not.2 hstate), hstored]
    rfl
  unfold Upload.resume
  rw [hoffset]
  dsimp only
  have hslice := u.slice_length o n
  have hfits := h.fits
  by_cases hdone : o = u.ciphertext.length
  · have hrefused : takes u.device.identityId u.blobId o (u.slice o n) db = false := by
      rw [Bool.eq_false_iff, ne_eq, takes_staged h]
      omega
    rw [(@blobChunk_refused cx u.device u.session u.blobId o (u.slice o n) db hmember hrefused 0).1]
    have hsame : min (o + n) u.ciphertext.length = o := by omega
    rw [hsame]
    exact h
  · have htakes : takes u.device.identityId u.blobId o (u.slice o n) db = true := (takes_staged h).2 (by omega)
    rw [blobChunk_finish hmember htakes h.file]
    have hmore := @staged_chunk cx u o db h n (by omega)
    have hsame : min (o + n) u.ciphertext.length = o + (u.slice o n).length := by omega
    rw [hsame]
    exact hmore

theorem staged_resumes (h : Staged cx u o db) {n : Nat} (hn : 0 < n) (hmax : n ≤ maxBlobChunk) (rounds : Nat) :
    Staged cx u (min (o + rounds * n) u.ciphertext.length) (u.resumes cx n rounds db) := by
  induction rounds generalizing o db with
  | zero =>
    have hsame : min (o + 0 * n) u.ciphertext.length = o := by
      have hfits := h.fits
      omega
    rw [hsame]
    exact h
  | succ rounds ih =>
    have hround := ih (staged_resume h hn hmax)
    have hsame : min (min (o + n) u.ciphertext.length + rounds * n) u.ciphertext.length =
        min (o + (rounds + 1) * n) u.ciphertext.length := by
      rw [Nat.succ_mul]
      omega
    rw [hsame] at hround
    exact hround

def readLength (length : Nat) : Nat := if length = 0 ∨ maxBlobChunk < length then maxBlobChunk else length

/-- Who asks for the offset and goes on from it ends with a blob that reads as the
ciphertext. -/
def Completes (cx : Crypto) (u : Upload) (db : Db) : Prop :=
  ∀ n rounds, 0 < n → n ≤ maxBlobChunk → u.ciphertext.length ≤ rounds * n → ∀ requestedExpiry now, ∃ expiry db',
    (blobCommit cx u.session u.blobId (cx.sha256 u.ciphertext) requestedExpiry now).finish (u.resumes cx n rounds db) =
      (⟨.blobCommitted expiry, none⟩, db') ∧
    ∀ (s : RelayServer.Session) (d : RelayStore.Device) (offset length : Nat) (now' : Int), s.device = some d → now' < expiry →
      (blobFetch cx s u.blobId u.readCap offset length now').finish db' =
        (⟨.blobData u.ciphertext.length (u.slice offset (readLength length)), none⟩, db')

/-- The file is renamed and the row says so. -/
def committed (id content : Bytes) (expiry : Int) (db : Db) : Db :=
  { db with
    staging := db.staging.delete fun g => g.blobId = id
    files := db.files.replace ⟨id, content⟩
    blobs := db.blobs.update (fun b => b.blobId = id) (fun b => { b with state := .committed, expiresAt := expiry }) (BlobRow.committed_key expiry) }

theorem staged_commit (h : Staged cx u u.ciphertext.length db) (requestedExpiry : UInt64) (now : Int) :
    (blobCommit cx u.session u.blobId (cx.sha256 u.ciphertext) requestedExpiry now).finish db =
      (⟨.blobCommitted (blobExpiry requestedExpiry.toInt64.toInt now), none⟩,
        committed u.blobId u.ciphertext (blobExpiry requestedExpiry.toInt64.toInt now) db) := by
  obtain ⟨b, hb, howner, hcap, hdeclared, hstored, hstate⟩ := h.row
  have hfile := h.file
  rw [List.take_length] at hfile
  have hread : Call.prog cx.sha256 (.stagingRead u.blobId) db = (.ok u.ciphertext, db) := by
    show stagingRead u.blobId db = _
    rw [stagingRead, bind_ok (require_eq_ok.2 ⟨hfile, rfl⟩)]
    rfl
  have hrename : Call.prog cx.sha256 (.stagingRename u.blobId) db = (.ok (),
      { db with staging := db.staging.delete fun g => g.blobId = u.blobId, files := db.files.replace ⟨u.blobId, u.ciphertext⟩ }) := by
    show stagingRename u.blobId db = _
    rw [stagingRename, bind_ok (require_eq_ok.2 ⟨hfile, rfl⟩)]
    rfl
  unfold blobCommit whenMember
  rw [show u.session.device = some u.device from rfl]
  dsimp only
  rw [finish_blobCall_ok (blobRow_run hb howner), if_neg (not_not.2 hstate), if_neg (not_not.2 (hstored.trans hdeclared.symm)),
    finish_blobCall_ok hread, if_neg (not_not.2 rfl), finish_blobCall_ok hrename]
  exact finish_blobCall_ok rfl

theorem committed_fetch (h : Staged cx u u.ciphertext.length db) {expiry : Int} {s : RelayServer.Session} {d : RelayStore.Device}
    (hs : s.device = some d) (offset length : Nat) {now : Int} (hnow : now < expiry) :
    (blobFetch cx s u.blobId u.readCap offset length now).finish (committed u.blobId u.ciphertext expiry db) =
      (⟨.blobData u.ciphertext.length (u.slice offset (readLength length)), none⟩, committed u.blobId u.ciphertext expiry db) := by
  obtain ⟨b, hb, howner, hcap, hdeclared, hstored, hstate⟩ := h.row
  have hid : b.blobId = u.blobId := (Table.get?_eq_some.1 hb).2
  have hrow : (committed u.blobId u.ciphertext expiry db).blobs.get? u.blobId = some { b with state := .committed, expiresAt := expiry } := by
    simp [committed, Table.get?_update, hb, hid]
  have hfile : (committed u.blobId u.ciphertext expiry db).files.get? u.blobId = some ⟨u.blobId, u.ciphertext⟩ :=
    Table.get?_eq_some.2 ⟨Table.mem_replace.2 (Or.inr rfl), rfl⟩
  have hreadable : Call.prog cx.sha256 (.blobReadable u.blobId u.readCap) (committed u.blobId u.ciphertext expiry db) =
      (.ok { b with state := .committed, expiresAt := expiry }, committed u.blobId u.ciphertext expiry db) :=
    require_eq_ok.2 ⟨by simp [hrow, hcap], rfl⟩
  unfold blobFetch whenMember
  rw [hs]
  dsimp only
  rw [finish_blobCall_ok hreadable, if_neg (not_le.2 hnow)]
  dsimp only
  rw [hstored]
  have hlength : 0 < readLength length := by
    unfold readLength
    split
    · decide
    · omega
  by_cases hpast : u.ciphertext.length ≤ offset
  · rw [if_pos hpast]
    have hslice : u.slice offset (readLength length) = [] := by
      rw [Upload.slice, List.drop_eq_nil_of_le hpast, List.take_nil]
    rw [hslice]
    rfl
  · rw [if_neg hpast]
    have hread : Call.prog cx.sha256 (.fileRead u.blobId offset (readLength length)) (committed u.blobId u.ciphertext expiry db) =
        (.ok (u.slice offset (readLength length)), committed u.blobId u.ciphertext expiry db) := by
      show fileRead u.blobId offset (readLength length) _ = _
      rw [fileRead, bind_ok (require_eq_ok.2 ⟨hfile, rfl⟩)]
      have hsome : (u.ciphertext.drop offset).take (readLength length) ≠ [] := by
        intro hnil
        have hzero := congrArg List.length hnil
        rw [List.length_take, List.length_drop, List.length_nil] at hzero
        omega
      rw [if_neg hsome]
      rfl
    exact finish_blobCall_ok hread

theorem staged_completes (h : Staged cx u o db) : Completes cx u db := by
  intro n rounds hn hmax hrounds requestedExpiry now
  have hall : Staged cx u u.ciphertext.length (u.resumes cx n rounds db) := by
    have hresumed := staged_resumes h hn hmax rounds
    have hsame : min (o + rounds * n) u.ciphertext.length = u.ciphertext.length := by omega
    rw [hsame] at hresumed
    exact hresumed
  refine ⟨_, _, staged_commit hall requestedExpiry now, fun s d offset length now' hs hnow => ?_⟩
  exact committed_fetch hall hs offset length hnow

end going

/-- What a successful begin leaves: a row in staging and an empty file. -/
structure Begins (sha256 : Bytes → Bytes) (identity id readCap : Bytes) (size : Nat) (now : Int) (db db' : Db) : Prop where
  size_ok : 0 < size ∧ size ≤ maxBlobBytes
  within : committedBytes identity db + size ≤ quotaPerIdentity
  blobs : db.blobs.insert ⟨id, identity, sha256 readCap, size, 0, .staging, coarseHour now, 0⟩ = some db'.blobs
  staging : db.staging.insert ⟨id, []⟩ = some db'.staging
  files : db'.files = db.files

theorem blobUploadBegin_begins {s : RelayServer.Session} {d : RelayStore.Device} (hs : s.device = some d) {size : Nat} {id readCap : Bytes}
    {now : Int} {db db' : Db} {o : Outcome} (h : (blobUploadBegin cx s size id readCap now).finish db = (o, db')) (ho : o.answer.success = true) :
    Begins cx.sha256 d.identityId id readCap size now db db' := by
  unfold blobUploadBegin whenMember at h
  rw [hs] at h
  dsimp only at h
  split at h
  · rw [blobError_fails h] at ho
    cases ho
  next hsize =>
  obtain ⟨used, db₁, hused, h⟩ := finish_blobCall_success h ho
  obtain ⟨rfl, rfl⟩ : committedBytes d.identityId db = used ∧ db = db₁ := by
    obtain ⟨hused, hdb⟩ := Prod.mk.inj hused
    exact ⟨Except.ok.inj hused, hdb⟩
  split at h
  · rw [blobError_fails h] at ho
    cases ho
  next hquota =>
  obtain ⟨_, db₁, hinsert, h⟩ := finish_blobCall_success h ho
  obtain ⟨_, db₂, hcreate, h⟩ := finish_blobCall_success h ho
  obtain ⟨-, rfl⟩ := Prod.mk.inj h
  have hadd := insertRow_eq_ok.1 hinsert
  unfold addBlob at hadd
  split at hadd
  · cases hadd
  obtain ⟨t, ht, rfl⟩ := Option.map_eq_some_iff.1 hadd
  have hfile := insertRow_eq_ok.1 (show stagingCreate id _ = (.ok _, db₂) from hcreate)
  obtain ⟨t', ht', rfl⟩ := Option.map_eq_some_iff.1 hfile
  exact ⟨by omega, not_lt.1 hquota, ht, ht', rfl⟩

theorem begins_staged {u : Upload} {now : Int} {db db' : Db} (hunnamed : db.files.get? u.blobId = none)
    (h : Begins cx.sha256 u.device.identityId u.blobId u.readCap u.ciphertext.length now db db') : Staged cx u 0 db' := by
  refine ⟨⟨_, Table.get?_eq_some.2 ⟨(Table.mem_insert h.blobs).2 (Or.inr rfl), rfl⟩, rfl, rfl, rfl, rfl, rfl⟩, ?_, ?_, Nat.zero_le _⟩
  · rw [List.take_zero]
    exact Table.get?_eq_some.2 ⟨(Table.mem_insert h.staging).2 (Or.inr rfl), rfl⟩
  · rw [h.files]
    exact hunnamed

/-- However often chunk calls are cut off and the relay starts again: unless one is cut off
between file and row, whoever goes on from the offset the relay tells completes the upload.
The id was drawn for it, so no file has it yet. -/
theorem interrupted_uploads_complete (cx : Crypto) (u : Upload) (now : Int) (db db' : Db) (hunnamed : db.files.get? u.blobId = none)
    (hbegin : (blobUploadBegin cx u.session u.ciphertext.length u.blobId u.readCap now).finish db =
      (⟨.blobUploadStarted u.blobId u.readCap, none⟩, db'))
    (evs : List Event) (h : Trace.Meets (u.step cx) (fun db e => tears u db e = false) db' evs) :
    Completes cx u (Trace.run (u.step cx) db' evs) := by
  have hstart : Staged cx u 0 db' := begins_staged hunnamed (@blobUploadBegin_begins cx u.session u.device rfl _ _ _ _ _ _ _ hbegin rfl)
  obtain ⟨o, hstaged⟩ := Trace.invariant (I := fun db => ∃ o, Staged cx u o db)
    (fun db e he ⟨o, ho⟩ => staged_step ho he) h ⟨0, hstart⟩
  exact staged_completes hstaged

section example_run

open Demo

def letter : Upload := ⟨[1, 3], ⟨[1, 2], memberId 1, deviceId 1, .active, 10 ^ 9⟩, [7], [8], [5, 6]⟩

def letterStart : Db := Trace.run (fun db c => (c.prog crypto.sha256 db).2) .empty (joins 1)

def letterBegun : Db := ((blobUploadBegin crypto letter.session 2 letter.blobId letter.readCap 10).finish letterStart).2

/-- The first byte is sent twice: the first call is cut off after its checks, and the relay
starts again. -/
def letterRun : List Event := [.chunk 0 1 1, .restart, .chunk 0 1 3]

theorem letter_arrives : letterStart.files.get? letter.blobId = none ∧
    (blobUploadBegin crypto letter.session letter.ciphertext.length letter.blobId letter.readCap 10).finish letterStart =
      (⟨.blobUploadStarted letter.blobId letter.readCap, none⟩, letterBegun) ∧
    Trace.Meets (letter.step crypto) (fun db e => tears letter db e = false) letterBegun letterRun ∧
    Completes crypto letter (Trace.run (letter.step crypto) letterBegun letterRun) := by
  have hunnamed : letterStart.files.get? letter.blobId = none := by rfl
  have hbegin : (blobUploadBegin crypto letter.session letter.ciphertext.length letter.blobId letter.readCap 10).finish letterStart =
      (⟨.blobUploadStarted letter.blobId letter.readCap, none⟩, letterBegun) := by rfl
  have hmeets : Trace.Meets (letter.step crypto) (fun db e => tears letter db e = false) letterBegun letterRun := by decide +kernel
  exact ⟨hunnamed, hbegin, hmeets, interrupted_uploads_complete crypto letter 10 letterStart letterBegun hunnamed hbegin letterRun hmeets⟩

/-- The first byte is in the file twice when the call is cut off before it counts it. -/
theorem torn_letter_is_lost :
    (blobUploadBegin crypto letter.session letter.ciphertext.length letter.blobId letter.readCap 10).finish letterStart =
      (⟨.blobUploadStarted letter.blobId letter.readCap, none⟩, letterBegun) ∧
    ((blobCommit crypto letter.session letter.blobId (crypto.sha256 letter.ciphertext) 0 20).finish
      (letter.resumes crypto 2 1 (Trace.run (letter.step crypto) letterBegun [.chunk 0 1 2]))).1.answer =
        .error 409 "blob: ciphertext hash does not match" ∧
    ¬ Completes crypto letter (Trace.run (letter.step crypto) letterBegun [.chunk 0 1 2]) := by
  have hrefused : ((blobCommit crypto letter.session letter.blobId (crypto.sha256 letter.ciphertext) 0 20).finish
      (letter.resumes crypto 2 1 (Trace.run (letter.step crypto) letterBegun [.chunk 0 1 2]))).1.answer =
        .error 409 "blob: ciphertext hash does not match" := by decide +kernel
  refine ⟨rfl, hrefused, fun h => ?_⟩
  obtain ⟨expiry, db', hcommit, -⟩ := h 2 1 (by decide) (by decide) (by decide) 0 20
  have hanswer := congrArg (fun r => r.1.answer) hcommit
  dsimp only at hanswer
  rw [hrefused] at hanswer
  cases hanswer

end example_run

end Arveil.Blobs

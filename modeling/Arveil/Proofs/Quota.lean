import Arveil.Proofs.Uploads

/-! The quota of an identity. It is checked against what is committed when an upload begins, and
charged when it is committed; it is kept as long as the uploads that are open have room too. -/

namespace Arveil.Blobs

open Prog RelayStore RelayServer

variable {cx : Crypto}

def charge (identity : Bytes) (b : BlobRow) : Nat :=
  if b.ownerIdentity = identity && b.state = .committed then b.storedSize else 0

/-- What a row counts for once its upload is complete. -/
def claim (identity : Bytes) (b : BlobRow) : Nat :=
  if b.ownerIdentity = identity then if b.state = .committed then b.storedSize else b.declaredSize else 0

/-- The bytes an identity has committed, and those its open uploads may still commit. -/
def claimedBytes (identity : Bytes) (db : Db) : Nat := db.blobs.sum (claim identity)

/-- A begin that the relay lets through leaves room for the uploads that are open. -/
def reserves (db : Db) : Act → Bool
  | .begin s size _ _ _ => s.device.all fun d =>
    !(decide (0 < size ∧ size ≤ maxBlobBytes ∧ committedBytes d.identityId db + size ≤ quotaPerIdentity)) ||
      decide (claimedBytes d.identityId db + size ≤ quotaPerIdentity)
  | _ => true

theorem committedBytes_eq (identity : Bytes) (db : Db) : committedBytes identity db = db.blobs.sum (charge identity) := by
  unfold committedBytes Table.sum
  induction db.blobs.rows with
  | nil => rfl
  | cons b rows ih =>
    rw [List.filter_cons, List.map_cons, List.sum_cons, ← ih, charge]
    split <;> simp

theorem charge_le_claim (identity : Bytes) (b : BlobRow) : charge identity b ≤ claim identity b := by
  unfold charge claim
  by_cases howner : b.ownerIdentity = identity <;> by_cases hstate : b.state = .committed <;> simp [howner, hstate]

theorem committedBytes_le (identity : Bytes) (db : Db) : committedBytes identity db ≤ claimedBytes identity db := by
  rw [committedBytes_eq]
  exact Table.sum_le fun b _ => charge_le_claim identity b

/-- What a call does to the rows: nothing, one more upload, a row further on, or fewer rows. -/
inductive Writes (sha256 : Bytes → Bytes) (db db' : Db) : Act → Prop
  | same {a} (h : db'.blobs = db.blobs) : Writes sha256 db db' a
  | begun {s : RelayServer.Session} {d : RelayStore.Device} {size : Nat} {id readCap : Bytes} {now : Int} (hs : s.device = some d)
      (hsize : 0 < size ∧ size ≤ maxBlobBytes) (hroom : committedBytes d.identityId db + size ≤ quotaPerIdentity)
      (h : db.blobs.insert ⟨id, d.identityId, sha256 readCap, size, 0, .staging, coarseHour now, 0⟩ = some db'.blobs) :
      Writes sha256 db db' (.begin s size id readCap now)
  | grew {s id offset data} {b : BlobRow} (hb : db.blobs.get? id = some b) (hstate : b.state = .staging)
      (h : db'.blobs = (grown id data.length db).blobs) : Writes sha256 db db' (.chunk s id offset data)
  | done {s id hash requestedExpiry now content expiry} {b : BlobRow} (hb : db.blobs.get? id = some b) (hstate : b.state = .staging)
      (hsize : b.storedSize = b.declaredSize) (h : db'.blobs = (committed id content expiry db).blobs) :
      Writes sha256 db db' (.commit s id hash requestedExpiry now)
  | swept {now p} (h : db'.blobs = db.blobs.delete p) : Writes sha256 db db' (.sweep now)

section writes

variable {db : Db} {s : RelayServer.Session}

theorem whenMember_none (hs : s.device = none) (k : RelayStore.Device → Handles cx Outcome) : ((whenMember cx s k).finish db).2 = db := by
  unfold whenMember
  rw [hs]
  rfl

theorem blobs_after {c : Call} {r : Except StoreError c.Result} {db' : Db} (h : c.prog cx.sha256 db = (r, db'))
    (hc : Part.blobs ∉ writes c) : db'.blobs = db.blobs := by
  have hpart := @part_call cx.sha256 c db Part.blobs hc
  rw [h] at hpart
  exact hpart

theorem blobCall_writes {a : Act} {db₀ : Db} {c : Call} {k : c.Result → Handles cx Outcome}
    (hfail : ∀ e db', c.prog cx.sha256 db = (.error e, db') → Writes cx.sha256 db₀ db' a)
    (hok : ∀ r db', c.prog cx.sha256 db = (.ok r, db') → Writes cx.sha256 db₀ ((k r).finish db').2 a) :
    Writes cx.sha256 db₀ ((blobCall cx c k).finish db).2 a := by
  rcases hrun : c.prog cx.sha256 db with ⟨e | r, db'⟩
  · rw [finish_blobCall_error hrun]
    exact hfail e db' hrun
  · rw [finish_blobCall_ok hrun]
    exact hok r db' hrun

theorem begin_writes (size : Nat) (id readCap : Bytes) (now : Int) :
    Writes cx.sha256 db (act cx db (.begin s size id readCap now)) (.begin s size id readCap now) := by
  show Writes cx.sha256 db ((blobUploadBegin cx s size id readCap now).finish db).2 _
  cases hs : s.device with
  | none =>
    rw [blobUploadBegin, whenMember_none hs]
    exact .same rfl
  | some d =>
    unfold blobUploadBegin whenMember
    rw [hs]
    dsimp only
    split
    · rw [finish_blobError]
      exact .same rfl
    next hsize =>
    have husage : Call.prog cx.sha256 (.blobUsage d.identityId) db = (.ok (committedBytes d.identityId db), db) := rfl
    rw [finish_blobCall_ok husage]
    split
    · rw [finish_blobError]
      exact .same rfl
    next hroom =>
    refine blobCall_writes (fun e db' hrun => ?_) fun _ db₁ hinsert => ?_
    · rw [insertRow_eq_error hrun]
      exact .same rfl
    have hadd := insertRow_eq_ok.1 hinsert
    unfold addBlob at hadd
    split at hadd
    · cases hadd
    obtain ⟨t, ht, rfl⟩ := Option.map_eq_some_iff.1 hadd
    -- the row is there whether or not its file can be made
    have hbegun : ∀ {r db'}, Call.prog cx.sha256 (.stagingCreate id) { db with blobs := t } = (r, db') →
        Writes cx.sha256 db db' (.begin s size id readCap now) := by
      intro r db' hcreate
      have hblobs : db'.blobs = t := blobs_after hcreate (by simp [writes])
      exact .begun hs (by omega) (not_lt.1 hroom) (hblobs ▸ ht)
    exact blobCall_writes (fun e db' hcreate => hbegun hcreate) fun _ db' hcreate => hbegun hcreate

theorem chunk_writes (id : Bytes) (offset : Nat) (data : Bytes) :
    Writes cx.sha256 db (act cx db (.chunk s id offset data)) (.chunk s id offset data) := by
  show Writes cx.sha256 db ((blobChunk cx s id offset data).finish db).2 _
  cases hs : s.device with
  | none =>
    rw [blobChunk, whenMember_none hs]
    exact .same rfl
  | some d =>
    cases htakes : takes d.identityId id offset data db with
    | false =>
      rw [(@blobChunk_refused cx d s id offset data db hs htakes 0).1]
      exact .same rfl
    | true =>
      have hrow := htakes
      simp only [takes, Bool.and_eq_true, decide_eq_true_eq, Option.any_eq_true] at hrow
      obtain ⟨-, b, hb, ⟨⟨-, hstate⟩, -⟩, -⟩ := hrow
      rw [(@blobChunk_taken cx d s id offset data db hs htakes 0).1]
      refine blobCall_writes (fun e db' hrun => .same (blobs_after hrun (by simp [writes]))) fun _ db₁ hrun => .grew hb hstate ?_
      show (grown id data.length db₁).blobs = _
      rw [grown, blobs_after hrun (by simp [writes]), grown]

theorem commit_writes (id hash : Bytes) (requestedExpiry : UInt64) (now : Int) :
    Writes cx.sha256 db (act cx db (.commit s id hash requestedExpiry now)) (.commit s id hash requestedExpiry now) := by
  show Writes cx.sha256 db ((blobCommit cx s id hash requestedExpiry now).finish db).2 _
  cases hs : s.device with
  | none =>
    rw [blobCommit, whenMember_none hs]
    exact .same rfl
  | some d =>
    unfold blobCommit whenMember
    rw [hs]
    dsimp only
    rcases @blobRow_cases cx id d.identityId db with ⟨e, hrun, -⟩ | ⟨b, hrun, hb, -⟩
    · rw [finish_blobCall_error hrun]
      exact .same rfl
    rw [finish_blobCall_ok hrun]
    split
    · rw [finish_blobError]
      exact .same rfl
    next hstate =>
    split
    · rw [finish_blobError]
      exact .same rfl
    next hsize =>
    refine blobCall_writes (fun e db' hread => .same (blobs_after hread (by simp [writes]))) fun content db₁ hread => ?_
    have hblobs : db₁.blobs = db.blobs := blobs_after hread (by simp [writes])
    split
    · rw [finish_blobError]
      exact .same hblobs
    refine blobCall_writes (fun e db' hrename => .same ((blobs_after hrename (by simp [writes])).trans hblobs)) fun _ db₂ hrename => ?_
    have hblobs₂ : db₂.blobs = db.blobs := (blobs_after hrename (by simp [writes])).trans hblobs
    refine @Writes.done _ _ _ s id hash requestedExpiry now content (blobExpiry requestedExpiry.toInt64.toInt now) b hb (not_not.1 hstate)
      (not_not.1 hsize) ?_
    show (committed id content (blobExpiry requestedExpiry.toInt64.toInt now) db₂).blobs = _
    rw [committed, hblobs₂, committed]

theorem act_writes (db : Db) (a : Act) : Writes cx.sha256 db (act cx db a) a := by
  cases a with
  | begin s size id readCap now => exact begin_writes size id readCap now
  | chunk s id offset data => exact chunk_writes id offset data
  | commit s id hash requestedExpiry now => exact commit_writes id hash requestedExpiry now
  | sweep now => exact .swept rfl

end writes

section runs

variable {db db' : Db} {a : Act} {identity : Bytes}

theorem claimedBytes_writes (h : Writes cx.sha256 db db' a) (ha : reserves db a = true) (hdb : claimedBytes identity db ≤ quotaPerIdentity) :
    claimedBytes identity db' ≤ quotaPerIdentity := by
  unfold claimedBytes at hdb ⊢
  cases h with
  | same h => rwa [h]
  | @begun s d size id readCap now hs hsize hroom h =>
    have hclaim : claim identity ⟨id, d.identityId, cx.sha256 readCap, size, 0, .staging, coarseHour now, 0⟩ =
        if d.identityId = identity then size else 0 := by simp [claim]
    rw [Table.sum_insert h, hclaim]
    by_cases howner : d.identityId = identity
    · simp only [reserves, hs, Option.all_some, hsize.1, hsize.2, hroom, and_self, decide_true, Bool.not_true, Bool.false_or,
        decide_eq_true_eq] at ha
      rw [if_pos howner, ← howner]
      exact ha
    · rw [if_neg howner]
      exact hdb
  | grew hb hstate h =>
    rw [h, grown]
    dsimp only
    rw [Table.sum_update_same fun b' hb' hid => ?_]
    · exact hdb
    · obtain rfl := Table.eq_of_key hb' (Table.get?_eq_some.1 hb).1 ((of_decide_eq_true hid).trans (Table.get?_eq_some.1 hb).2.symm)
      simp [claim, hstate]
  | done hb hstate hsize h =>
    rw [h, committed]
    dsimp only
    rw [Table.sum_update_same fun b' hb' hid => ?_]
    · exact hdb
    · obtain rfl := Table.eq_of_key hb' (Table.get?_eq_some.1 hb).1 ((of_decide_eq_true hid).trans (Table.get?_eq_some.1 hb).2.symm)
      simp [claim, hstate, hsize]
  | swept h =>
    rw [h]
    exact (Table.sum_delete_le _ _).trans hdb

/-- From a relay without blobs on, no identity commits more than its quota, as long as no
upload begins that the open ones leave no room for. -/
theorem committed_within_quota (cx : Crypto) (db : Db) (hempty : db.blobs.rows = []) (acts : List Act)
    (h : Trace.Meets (act cx) (fun db a => reserves db a = true) db acts) (acts₁ : List Act) (hpre : acts₁ <+: acts) (identity : Bytes) :
    committedBytes identity (Trace.run (act cx) db acts₁) ≤ quotaPerIdentity := by
  obtain ⟨acts₂, rfl⟩ := hpre
  have hstart : claimedBytes identity db ≤ quotaPerIdentity := by
    unfold claimedBytes Table.sum
    rw [hempty]
    exact Nat.zero_le _
  refine (committedBytes_le identity _).trans ?_
  exact Trace.invariant (I := fun db => claimedBytes identity db ≤ quotaPerIdentity) (fun db a ha hdb => claimedBytes_writes (act_writes db a) ha hdb) (Trace.meets_append.1 h).1 hstart

end runs

section crowd

structure Beside (id : Bytes) (db db' : Db) : Prop where
  blobs : ∀ j, j ≠ id → db'.blobs.get? j = db.blobs.get? j
  staging : ∀ j, j ≠ id → db'.staging.get? j = db.staging.get? j
  files : ∀ j, j ≠ id → db'.files.get? j = db.files.get? j

variable {id : Bytes} {db db' db₁ : Db} {u : Upload} {o n : Nat}

theorem Beside.trans (h : Beside id db db₁) (h' : Beside id db₁ db') : Beside id db db' :=
  ⟨fun j hj => (h'.blobs j hj).trans (h.blobs j hj), fun j hj => (h'.staging j hj).trans (h.staging j hj),
    fun j hj => (h'.files j hj).trans (h.files j hj)⟩

theorem staged_beside (h : Staged cx u o db) (hb : Beside id db db') (hid : u.blobId ≠ id) : Staged cx u o db' := by
  refine ⟨?_, ?_, ?_, h.fits⟩
  · rw [hb.blobs _ hid]
    exact h.row
  · rw [hb.staging _ hid]
    exact h.file
  · rw [hb.files _ hid]
    exact h.unnamed

theorem get?_map_ne {ρ : Type} {key : ρ → Bytes} (t : Table key) (f : ρ → ρ) {j : Bytes} (hj : j ≠ id) :
    ((t.get? j).map fun r => if key r = id then f r else r) = t.get? j := by
  cases hr : t.get? j with
  | none => rfl
  | some r =>
    have hkey : key r ≠ id := (Table.get?_eq_some.1 hr).2 ▸ hj
    simp [hkey]

theorem beside_chunk (data : Bytes) : Beside id db (grown id data.length (appended id data db)) :=
  ⟨fun j hj => (get?_grown j _).trans (get?_map_ne db.blobs _ hj), fun j hj => (get?_appended j).trans (get?_map_ne db.staging _ hj),
    fun _ _ => rfl⟩

theorem beside_commit (content : Bytes) (expiry : Int) : Beside id db (committed id content expiry db) := by
  refine ⟨fun j hj => ?_, fun j hj => ?_, fun j hj => ?_⟩
  · rw [← get?_map_ne db.blobs (fun b => { b with state := .committed, expiresAt := expiry }) hj]
    simp [committed, Table.get?_update]
  · cases hf : db.staging.get? j with
    | none => exact Table.get?_eq_none.2 fun g hg => Table.get?_eq_none.1 hf g (Table.mem_delete.1 hg).1
    | some f =>
      obtain ⟨hmem, hid⟩ := Table.get?_eq_some.1 hf
      exact Table.get?_eq_some.2 ⟨Table.mem_delete.2 ⟨hmem, by simp [hid, hj]⟩, hid⟩
  · cases hf : db.files.get? j with
    | none =>
      refine Table.get?_eq_none.2 fun g hg hkey => ?_
      rcases Table.mem_replace.1 hg with ⟨hmem, -⟩ | rfl
      · exact Table.get?_eq_none.1 hf g hmem hkey
      · exact hj hkey.symm
    | some f =>
      obtain ⟨hmem, hid⟩ := Table.get?_eq_some.1 hf
      exact Table.get?_eq_some.2 ⟨Table.mem_replace.2 (Or.inl ⟨hmem, hid ▸ hj⟩), hid⟩

theorem charge_chunk (h : Staged cx u o db) (identity data : Bytes) :
    committedBytes identity (grown u.blobId data.length (appended u.blobId data db)) = committedBytes identity db := by
  obtain ⟨b, hb, -, -, -, -, hstate⟩ := h.row
  rw [committedBytes_eq, committedBytes_eq, grown]
  dsimp only
  rw [Table.sum_update_same fun b' hb' hid => ?_]
  · rfl
  obtain rfl := Table.eq_of_key hb' (Table.get?_eq_some.1 hb).1 ((of_decide_eq_true hid).trans (Table.get?_eq_some.1 hb).2.symm)
  simp [charge, hstate]

theorem charge_commit (h : Staged cx u u.ciphertext.length db) (content : Bytes) (expiry : Int) :
    committedBytes u.device.identityId (committed u.blobId content expiry db) =
      committedBytes u.device.identityId db + u.ciphertext.length := by
  obtain ⟨b, hb, howner, -, -, hstored, hstate⟩ := h.row
  have hsum := @Table.sum_update_key BlobRow Bytes (·.blobId) _ (charge u.device.identityId)
    (fun b => { b with state := .committed, expiresAt := expiry }) (fun _ => rfl) db.blobs u.blobId b hb
  simp only [charge, howner, hstate, hstored] at hsum
  rw [committedBytes_eq, committedBytes_eq, committed]
  simpa [charge] using hsum

/-- The calls that upload a ciphertext in pieces from an offset on, and then commit it. -/
def Upload.sends (cx : Crypto) (u : Upload) (n : Nat) : Nat → Nat → List Act
  | 0, _ => [.commit u.session u.blobId (cx.sha256 u.ciphertext) 0 20]
  | rounds + 1, offset => .chunk u.session u.blobId offset (u.slice offset n) :: Upload.sends cx u n rounds (offset + n)

theorem staged_send (h : Staged cx u o db) (hn : 0 < n) (hmax : n ≤ maxBlobChunk) (hmore : o + n ≤ u.ciphertext.length) :
    ∃ db', act cx db (.chunk u.session u.blobId o (u.slice o n)) = db' ∧ Staged cx u (o + n) db' ∧ Beside u.blobId db db' ∧
      committedBytes u.device.identityId db' = committedBytes u.device.identityId db := by
  have hslice : (u.slice o n).length = n := by
    rw [u.slice_length]
    omega
  have htakes : takes u.device.identityId u.blobId o (u.slice o n) db = true := (takes_staged h).2 (by omega)
  have hstaged := @staged_chunk cx u o db h n (by omega)
  rw [hslice] at hstaged
  refine ⟨grown u.blobId (u.slice o n).length (appended u.blobId (u.slice o n) db), ?_, ?_, beside_chunk _, charge_chunk h _ _⟩
  · show ((blobChunk cx u.session u.blobId o (u.slice o n)).finish db).2 = _
    rw [blobChunk_finish rfl htakes h.file]
  · rw [hslice]
    exact hstaged

theorem sends_run (hn : 0 < n) (hmax : n ≤ maxBlobChunk) {rounds : Nat} (h : Staged cx u o db) (hlength : u.ciphertext.length = o + rounds * n) :
    ∃ db', Trace.run (act cx) db (u.sends cx n rounds o) = db' ∧ Beside u.blobId db db' ∧
      committedBytes u.device.identityId db' = committedBytes u.device.identityId db + u.ciphertext.length := by
  induction rounds generalizing o db with
  | zero =>
    obtain rfl : o = u.ciphertext.length := by omega
    refine ⟨_, ?_, beside_commit u.ciphertext _, charge_commit h u.ciphertext (blobExpiry (0 : UInt64).toInt64.toInt 20)⟩
    show ((blobCommit cx u.session u.blobId (cx.sha256 u.ciphertext) 0 20).finish db).2 = _
    rw [staged_commit h]
  | succ rounds ih =>
    rw [Nat.succ_mul] at hlength
    obtain ⟨db₁, hact, hstaged, hbeside, hcharge⟩ := staged_send h hn hmax (by omega)
    obtain ⟨db', hrun, hrest, hcharge'⟩ := ih hstaged (by omega)
    refine ⟨db', ?_, hbeside.trans hrest, by rw [hcharge', hcharge]⟩
    rw [Upload.sends, Trace.run_cons, hact, hrun]

/-- Uploads that are all open when the first is committed are all committed. -/
theorem crowd_commits (hn : 0 < n) (hmax : n ≤ maxBlobChunk) {rounds : Nat} {identity : Bytes} {us : List Upload}
    (hids : (us.map (·.blobId)).Nodup) (h : ∀ u ∈ us, Staged cx u 0 db) (howner : ∀ u ∈ us, u.device.identityId = identity)
    (hlength : ∀ u ∈ us, u.ciphertext.length = rounds * n) :
    committedBytes identity (Trace.run (act cx) db (us.flatMap fun u => u.sends cx n rounds 0)) =
      committedBytes identity db + us.length * (rounds * n) := by
  induction us generalizing db with
  | nil => simp
  | cons u us ih =>
    have hu := List.mem_cons_self (a := u) (l := us)
    rw [List.map_cons, List.nodup_cons] at hids
    obtain ⟨db₁, hrun, hbeside, hcharge⟩ := sends_run hn hmax (h u hu) (by rw [hlength u hu, Nat.zero_add])
    rw [howner u hu, hlength u hu] at hcharge
    have hrest := @ih db₁ hids.2 (fun u' hu' => ?_) (fun u' hu' => howner u' (List.mem_cons_of_mem u hu'))
      fun u' hu' => hlength u' (List.mem_cons_of_mem u hu')
    · rw [List.flatMap_cons, Trace.run_append, hrun, hrest, hcharge, List.length_cons, Nat.succ_mul]
      omega
    · refine staged_beside (h u' (List.mem_cons_of_mem u hu')) hbeside fun hid => hids.1 ?_
      rw [← hid]
      exact List.mem_map_of_mem hu'

end crowd

section example_run

open Demo

def postscript : Upload := ⟨[1, 3], ⟨[1, 2], memberId 1, deviceId 1, .active, 10 ^ 9⟩, [9], [8], [6, 5]⟩

/-- Two uploads are open at once; their chunks and commits take turns. -/
def letterActs : List Act :=
  .begin letter.session 2 letter.blobId letter.readCap 10 :: .begin postscript.session 2 postscript.blobId postscript.readCap 10 ::
    (List.zipWith (fun a b => [a, b]) (letter.sends crypto 1 2 0) (postscript.sends crypto 1 2 0)).flatten ++ ([.sweep 30] : List Act)

theorem letter_within_quota : letterStart.blobs.rows = [] ∧
    Trace.Meets (act crypto) (fun db a => reserves db a = true) letterStart letterActs ∧
    committedBytes (memberId 1) (Trace.run (act crypto) letterStart letterActs) = 4 ∧
    committedBytes (memberId 1) (Trace.run (act crypto) letterStart letterActs) ≤ quotaPerIdentity := by
  have hmeets : Trace.Meets (act crypto) (fun db a => reserves db a = true) letterStart letterActs := by decide +kernel
  exact ⟨rfl, hmeets, by decide +kernel,
    committed_within_quota crypto letterStart rfl letterActs hmeets letterActs List.prefix_rfl (memberId 1)⟩

/-- Each of nine uploads is within the quota, with nothing committed. -/
def parcel (n : UInt8) : Upload :=
  ⟨[1, 3], ⟨[1, 2], memberId 1, deviceId 1, .active, 10 ^ 9⟩, [n], [8], List.replicate maxBlobBytes 0⟩

def parcels : List Upload := [1, 2, 3, 4, 5, 6, 7, 8, 9].map parcel

def parcelsBegun : List Act := parcels.map fun u => .begin u.session maxBlobBytes u.blobId u.readCap 10

theorem parcels_staged {u : Upload} (hu : u ∈ parcels) : Staged crypto u 0 (Trace.run (act crypto) letterStart parcelsBegun) := by
  have hheld : ∀ n ∈ ([1, 2, 3, 4, 5, 6, 7, 8, 9] : List UInt8),
      (Trace.run (act crypto) letterStart parcelsBegun).blobs.get? [n] =
        some ⟨[n], memberId 1, crypto.sha256 [8], maxBlobBytes, 0, .staging, coarseHour 10, 0⟩ ∧
      (Trace.run (act crypto) letterStart parcelsBegun).staging.get? [n] = some ⟨[n], []⟩ ∧
      (Trace.run (act crypto) letterStart parcelsBegun).files.get? [n] = none := by decide +kernel
  obtain ⟨n, hn, rfl⟩ := List.mem_map.1 hu
  obtain ⟨hrow, hfile, hunnamed⟩ := hheld n hn
  exact ⟨⟨_, hrow, rfl, rfl, (List.length_replicate ..).symm, rfl, rfl⟩, hfile, hunnamed, Nat.zero_le _⟩

/-- Nine uploads of the largest size begin before the first is committed, and are committed
one after the other. -/
theorem crowd_exceeds_the_quota : letterStart.blobs.rows = [] ∧
    quotaPerIdentity < committedBytes (memberId 1)
      (Trace.run (act crypto) letterStart (parcelsBegun ++ parcels.flatMap fun u => u.sends crypto 51200 512 0)) := by
  refine ⟨rfl, ?_⟩
  have hstart : committedBytes (memberId 1) (Trace.run (act crypto) letterStart parcelsBegun) = 0 := by decide +kernel
  have hmember : ∀ u ∈ parcels, u.device.identityId = memberId 1 ∧ u.ciphertext.length = 512 * 51200 := by
    intro u hu
    obtain ⟨n, -, rfl⟩ := List.mem_map.1 hu
    exact ⟨rfl, List.length_replicate ..⟩
  rw [Trace.run_append, crowd_commits (by decide) (by decide) (by decide) (fun u hu => parcels_staged hu) (fun u hu => (hmember u hu).1)
    fun u hu => (hmember u hu).2, hstart]
  decide

end example_run

end Arveil.Blobs

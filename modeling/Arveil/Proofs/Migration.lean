import Arveil.Proofs.Expiry

/-! The migration of a schema 5 queue. Every envelope is kept under its number and every
mailbox goes on above all of them, unless the old numbers have run up to the largest integer
or an expiry lies so far from the moment that the two roundings differ. -/

namespace Arveil.RelayMigration

open RelayQueue (QueuedEnvelope fetchEnvelopes)
open RelayExpiry (SameRounding sameRounding_iff)

theorem le_foldr_max {ns : List Nat} {n : Nat} (h : n ∈ ns) : n ≤ ns.foldr max 0 := by
  induction ns with
  | nil => cases h
  | cons m ns ih =>
    rcases List.mem_cons.1 h with rfl | h
    · exact le_max_left _ _
    · exact le_trans (ih h) (le_max_right _ _)

theorem foldr_max_mem (ns : List Nat) : ns.foldr max 0 = 0 ∨ ns.foldr max 0 ∈ ns := by
  induction ns with
  | nil => exact Or.inl rfl
  | cons m ns ih =>
    rw [List.foldr_cons]
    rcases le_total m (ns.foldr max 0) with hle | hle
    · rw [max_eq_right hle]
      exact ih.imp_right (List.mem_cons_of_mem m)
    · rw [max_eq_left hle]
      exact Or.inr (List.mem_cons_self ..)

theorem handedOut_le {l : Legacy} {n : Nat} (h : HandedOut l n) : n ≤ l.high := by
  rcases h with h | ⟨e, he, rfl⟩
  · exact le_trans h (le_max_left _ _)
  · exact le_trans (le_foldr_max (List.mem_map.2 ⟨e, he, rfl⟩)) (le_max_right _ _)

theorem handedOut_high (l : Legacy) : HandedOut l l.high := by
  rcases le_total ((l.envelopes.rows.map (·.seq)).foldr max 0) (l.sequence.getD 0) with hle | hle
  · exact Or.inl (max_eq_left hle).le
  · have hhigh : l.high = (l.envelopes.rows.map (·.seq)).foldr max 0 := max_eq_right hle
    rcases foldr_max_mem (l.envelopes.rows.map (·.seq)) with hzero | hmem
    · exact Or.inl (by rw [hhigh, hzero]; exact Nat.zero_le _)
    · obtain ⟨e, he, hseq⟩ := List.mem_map.1 hmem
      exact Or.inr ⟨e, he, hhigh.trans hseq.symm⟩

theorem high_lt (l : Legacy) : l.high < 2 ^ 63 := by
  rcases handedOut_high l with h | ⟨e, he, hseq⟩
  · cases hs : l.sequence with
    | none =>
      rw [hs, Option.getD_none] at h
      omega
    | some n =>
      have hn := l.bounded.2 n hs
      rw [hs, Option.getD_some] at h
      omega
  · rw [hseq]
    exact l.bounded.1 e he

theorem next_small {high : Nat} (h : high < 2 ^ 63 - 1) : next high = high + 1 := by
  have hpow : ((2 ^ 64 : Nat) : Int) = 18446744073709551616 := rfl
  have h' : high < 9223372036854775807 := h
  unfold next Int.bmod
  rw [hpow]
  dsimp only
  split <;> omega

theorem next_largest : next (2 ^ 63 - 1) = -9223372036854775808 := by
  unfold next
  decide

theorem insertAll_eq (now : Int64) {es : List LegacyEnvelope} {t : Table fun e : QueuedEnvelope => (e.mailboxId, e.deliveryId)}
    (hseqs : (es.map (·.seq)).Nodup) (hids : (es.map fun e => (e.mailboxId, e.deliveryId)).Nodup)
    (hnew : ∀ r ∈ t, ∀ e ∈ es, r.seq ≠ e.seq ∧ (r.mailboxId, r.deliveryId) ≠ (e.mailboxId, e.deliveryId)) :
    ∃ t', insertAll now t es = some t' ∧ t'.rows = t.rows ++ es.map (moved now) := by
  induction es generalizing t with
  | nil => exact ⟨t, rfl, by simp⟩
  | cons e es ih =>
    rw [List.map_cons, List.nodup_cons] at hseqs hids
    have hfree : ¬ (t.rows.any fun r => r.mailboxId = e.mailboxId && r.seq = e.seq) = true := by
      intro hany
      obtain ⟨r, hr, heq⟩ := List.any_eq_true.1 hany
      simp only [Bool.and_eq_true, decide_eq_true_eq] at heq
      exact (hnew r hr e (List.mem_cons_self ..)).1 heq.2
    cases hi : t.insert (moved now e) with
    | none =>
      obtain ⟨r, hr, hkey⟩ := Table.insert_eq_none.1 hi
      exact absurd hkey (hnew r hr e (List.mem_cons_self ..)).2
    | some t₁ =>
      have hnew₁ : ∀ r ∈ t₁, ∀ e' ∈ es, r.seq ≠ e'.seq ∧ (r.mailboxId, r.deliveryId) ≠ (e'.mailboxId, e'.deliveryId) := by
        intro r hr e' he'
        rcases (Table.mem_insert hi).1 hr with hr | rfl
        · exact hnew r hr e' (List.mem_cons_of_mem _ he')
        · exact ⟨fun h => hseqs.1 (List.mem_map.2 ⟨e', he', h.symm⟩), fun h => hids.1 (List.mem_map.2 ⟨e', he', h.symm⟩)⟩
      obtain ⟨t', ht', hrows⟩ := ih hseqs.2 hids.2 hnew₁
      refine ⟨t', ?_, ?_⟩
      · rw [insertAll, if_neg hfree, hi]
        exact ht'
      · rw [hrows, (Table.insert_eq_some hi).1, List.append_assoc]
        rfl

/-- What opening leaves of a schema 5 database. -/
def Opened (now : Int64) (mailboxes : Table fun id : Bytes => id) (l : Legacy) (db : Database) : Prop :=
  ∃ t q, db = ⟨.counted t, some q, none⟩ ∧ q.rows = l.envelopes.rows.map (moved now) ∧
    t.rows = mailboxes.rows.map fun id => ⟨id, if (1 : Int) ≤ l.high then next l.high else 1⟩

theorem initDelivery_schema5 (now : Int64) (mailboxes : Table fun id : Bytes => id) (l : Legacy) :
    ∃ db, initDelivery now (schema5 mailboxes l) = some db ∧ Opened now mailboxes l db := by
  obtain ⟨q, hq, hrows⟩ := insertAll_eq now l.envelopes.nodup l.unique (t := .empty) fun r hr => absurd hr (Table.not_mem_empty r)
  refine ⟨_, ?_, (addColumn mailboxes).update (fun m => m.nextSeq ≤ l.high) (fun m => { m with nextSeq := next l.high }) fun _ => rfl, q, rfl,
    hrows, ?_⟩
  · show (insertAll now .empty l.envelopes.rows).map _ = _
    rw [hq]
    rfl
  · show (mailboxes.rows.map fun id => (⟨id, 1⟩ : MailboxRow)).map _ = _
    rw [List.map_map]
    refine List.map_congr_left fun id _ => ?_
    by_cases hlow : (1 : Int) ≤ l.high
    · simp [hlow]
    · simp [hlow]

/-- An envelope of the old table with the expiry the relay would have stored. -/
def coarsened (now : Int64) (e : LegacyEnvelope) : QueuedEnvelope :=
  ⟨e.mailboxId, e.seq, e.deliveryId, e.bodyHash, e.hpkeEnc, e.ciphertext, (coarseExpiry64 e.expiresAt now).toInt⟩

/-- What a client relies on: its envelopes stand as they were but for the expiry, and any cursor it holds stays below
what its mailbox hands out next. -/
structure Kept (now : Int64) (mailboxes : Table fun id : Bytes => id) (l : Legacy) (db : Database) : Prop where
  stored : ∃ t q, db = ⟨.counted t, some q, none⟩ ∧
    -- every mailbox goes on above every number handed out
    t.rows.map (·.mailboxId) = mailboxes.rows ∧ (∀ m ∈ t, ∀ n, HandedOut l n → (n : Int) < m.nextSeq) ∧
    -- every envelope is there, and no other
    (∀ r, r ∈ q ↔ ∃ e ∈ l.envelopes, r = coarsened now e) ∧
    -- and a fetch after any cursor finds what it found, with the expiries rounded
    ∀ counters mailbox cursor limit time, fetchEnvelopes mailbox cursor limit time ⟨counters, q⟩ =
      ((legacyFetch mailbox cursor time (fun e => (coarseExpiry64 e.expiresAt now).toInt) l).map (coarsened now)).take
        (if limit = 0 ∨ 100 < limit then 100 else limit)
  again : ∀ now', initDelivery now' db = some db

theorem opened_again {now now' : Int64} {mailboxes : Table fun id : Bytes => id} {l : Legacy} {db : Database} (h : Opened now mailboxes l db) :
    initDelivery now' db = some db := by
  obtain ⟨t, q, rfl, -, -⟩ := h
  rfl

theorem moved_eq_iff (now : Int64) (e : LegacyEnvelope) :
    moved now e = coarsened now e ↔ SameRounding e.expiresAt.toInt now.toInt := by
  rw [← sameRounding_iff, eq_comm]
  simp [moved, coarsened]

theorem fetch_coarsened {now : Int64} {l : Legacy} {q : Table fun e : QueuedEnvelope => (e.mailboxId, e.deliveryId)}
    (h : q.rows = l.envelopes.rows.map (coarsened now)) (counters : Table RelayQueue.MailboxRow.mailboxId) (mailbox : Bytes)
    (cursor limit : Nat) (time : Int) :
    fetchEnvelopes mailbox cursor limit time ⟨counters, q⟩ =
      ((legacyFetch mailbox cursor time (fun e => (coarseExpiry64 e.expiresAt now).toInt) l).map (coarsened now)).take
        (if limit = 0 ∨ 100 < limit then 100 else limit) := by
  rw [fetchEnvelopes, legacyFetch, h, List.filter_map]
  rw [List.map_insertionSort (fun a b : LegacyEnvelope => a.seq ≤ b.seq) (fun a b : QueuedEnvelope => a.seq ≤ b.seq) _ _
    fun a _ b _ => Iff.rfl]
  rfl

theorem kept_of_opened {now : Int64} {mailboxes : Table fun id : Bytes => id} {l : Legacy} {db : Database} (h : Opened now mailboxes l db)
    (hroom : l.high < 2 ^ 63 - 1 ∨ mailboxes.rows = [])
    (hsame : ∀ e ∈ l.envelopes, SameRounding e.expiresAt.toInt now.toInt) : Kept now mailboxes l db := by
  refine ⟨?_, fun now' => opened_again h⟩
  obtain ⟨t, q, rfl, hq, ht⟩ := h
  have hq : q.rows = l.envelopes.rows.map (coarsened now) := by
    rw [hq]
    exact List.map_congr_left fun e he => (moved_eq_iff now e).2 (hsame e he)
  refine ⟨t, q, rfl, ?_, ?_, ?_, fetch_coarsened hq⟩
  · rw [ht, List.map_map]
    exact List.map_id _
  · intro m hm n hn
    rw [Table.mem_def, ht] at hm
    obtain ⟨id, hid, rfl⟩ := List.mem_map.1 hm
    have hlow : l.high < 2 ^ 63 - 1 := by
      rcases hroom with hlow | hnone
      · exact hlow
      · rw [hnone] at hid
        cases hid
    have hle := handedOut_le hn
    dsimp only
    split
    · rw [next_small hlow]
      omega
    · omega
  · intro r
    rw [Table.mem_def, hq, List.mem_map]
    exact exists_congr fun e => and_congr_right fun _ => ⟨Eq.symm, Eq.symm⟩

/-- At the largest integer every mailbox goes on below what was handed out. -/
theorem not_kept_of_largest {now : Int64} {mailboxes : Table fun id : Bytes => id} {l : Legacy} {db : Database} (h : Opened now mailboxes l db)
    (hmax : l.high = 2 ^ 63 - 1) (hsome : mailboxes.rows ≠ []) : ¬ Kept now mailboxes l db := by
  intro hkept
  obtain ⟨t, q, rfl, -, ht⟩ := h
  obtain ⟨id, rest, hrows⟩ := List.exists_cons_of_ne_nil hsome
  obtain ⟨t', q', hsame, -, habove, -⟩ := hkept.stored
  obtain ⟨rfl, -⟩ : t = t' ∧ q = q' := by simpa using hsame
  have hm : (⟨id, if (1 : Int) ≤ l.high then next l.high else 1⟩ : MailboxRow) ∈ t := by
    rw [Table.mem_def, ht, hrows]
    exact List.mem_cons_self ..
  have habove' := habove _ hm l.high (handedOut_high l)
  dsimp only at habove'
  rw [hmax, next_largest] at habove'
  omega

/-- An envelope that was kept had its expiry rounded as the relay rounds it. -/
theorem sameRounding_of_kept {now : Int64} {mailboxes : Table fun id : Bytes => id} {l : Legacy} {db : Database}
    (h : Opened now mailboxes l db) (hkept : Kept now mailboxes l db) {e : LegacyEnvelope} (he : e ∈ l.envelopes) :
    SameRounding e.expiresAt.toInt now.toInt := by
  obtain ⟨t, q, rfl, hq, -⟩ := h
  obtain ⟨t', q', hsame, -, -, hrows, -⟩ := hkept.stored
  obtain ⟨-, rfl⟩ : t = t' ∧ q = q' := by simpa using hsame
  have hmem : moved now e ∈ q := by
    rw [Table.mem_def, hq]
    exact List.mem_map_of_mem he
  obtain ⟨e', he', heq⟩ := (hrows _).1 hmem
  obtain rfl : e = e' := Table.eq_of_key he he' (congrArg QueuedEnvelope.seq heq)
  exact (moved_eq_iff now e).1 heq

/-- Opening keeps what clients rely on exactly when the old numbers have not run up to the largest integer and every
expiry is rounded as the relay rounds it. -/
theorem migration_keeps_cursors (now : Int64) (mailboxes : Table fun id : Bytes => id) (l : Legacy) :
    (∃ db, initDelivery now (schema5 mailboxes l) = some db ∧ Kept now mailboxes l db) ↔
      ((l.sequence.getD 0 < 2 ^ 63 - 1 ∧ ∀ e ∈ l.envelopes, e.seq < 2 ^ 63 - 1) ∨ mailboxes.rows = []) ∧
        ∀ e ∈ l.envelopes, SameRounding e.expiresAt.toInt now.toInt := by
  obtain ⟨db, hdb, hopened⟩ := initDelivery_schema5 now mailboxes l
  have hhigh : (l.sequence.getD 0 < 2 ^ 63 - 1 ∧ ∀ e ∈ l.envelopes, e.seq < 2 ^ 63 - 1) ↔ l.high < 2 ^ 63 - 1 := by
    constructor
    · rintro ⟨hmark, hrows⟩
      rcases handedOut_high l with h | ⟨e, he, hseq⟩
      · omega
      · rw [hseq]
        exact hrows e he
    · intro h
      exact ⟨lt_of_le_of_lt (handedOut_le (Or.inl le_rfl)) h, fun e he => lt_of_le_of_lt (handedOut_le (Or.inr ⟨e, he, rfl⟩)) h⟩
  rw [hhigh]
  constructor
  · rintro ⟨db', hdb', hkept⟩
    obtain rfl := Option.some.inj (hdb.symm.trans hdb')
    refine ⟨?_, fun e he => sameRounding_of_kept hopened hkept he⟩
    by_contra hnot
    obtain ⟨hlarge, hsome⟩ := not_or.1 hnot
    have hlt := high_lt l
    exact not_kept_of_largest hopened (by omega) hsome hkept
  · rintro ⟨hroom, hsame⟩
    exact ⟨db, hdb, kept_of_opened hopened hroom hsame⟩

/-- An old queue whose last number was the largest integer. -/
def exhausted : Legacy where
  envelopes := .empty
  unique := List.nodup_nil
  sequence := some (2 ^ 63 - 1)
  bounded := ⟨fun e he => absurd he (Table.not_mem_empty e), fun n hn => by
    obtain rfl := Option.some.inj hn
    omega⟩

theorem exhausted_sequence_starts_below : HandedOut exhausted (2 ^ 63 - 1) ∧
    (∃ t q, initDelivery 0 (schema5 ⟨[[1]], by decide⟩ exhausted) = some ⟨.counted t, some q, none⟩ ∧
      t.rows = [⟨[1], -9223372036854775808⟩]) ∧
    ¬ ∃ db, initDelivery 0 (schema5 ⟨[[1]], by decide⟩ exhausted) = some db ∧ Kept 0 ⟨[[1]], by decide⟩ exhausted db := by
  obtain ⟨db, hdb, hopened⟩ := initDelivery_schema5 0 ⟨[[1]], by decide⟩ exhausted
  have hmax : exhausted.high = 2 ^ 63 - 1 := rfl
  refine ⟨Or.inl le_rfl, ?_, ?_⟩
  · obtain ⟨t, q, rfl, -, ht⟩ := hopened
    refine ⟨t, q, hdb, ?_⟩
    rw [ht, hmax, next_largest]
    rfl
  · rintro ⟨db', hdb', hkept⟩
    obtain rfl := Option.some.inj (hdb.symm.trans hdb')
    exact not_kept_of_largest hopened hmax (by decide) hkept

end Arveil.RelayMigration

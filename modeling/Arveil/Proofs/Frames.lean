import Mathlib.Algebra.Order.BigOperators.Group.List
import Mathlib.Algebra.Order.Group.Nat
import Arveil.Lib.Trace
import Arveil.Proofs.Pages
import Arveil.Sanity.Demo
import Arveil.Spec.Frames

/-! A page is bounded by the number of its envelopes, a frame by its bytes. The reply to a
fetch can be written exactly when the envelopes of the page fit into one frame. -/

namespace Arveil.RelayQueue

variable {sha256 : Bytes → Bytes}

/-- One envelope in a reply: its keys, its heads and what it holds. -/
def itemBytes (e : QueuedEnvelope) : Nat :=
  37 + Cbor.headLength e.seq + (Cbor.headLength e.hpkeEnc.length + e.hpkeEnc.length) +
    (Cbor.headLength e.ciphertext.length + e.ciphertext.length) +
    (Cbor.headLength e.deliveryId.length + e.deliveryId.length)

def replyBytes (id : UInt64) (cursor : Nat) (items : List QueuedEnvelope) : Nat :=
  42 + Cbor.headLength id.toNat + Cbor.headLength items.length + Cbor.headLength (nextCursor cursor items) +
    (items.map itemBytes).sum

theorem encodeItem_length (e : QueuedEnvelope) : (encodeItem e).length = itemBytes e := by
  have hkeys : (utf8 "seq").length = 3 ∧ (utf8 "hpke_enc").length = 8 ∧ (utf8 "ciphertext").length = 10 ∧
      (utf8 "delivery_id").length = 11 := by decide
  obtain ⟨h1, h2, h3, h4⟩ := hkeys
  simp only [encodeItem, Cbor.map_length, List.map_cons, List.map_nil, List.sum_cons, List.sum_nil, Cbor.text_length,
    Cbor.uint_length, Cbor.bytes_length, List.length_cons, List.length_nil, h1, h2, h3, h4]
  have hheads : Cbor.headLength 3 = 1 ∧ Cbor.headLength 8 = 1 ∧ Cbor.headLength 10 = 1 ∧ Cbor.headLength 11 = 1 ∧
      Cbor.headLength (0 + 1 + 1 + 1 + 1) = 1 := by decide
  obtain ⟨g1, g2, g3, g4, g5⟩ := hheads
  rw [g1, g2, g3, g4, g5, itemBytes]
  omega

theorem encodeEnvelopes_length (items : List QueuedEnvelope) (next : Nat) :
    (encodeEnvelopes items next).length =
      30 + Cbor.headLength items.length + (items.map itemBytes).sum + Cbor.headLength next := by
  have hkeys : (utf8 "Envelopes").length = 9 ∧ (utf8 "items").length = 5 ∧ (utf8 "next_cursor").length = 11 := by decide
  obtain ⟨h1, h2, h3⟩ := hkeys
  have hitems : ((items.map encodeItem).map List.length).sum = (items.map itemBytes).sum := by
    simp only [List.map_map, Function.comp_def, encodeItem_length]
  simp only [encodeEnvelopes, Cbor.map_length, Cbor.array_length, List.map_cons, List.map_nil, List.sum_cons, List.sum_nil,
    Cbor.text_length, Cbor.uint_length, List.length_cons, List.length_nil, List.length_map, h1, h2, h3, hitems]
  have hheads : Cbor.headLength 9 = 1 ∧ Cbor.headLength 5 = 1 ∧ Cbor.headLength 11 = 1 ∧ Cbor.headLength (0 + 1) = 1 ∧
      Cbor.headLength (0 + 1 + 1) = 1 := by decide
  obtain ⟨g1, g2, g3, g4, g5⟩ := hheads
  rw [g1, g2, g3, g4, g5]
  omega

theorem fetchReply_ok_iff (id : UInt64) (mailboxId : Bytes) (cursor limit : Nat) (now : Int) (q : Queue) :
    (∃ out, fetchReply id mailboxId cursor limit now q = .ok out) ↔
      replyBytes id cursor (fetchEnvelopes mailboxId cursor limit now q) ≤ maxFrameBytes := by
  have hkeys : (utf8 "id").length = 2 ∧ (utf8 "payload").length = 7 := by decide
  obtain ⟨h1, h2⟩ := hkeys
  have hlength : (Cbor.map [(Cbor.text (utf8 "id"), Cbor.uint id.toNat), (Cbor.text (utf8 "payload"),
      encodeEnvelopes (fetchEnvelopes mailboxId cursor limit now q)
        (nextCursor cursor (fetchEnvelopes mailboxId cursor limit now q)))]).length =
      replyBytes id cursor (fetchEnvelopes mailboxId cursor limit now q) := by
    simp only [Cbor.map_length, List.map_cons, List.map_nil, List.sum_cons, List.sum_nil, Cbor.text_length, Cbor.uint_length,
      encodeEnvelopes_length, List.length_cons, List.length_nil, h1, h2]
    have hheads : Cbor.headLength 2 = 1 ∧ Cbor.headLength 7 = 1 := by decide
    obtain ⟨g1, g2⟩ := hheads
    rw [g1, g2, replyBytes]
    omega
  unfold fetchReply encodeWire
  simp only [hlength]
  split
  · next hlarge => simp [hlarge]
  · next hfits => simpa using hfits

variable (sha256) in
def queueAfter (ts : List Transaction) : Queue := Trace.run (fun q t => t.run sha256 q) ⟨.empty, .empty⟩ ts

def Transaction.Small : Transaction → Prop
  | .put _ _ _ ciphertext _ _ => ciphertext.length ≤ 20 * 1024
  | _ => True

def SmallItem (e : QueuedEnvelope) : Prop :=
  e.ciphertext.length ≤ 20 * 1024 ∧ e.hpkeEnc.length ≤ 64 ∧ e.deliveryId.length ≤ 32

theorem putEnvelope_sizes {mailboxId deliveryId hpkeEnc ciphertext : Bytes} {expiry now : Int} {q q' : Queue} {r : PutResult}
    (h : putEnvelope sha256 mailboxId deliveryId hpkeEnc ciphertext expiry now q = (.ok r, q')) :
    hpkeEnc.length ≤ 64 ∧ deliveryId.length ≤ 32 := by
  unfold putEnvelope at h
  split at h
  · cases h
  · next hsize =>
    simp only [not_or, not_lt] at hsize
    exact ⟨hsize.2.1, hsize.2.2.2⟩

theorem small_step {q : Queue} {t : Transaction} (ht : t.Small) (hq : ∀ e ∈ q.queued, SmallItem e) :
    ∀ e ∈ (t.run sha256 q).queued, SmallItem e := by
  cases t with
  | create mailboxId => exact hq
  | fetch mailboxId cursor limit now => exact hq
  | ack mailboxId ids => exact fun e he => hq e (Table.mem_delete.1 he).1
  | expire now => exact fun e he => hq e (Table.mem_delete.1 he).1
  | put mailboxId deliveryId hpkeEnc ciphertext expiry now =>
    simp only [Transaction.run]
    rcases putEnvelope_cases sha256 mailboxId deliveryId hpkeEnc ciphertext expiry now q with
      ⟨x, hx⟩ | ⟨x, r, -, -, hr⟩ | ⟨x, q', r, hs, henc, hct, hr⟩
    · rwa [hx]
    · rwa [hr]
    · rw [hr]
      intro e he
      rcases (Table.mem_insert hs.queued).1 he with hold | rfl
      · exact hq e hold
      · obtain ⟨hsize, hid⟩ := putEnvelope_sizes hr
        refine ⟨hct ▸ ht, henc ▸ hsize, ?_⟩
        rw [(Prod.mk.inj hs.key).2]
        exact hid

theorem small_after {ts : List Transaction} (hts : ∀ t ∈ ts, t.Small) : ∀ e ∈ (queueAfter sha256 ts).queued, SmallItem e := by
  have hmeets : ∀ q : Queue, Trace.Meets (fun q t => Transaction.run sha256 t q) (fun _ t => t.Small) q ts := by
    induction ts with
    | nil => exact fun _ => trivial
    | cons t ts ih =>
      exact fun q => ⟨hts t List.mem_cons_self, ih (fun t' ht' => hts t' (List.mem_cons_of_mem _ ht')) _⟩
  exact Trace.invariant (I := fun q : Queue => ∀ e ∈ q.queued, SmallItem e) (fun q t ht hq => small_step ht hq) (hmeets _)
    fun e he => absurd he (Table.not_mem_empty e)

theorem itemBytes_small {e : QueuedEnvelope} (h : SmallItem e) : itemBytes e ≤ 20700 := by
  obtain ⟨hct, henc, hid⟩ := h
  have h1 := Cbor.headLength_le e.seq
  have h2 := Cbor.headLength_le e.hpkeEnc.length
  have h3 := Cbor.headLength_le e.ciphertext.length
  have h4 := Cbor.headLength_le e.deliveryId.length
  unfold itemBytes
  omega

theorem page_small {q : Queue} (hq : ∀ e ∈ q.queued, SmallItem e) {mailboxId : Bytes} {cursor limit : Nat} {now : Int}
    (id : UInt64) (hpos : 0 < limit) (hlimit : limit ≤ 50) :
    replyBytes id cursor (fetchEnvelopes mailboxId cursor limit now q) ≤ maxFrameBytes := by
  have hcount : (fetchEnvelopes mailboxId cursor limit now q).length ≤ 50 := by
    have heq : (if limit = 0 ∨ 100 < limit then 100 else limit) = limit := if_neg (by omega)
    unfold fetchEnvelopes
    simp only [heq]
    exact (List.length_take_le _ _).trans hlimit
  have hsum : ((fetchEnvelopes mailboxId cursor limit now q).map itemBytes).sum ≤
      (fetchEnvelopes mailboxId cursor limit now q).length * 20700 := by
    have hitems := List.sum_le_card_nsmul ((fetchEnvelopes mailboxId cursor limit now q).map itemBytes) 20700 (by
      intro n hn
      obtain ⟨e, he, rfl⟩ := List.mem_map.1 hn
      exact itemBytes_small (hq e (mem_fetch he).1))
    simpa using hitems
  have h1 := Cbor.headLength_le id.toNat
  have h2 := Cbor.headLength_le (fetchEnvelopes mailboxId cursor limit now q).length
  have h3 := Cbor.headLength_le (nextCursor cursor (fetchEnvelopes mailboxId cursor limit now q))
  unfold replyBytes maxFrameBytes
  omega

/-- Whatever was stored, the reply to a fetch is written exactly when the frame and the
envelopes of its page come to at most 1 MiB. Where no put carries more than 20 KiB, that is
so for every page of at most 50 envelopes. -/
theorem page_is_written_iff_it_fits (sha256 : Bytes → Bytes) (ts : List Transaction) :
    (∀ id mailboxId cursor limit now, (∃ out, fetchReply id mailboxId cursor limit now (queueAfter sha256 ts) = .ok out) ↔
      replyBytes id cursor (fetchEnvelopes mailboxId cursor limit now (queueAfter sha256 ts)) ≤ maxFrameBytes) ∧
    ((∀ t ∈ ts, t.Small) → ∀ id mailboxId cursor limit now, 0 < limit → limit ≤ 50 →
      ∃ out, fetchReply id mailboxId cursor limit now (queueAfter sha256 ts) = .ok out) := by
  refine ⟨fun id mailboxId cursor limit now => fetchReply_ok_iff id mailboxId cursor limit now _, ?_⟩
  intro hts id mailboxId cursor limit now hpos hlimit
  exact (fetchReply_ok_iff ..).2 (page_small (small_after hts) id hpos hlimit)

theorem putEnvelope_rows (sha256 : Bytes → Bytes) {mailboxId deliveryId : Bytes} (hpkeEnc : Bytes) {ciphertext : Bytes}
    (expiry now : Int) {q : Queue} {m : MailboxRow} (hct : ciphertext.length ≤ maxEnvelopeBytes) (henc : hpkeEnc.length ≤ 64)
    (hid : 0 < deliveryId.length ∧ deliveryId.length ≤ 32) (hfree : q.queued.get? (mailboxId, deliveryId) = none)
    (hcount : q.queued.rows.length < maxMailboxQueue) (hm : q.mailboxes.get? mailboxId = some m) (hseq : m.nextSeq < 2 ^ 63 - 1) :
    (putEnvelope sha256 mailboxId deliveryId hpkeEnc ciphertext expiry now q).2.queued.rows =
        q.queued.rows ++ [⟨mailboxId, m.nextSeq, deliveryId, sha256 (hpkeEnc ++ ciphertext), hpkeEnc, ciphertext,
          coarseExpiry (boundedExpiry expiry now) now⟩] ∧
      (putEnvelope sha256 mailboxId deliveryId hpkeEnc ciphertext expiry now q).2.mailboxes = numberTaken mailboxId q := by
  have hqueued : ¬ maxMailboxQueue ≤ (q.queued.rows.filter fun e => e.mailboxId = mailboxId).length :=
    Nat.not_le.2 (lt_of_le_of_lt (List.length_filter_le _ _) hcount)
  unfold putEnvelope
  rw [if_neg (by omega)]
  simp only [hfree]
  rw [if_neg hqueued]
  simp only [hm]
  rw [if_neg (Nat.not_le.2 hseq)]
  cases hi : q.queued.insert ⟨mailboxId, m.nextSeq, deliveryId, sha256 (hpkeEnc ++ ciphertext), hpkeEnc, ciphertext,
      coarseExpiry (boundedExpiry expiry now) now⟩ with
  | none =>
    obtain ⟨r, hr, hk⟩ := Table.insert_eq_none.1 hi
    exact absurd hk (Table.get?_eq_none.1 hfree r hr)
  | some t => exact ⟨(Table.insert_eq_some hi).1, rfl⟩

/-- Somebody queues envelopes of 256 KiB, as many as they like. -/
def bigPuts (ciphertext : Bytes) (n : Nat) : List Transaction :=
  .create [1] :: (List.range n).map fun i => .put [1] [UInt8.ofNat i] [] ciphertext 0 0

def bigRow (sha256 : Bytes → Bytes) (ciphertext : Bytes) (i : Nat) : QueuedEnvelope :=
  ⟨[1], i + 1, [UInt8.ofNat i], sha256 ciphertext, [], ciphertext, 2592000⟩

theorem bigPuts_rows {ciphertext : Bytes} (hct : ciphertext.length = 256 * 1024) {n : Nat} (hn : n ≤ 5) :
    (queueAfter sha256 (bigPuts ciphertext n)).queued.rows = (List.range n).map (bigRow sha256 ciphertext) ∧
      (queueAfter sha256 (bigPuts ciphertext n)).mailboxes.get? [1] = some ⟨[1], n + 1⟩ := by
  induction n with
  | zero => exact ⟨rfl, rfl⟩
  | succ n ih =>
    obtain ⟨hrows, hbox⟩ := ih (by omega)
    have hrun : queueAfter sha256 (bigPuts ciphertext (n + 1)) =
        (putEnvelope sha256 [1] [UInt8.ofNat n] [] ciphertext 0 0 (queueAfter sha256 (bigPuts ciphertext n))).2 := by
      unfold queueAfter bigPuts
      rw [List.range_succ, List.map_append, List.map_singleton, ← List.cons_append, Trace.run_append]
      rfl
    have hfree : (queueAfter sha256 (bigPuts ciphertext n)).queued.get? ([1], [UInt8.ofNat n]) = none := by
      rw [Table.get?_eq_none]
      intro r hr
      have hr : r ∈ (List.range n).map (bigRow sha256 ciphertext) := hrows ▸ hr
      obtain ⟨i, hi, rfl⟩ := List.mem_map.1 hr
      rw [List.mem_range] at hi
      intro hk
      have hbyte : UInt8.ofNat i = UInt8.ofNat n := (List.cons.inj (Prod.mk.inj hk).2).1
      have hnat := congrArg UInt8.toNat hbyte
      rw [UInt8.toNat_ofNat_of_lt' (by show i < 256; omega), UInt8.toNat_ofNat_of_lt' (by show n < 256; omega)] at hnat
      omega
    obtain ⟨hput, hnext⟩ := putEnvelope_rows sha256 [] 0 0 (by rw [hct]; decide) (by decide) (by simp) hfree (by rw [hrows]; simp [maxMailboxQueue]; omega) hbox (by simp; omega)
    rw [hrun]
    refine ⟨?_, ?_⟩
    · rw [hput, hrows, List.range_succ, List.map_append]
      rfl
    · rw [hnext, numberTaken, Table.get?_update, hbox]
      rfl

theorem bigPuts_page {ciphertext : Bytes} (hct : ciphertext.length = 256 * 1024) :
    fetchEnvelopes [1] 0 50 0 (queueAfter sha256 (bigPuts ciphertext 5)) = (List.range 5).map (bigRow sha256 ciphertext) := by
  have hrows : (queueAfter sha256 (bigPuts ciphertext 5)).queued.rows = _ := (bigPuts_rows hct (le_refl 5)).1
  have hsorted : ((List.range 5).map (bigRow sha256 ciphertext)).Pairwise fun a b => a.seq ≤ b.seq := by
    simp [bigRow, List.range_succ, List.range_zero]
  unfold fetchEnvelopes
  rw [hrows, List.filter_eq_self.2 (by simp [bigRow]), List.Pairwise.insertionSort_eq hsorted]
  rfl

/-- Five envelopes of 256 KiB: the page that starts with them is never written. -/
theorem five_large_envelopes_stop_the_mailbox :
    ¬ ∀ (ts : List Transaction) id mailboxId cursor limit now,
      ∃ out, fetchReply id mailboxId cursor limit now (queueAfter Demo.fingerprint ts) = .ok out := by
  intro h
  obtain ⟨c, hct⟩ : ∃ c : Bytes, c.length = 256 * 1024 := ⟨List.replicate (256 * 1024) 0, List.length_replicate⟩
  obtain ⟨out, hout⟩ := h (bigPuts c 5) 1 [1] 0 50 0
  have hfits := (fetchReply_ok_iff ..).1 ⟨out, hout⟩
  rw [bigPuts_page hct] at hfits
  have hitem (i : Nat) : 256 * 1024 ≤ itemBytes (bigRow Demo.fingerprint c i) := by
    unfold itemBytes bigRow
    simp only [hct]
    omega
  have h0 := hitem 0
  have h1 := hitem 1
  have h2 := hitem 2
  have h3 := hitem 3
  have h4 := hitem 4
  simp only [replyBytes, maxFrameBytes, List.range_succ, List.range_zero, List.nil_append, List.cons_append, List.map_cons,
    List.map_nil, List.sum_cons, List.sum_nil] at hfits
  omega

/-- Three small ones are written. -/
theorem small_envelopes_are_written :
    ∃ out, fetchReply 1 [1] 0 50 6 (queueAfter Demo.fingerprint
      [.create [1], .put [1] [7] [] [70] 0 5, .put [1] [8] [] [80] 0 5, .put [1] [9] [] [90] 0 5]) = .ok out := by
  refine (page_is_written_iff_it_fits Demo.fingerprint _).2 (fun t ht => ?_) 1 [1] 0 50 6 (by decide) (by decide)
  simp only [List.mem_cons, List.not_mem_nil, or_false] at ht
  rcases ht with rfl | rfl | rfl | rfl <;> simp [Transaction.Small]

end Arveil.RelayQueue

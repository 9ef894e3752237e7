import Arveil.Lib.Trace
import Arveil.Spec.Pages

/-! What the relay's queue does with a put: nothing, or one more envelope under the
next number of its mailbox. And what it takes for a repeat of a put: the digest covers
the two parts of a body one after the other, and does not say where the first one ends. -/

namespace Arveil.RelayQueue

def numberTaken (mailboxId : Bytes) (q : Queue) : Table MailboxRow.mailboxId :=
  q.mailboxes.update (fun r => r.mailboxId = mailboxId) (fun r => { r with nextSeq := r.nextSeq + 1 }) MailboxRow.taken_key

/-- The queue took an envelope it did not have, under the next number. -/
structure Stores (mailboxId deliveryId : Bytes) (q q' : Queue) (e : QueuedEnvelope) : Prop where
  free : q.queued.get? (mailboxId, deliveryId) = none
  key : (e.mailboxId, e.deliveryId) = (mailboxId, deliveryId)
  number : ∃ m, q.mailboxes.get? mailboxId = some m ∧ e.seq = m.nextSeq ∧ m.nextSeq < 2 ^ 63 - 1
  queued : q.queued.insert e = some q'.queued
  mailboxes : q'.mailboxes = numberTaken mailboxId q

theorem putEnvelope_cases (sha256 : Bytes → Bytes) (mailboxId deliveryId hpkeEnc ciphertext : Bytes) (expiry now : Int)
    (q : Queue) :
    (∃ e, putEnvelope sha256 mailboxId deliveryId hpkeEnc ciphertext expiry now q = (.error e, q)) ∨
      (∃ e r, e ∈ q.queued ∧ (e.mailboxId, e.deliveryId) = (mailboxId, deliveryId) ∧
        putEnvelope sha256 mailboxId deliveryId hpkeEnc ciphertext expiry now q = (.ok r, q)) ∨
      ∃ e q' r, Stores mailboxId deliveryId q q' e ∧ e.hpkeEnc = hpkeEnc ∧ e.ciphertext = ciphertext ∧
        putEnvelope sha256 mailboxId deliveryId hpkeEnc ciphertext expiry now q = (.ok r, q') := by
  unfold putEnvelope
  split
  · exact Or.inl ⟨_, rfl⟩
  · cases hg : q.queued.get? (mailboxId, deliveryId) with
    | some e =>
      obtain ⟨he, hk⟩ := Table.get?_eq_some.1 hg
      simp only
      split
      · exact Or.inl ⟨_, rfl⟩
      · exact Or.inr (Or.inl ⟨e, _, he, hk, rfl⟩)
    | none =>
      simp only
      split
      · exact Or.inl ⟨_, rfl⟩
      · cases hm : q.mailboxes.get? mailboxId with
        | none => exact Or.inl ⟨_, rfl⟩
        | some m =>
          simp only
          split
          · exact Or.inl ⟨_, rfl⟩
          · next hsmall =>
            cases hi : q.queued.insert ⟨mailboxId, m.nextSeq, deliveryId, sha256 (hpkeEnc ++ ciphertext), hpkeEnc, ciphertext,
                coarseExpiry (boundedExpiry expiry now) now⟩ with
            | none => exact Or.inl ⟨_, rfl⟩
            | some t =>
              refine Or.inr (Or.inr ⟨_, _, _, ⟨hg, rfl, ⟨m, hm, rfl, Nat.not_le.1 hsmall⟩, hi, rfl⟩, rfl, rfl, rfl⟩)

/-- A frame that is not accepted changes nothing; one that is accepted names an
envelope the relay has, stored before or now. -/
theorem envelopePut_cases (sha256 : Bytes → Bytes) (access : Access) (mailboxId deliveryId : Bytes) (expiry : UInt64)
    (hpkeEnc ciphertext : Bytes) (now : Int) (q : Queue) :
    (∃ e, envelopePut sha256 access mailboxId deliveryId expiry hpkeEnc ciphertext now q = (.error e, q)) ∨
      (∃ e r, e ∈ q.queued ∧ (e.mailboxId, e.deliveryId) = (mailboxId, deliveryId) ∧
        envelopePut sha256 access mailboxId deliveryId expiry hpkeEnc ciphertext now q = (.ok r, q)) ∨
      ∃ e q' r, Stores mailboxId deliveryId q q' e ∧
        envelopePut sha256 access mailboxId deliveryId expiry hpkeEnc ciphertext now q = (.ok r, q') := by
  unfold envelopePut
  split
  · exact Or.inl ⟨_, rfl⟩
  · split
    · exact Or.inl ⟨_, rfl⟩
    · rcases putEnvelope_cases sha256 mailboxId deliveryId hpkeEnc ciphertext expiry.toInt64.toInt now q with
        ⟨e, he⟩ | ⟨e, r, hmem, hk, hr⟩ | ⟨e, q', r, hs, -, -, hr⟩
      · rw [he]
        exact Or.inl ⟨_, rfl⟩
      · rw [hr]
        exact Or.inr (Or.inl ⟨e, _, hmem, hk, rfl⟩)
      · rw [hr]
        exact Or.inr (Or.inr ⟨e, q', _, hs, rfl⟩)

def CountsOn (q q' : Queue) : Prop :=
  ∀ m ∈ q.mailboxes, ∃ m' ∈ q'.mailboxes, m'.mailboxId = m.mailboxId ∧ m.nextSeq ≤ m'.nextSeq

theorem CountsOn.refl (q : Queue) : CountsOn q q := fun m hm => ⟨m, hm, rfl, le_rfl⟩

theorem countsOn_numberTaken {mailboxId : Bytes} {q q' : Queue} (h : q'.mailboxes = numberTaken mailboxId q) :
    CountsOn q q' := by
  intro m hm
  have hmem : (if m.mailboxId = mailboxId then { m with nextSeq := m.nextSeq + 1 } else m) ∈ q'.mailboxes := by
    rw [h, numberTaken, Table.mem_update]
    exact ⟨m, hm, by simp⟩
  refine ⟨_, hmem, ?_, ?_⟩
  · split <;> rfl
  · split
    · exact Nat.le_succ _
    · exact le_rfl

theorem Stores.below {mailboxId deliveryId : Bytes} {q q' : Queue} {e : QueuedEnvelope}
    (h : Stores mailboxId deliveryId q q' e) : ∃ m ∈ q'.mailboxes, m.mailboxId = mailboxId ∧ e.seq < m.nextSeq := by
  obtain ⟨m, hm, hseq, -⟩ := h.number
  obtain ⟨hmem, hid⟩ := Table.get?_eq_some.1 hm
  refine ⟨{ m with nextSeq := m.nextSeq + 1 }, ?_, hid, ?_⟩
  · rw [h.mailboxes, numberTaken, Table.mem_update]
    exact ⟨m, hmem, by simp [hid]⟩
  · rw [hseq]
    exact Nat.lt_succ_self _

theorem Stores.number_eq {mailboxId deliveryId : Bytes} {q q' : Queue} {e : QueuedEnvelope}
    (h : Stores mailboxId deliveryId q q' e) {m : MailboxRow} (hm : m ∈ q.mailboxes) (hid : m.mailboxId = mailboxId) :
    e.seq = m.nextSeq := by
  obtain ⟨m', hm', hseq, -⟩ := h.number
  obtain ⟨hmem', hid'⟩ := Table.get?_eq_some.1 hm'
  rw [Table.eq_of_key hm hmem' (hid.trans hid'.symm)]
  exact hseq

/-- What the relay stores of an envelope it took. -/
structure Kept (sha256 : Bytes → Bytes) (e : QueuedEnvelope) : Prop where
  hashed : e.bodyHash = sha256 (e.hpkeEnc ++ e.ciphertext)
  deliveryId : e.deliveryId.length ≠ 0 ∧ e.deliveryId.length ≤ 32

def AcceptedSize (hpkeEnc ciphertext : Bytes) : Prop := hpkeEnc.length ≤ 64 ∧ ciphertext.length ≤ maxEnvelopeBytes

def storedAfter (sha256 : Bytes → Bytes) (ts : List Transaction) : Queue :=
  Trace.run (fun q (t : Transaction) => t.run sha256 q) ⟨.empty, .empty⟩ ts

variable {sha256 : Bytes → Bytes}

theorem kept_put {mailboxId deliveryId hpkeEnc ciphertext : Bytes} {expiry now : Int} {q : Queue} {e : QueuedEnvelope}
    (he : e ∈ (putEnvelope sha256 mailboxId deliveryId hpkeEnc ciphertext expiry now q).2.queued) :
    e ∈ q.queued ∨ Kept sha256 e := by
  unfold putEnvelope at he
  split at he
  · exact Or.inl he
  · next hsize =>
    cases hg : q.queued.get? (mailboxId, deliveryId) with
    | some x =>
      simp only [hg] at he
      split at he <;> exact Or.inl he
    | none =>
      simp only [hg] at he
      split at he
      · exact Or.inl he
      · cases hm : q.mailboxes.get? mailboxId with
        | none =>
          simp only [hm] at he
          exact Or.inl he
        | some m =>
          simp only [hm] at he
          split at he
          · exact Or.inl he
          · split at he
            · exact Or.inl he
            · next t hinsert =>
              rcases (Table.mem_insert hinsert).1 he with hold | rfl
              · exact Or.inl hold
              · refine Or.inr ⟨rfl, ?_⟩
                show deliveryId.length ≠ 0 ∧ deliveryId.length ≤ 32
                omega

theorem kept_run {t : Transaction} {q : Queue} (h : ∀ e ∈ q.queued, Kept sha256 e) : ∀ e ∈ (t.run sha256 q).queued, Kept sha256 e := by
  intro e he
  cases t with
  | create mailboxId => exact h e he
  | fetch mailboxId cursor limit now => exact h e he
  | ack mailboxId ids => exact h e (Table.mem_delete.1 he).1
  | expire now => exact h e (Table.mem_delete.1 he).1
  | put mailboxId deliveryId hpkeEnc ciphertext expiry now =>
    rcases kept_put he with hold | hkept
    · exact h e hold
    · exact hkept

theorem kept_after (ts : List Transaction) : ∀ e ∈ (storedAfter sha256 ts).queued, Kept sha256 e := by
  refine Trace.invariant (I := fun q : Queue => ∀ e ∈ q.queued, Kept sha256 e) (fun q t _ hq => kept_run hq)
    (Trace.meets_true _ ts) ?_
  intro e he
  exact absurd he (Table.not_mem_empty e)

theorem putEnvelope_again {e : QueuedEnvelope} {q : Queue} (he : e ∈ q.queued) (hkept : Kept sha256 e) {hpkeEnc ciphertext : Bytes}
    (hsize : AcceptedSize hpkeEnc ciphertext) (expiry now : Int) :
    putEnvelope sha256 e.mailboxId e.deliveryId hpkeEnc ciphertext expiry now q =
      if sha256 (e.hpkeEnc ++ e.ciphertext) = sha256 (hpkeEnc ++ ciphertext) then (.ok ⟨e.expiresAt, true, false⟩, q)
      else (.error .deliveryConflict, q) := by
  obtain ⟨henc, hct⟩ := hsize
  obtain ⟨hpos, hmax⟩ := hkept.deliveryId
  have hg : q.queued.get? (e.mailboxId, e.deliveryId) = some e := Table.get?_eq_some.2 ⟨he, rfl⟩
  unfold putEnvelope
  rw [if_neg (by omega)]
  simp only [hg, hkept.hashed, ne_eq, ite_not]

/-- A put under the id of an envelope is answered as a repeat exactly if its body is the
envelope's, and as a conflict otherwise; the store stays as it is. -/
def Distinguishes (sha256 : Bytes → Bytes) (q : Queue) (e : QueuedEnvelope) (hpkeEnc ciphertext : Bytes) (expiry now : Int) : Prop :=
  putEnvelope sha256 e.mailboxId e.deliveryId hpkeEnc ciphertext expiry now q =
    if e.hpkeEnc = hpkeEnc ∧ e.ciphertext = ciphertext then (.ok ⟨e.expiresAt, true, false⟩, q) else (.error .deliveryConflict, q)

/-- The relay tells bodies apart that are not the same bytes cut in another place. -/
theorem distinguishes_iff {ts : List Transaction} {e : QueuedEnvelope} (he : e ∈ (storedAfter sha256 ts).queued) {hpkeEnc ciphertext : Bytes}
    (hsize : AcceptedSize hpkeEnc ciphertext)
    (hsha : sha256 (e.hpkeEnc ++ e.ciphertext) = sha256 (hpkeEnc ++ ciphertext) → e.hpkeEnc ++ e.ciphertext = hpkeEnc ++ ciphertext)
    (expiry now : Int) :
    Distinguishes sha256 (storedAfter sha256 ts) e hpkeEnc ciphertext expiry now ↔
      (e.hpkeEnc ++ e.ciphertext = hpkeEnc ++ ciphertext → e.hpkeEnc.length = hpkeEnc.length) := by
  unfold Distinguishes
  rw [putEnvelope_again he (kept_after ts e he) hsize]
  constructor
  · intro h hsame
    rw [if_pos (congrArg sha256 hsame)] at h
    by_contra hlength
    rw [if_neg fun hbody => hlength (congrArg List.length hbody.1)] at h
    cases congrArg Prod.fst h
  · intro h
    refine if_congr ⟨fun hdigest => ?_, fun hbody => by rw [hbody.1, hbody.2]⟩ rfl rfl
    exact List.append_inj (hsha hdigest) (h (hsha hdigest))

/-- An envelope of the parts `[1]` and `[2, 3]`. -/
def shiftedBodyRun : List Transaction := [.create [0], .put [0] [7] [1] [2, 3] 0 0]

def shiftedBody : QueuedEnvelope := ⟨[0], 1, [7], [1, 2, 3], [1], [2, 3], 2592000⟩

theorem other_body_is_conflict : shiftedBody ∈ (storedAfter id shiftedBodyRun).queued ∧ AcceptedSize [1, 2] [4] ∧
    Distinguishes id (storedAfter id shiftedBodyRun) shiftedBody [1, 2] [4] 0 0 := by
  have hmem : shiftedBody ∈ (storedAfter id shiftedBodyRun).queued := by
    rw [Table.mem_def]
    decide
  exact ⟨hmem, by unfold AcceptedSize; decide, (distinguishes_iff hmem (by unfold AcceptedSize; decide) (fun h => h) 0 0).2 (by decide)⟩

/-- The same three bytes, cut one byte later, are answered as a repeat. -/
theorem shifted_body_is_duplicate : shiftedBody ∈ (storedAfter id shiftedBodyRun).queued ∧ AcceptedSize [1, 2] [3] ∧
    putEnvelope id [0] [7] [1, 2] [3] 0 0 (storedAfter id shiftedBodyRun) = (.ok ⟨2592000, true, false⟩, storedAfter id shiftedBodyRun) ∧
    ¬ Distinguishes id (storedAfter id shiftedBodyRun) shiftedBody [1, 2] [3] 0 0 := by
  have hmem : shiftedBody ∈ (storedAfter id shiftedBodyRun).queued := by
    rw [Table.mem_def]
    decide
  have hput := putEnvelope_again hmem (kept_after _ _ hmem) (⟨by decide, by decide⟩ : AcceptedSize [1, 2] [3]) 0 0
  rw [if_pos (show id (shiftedBody.hpkeEnc ++ shiftedBody.ciphertext) = id ([1, 2] ++ [3]) from rfl)] at hput
  refine ⟨hmem, ⟨by decide, by decide⟩, hput, fun h => ?_⟩
  have hconflict := hput.symm.trans h
  cases congrArg Prod.fst hconflict

end Arveil.RelayQueue

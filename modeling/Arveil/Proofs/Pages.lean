import Arveil.Lib.Trace
import Arveil.Proofs.Relay
import Arveil.Spec.Pages

/-! A reader of a mailbox misses nothing and receives nothing twice. Numbers only grow, so
an envelope that is stored late stands after every page that was read, and a page ends
where the next one begins. -/

namespace Arveil.RelayQueue

variable {sha256 : Bytes → Bytes} {mailbox : Bytes} {start : Nat}

theorem CountsOn.of_same {q q' : Queue} (h : q'.mailboxes = q.mailboxes) : CountsOn q q' :=
  fun m hm => ⟨m, h ▸ hm, rfl, le_rfl⟩

theorem countsOn_create (mailboxId : Bytes) (q : Queue) : CountsOn q (createMailbox mailboxId q) := by
  intro m hm
  refine ⟨m, ?_, rfl, le_rfl⟩
  show m ∈ q.mailboxes.insertOrIgnore ⟨mailboxId, 1⟩
  unfold Table.insertOrIgnore
  cases hi : q.mailboxes.insert ⟨mailboxId, 1⟩ with
  | none => exact hm
  | some t => exact (Table.mem_insert hi).2 (Or.inl hm)

theorem transaction_cases (sha256 : Bytes → Bytes) (t : Transaction) (q : Queue) :
    ((∀ e ∈ (t.run sha256 q).queued, e ∈ q.queued) ∧ t.handedOut sha256 q = [] ∧ CountsOn q (t.run sha256 q)) ∨
      ∃ mailboxId deliveryId e, Stores mailboxId deliveryId q (t.run sha256 q) e ∧
        t.handedOut sha256 q = [(e.mailboxId, e.seq)] := by
  cases t with
  | create mailboxId => exact Or.inl ⟨fun e he => he, rfl, countsOn_create mailboxId q⟩
  | ack mailboxId ids => exact Or.inl ⟨fun e he => (Table.mem_delete.1 he).1, rfl, .of_same rfl⟩
  | expire now => exact Or.inl ⟨fun e he => (Table.mem_delete.1 he).1, rfl, .of_same rfl⟩
  | fetch mailboxId cursor limit now => exact Or.inl ⟨fun e he => he, rfl, .refl q⟩
  | put mailboxId deliveryId hpkeEnc ciphertext expiry now =>
    have hunchanged {r : Except StoreError PutResult}
        (hr : putEnvelope sha256 mailboxId deliveryId hpkeEnc ciphertext expiry now q = (r, q)) :
        (∀ e ∈ (Transaction.run sha256 (.put mailboxId deliveryId hpkeEnc ciphertext expiry now) q).queued, e ∈ q.queued) ∧
          Transaction.handedOut sha256 (.put mailboxId deliveryId hpkeEnc ciphertext expiry now) q = [] ∧
          CountsOn q (Transaction.run sha256 (.put mailboxId deliveryId hpkeEnc ciphertext expiry now) q) := by
      simp only [Transaction.run, Transaction.handedOut, hr]
      refine ⟨fun e he => he, ?_, .refl q⟩
      cases q.queued.get? (mailboxId, deliveryId) <;> rfl
    rcases putEnvelope_cases sha256 mailboxId deliveryId hpkeEnc ciphertext expiry now q with
      ⟨e, he⟩ | ⟨e, r, -, -, hr⟩ | ⟨e, q', r, hs, -, -, hr⟩
    · exact Or.inl (hunchanged he)
    · exact Or.inl (hunchanged hr)
    · refine Or.inr ⟨mailboxId, deliveryId, e, by simpa only [Transaction.run, hr] using hs, ?_⟩
      have hnew : q'.queued.get? (mailboxId, deliveryId) = some e := by
        rw [Table.get?_insert hs.queued, if_pos hs.key]
      simp only [Transaction.handedOut, hr, hs.free, hnew]

theorem countsOn_run (t : Transaction) (q : Queue) : CountsOn q (t.run sha256 q) := by
  rcases transaction_cases sha256 t q with ⟨-, -, hcounts⟩ | ⟨mailboxId, deliveryId, e, hs, -⟩
  · exact hcounts
  · exact countsOn_numberTaken hs.mailboxes

def Acks (e : QueuedEnvelope) (ev : Event) : Prop := ∃ ids, ev = .other (.ack e.mailboxId ids) ∧ e.deliveryId ∈ ids

theorem mem_run {t : Transaction} {q : Queue} {e : QueuedEnvelope} (he : e ∈ q.queued) (hack : ¬ Acks e (.other t))
    (hlive : ∀ now ∈ t.time, now < e.expiresAt) : e ∈ (t.run sha256 q).queued := by
  cases t with
  | create mailboxId => exact he
  | fetch mailboxId cursor limit now => exact he
  | expire now =>
    refine Table.mem_delete.2 ⟨he, ?_⟩
    rw [decide_eq_false_iff_not, not_le]
    exact hlive now rfl
  | ack mailboxId ids =>
    refine Table.mem_delete.2 ⟨he, ?_⟩
    rw [Bool.and_eq_false_iff]
    by_cases hm : e.mailboxId = mailboxId
    · subst hm
      exact Or.inr (decide_eq_false fun hid => hack ⟨ids, rfl, hid⟩)
    · exact Or.inl (decide_eq_false hm)
  | put mailboxId deliveryId hpkeEnc ciphertext expiry now =>
    simp only [Transaction.run]
    rcases putEnvelope_cases sha256 mailboxId deliveryId hpkeEnc ciphertext expiry now q with
      ⟨x, hx⟩ | ⟨x, r, -, -, hr⟩ | ⟨x, q', r, hs, -, -, hr⟩
    · rwa [hx]
    · rwa [hr]
    · rw [hr]
      exact (Table.mem_insert hs.queued).2 (Or.inl he)

def Below (q : Queue) (p : Bytes × Nat) : Prop := ∃ m ∈ q.mailboxes, m.mailboxId = p.1 ∧ p.2 < m.nextSeq

theorem Below.mono {q q' : Queue} (h : CountsOn q q') {p : Bytes × Nat} (hp : Below q p) : Below q' p := by
  obtain ⟨m, hm, hid, hlt⟩ := hp
  obtain ⟨m', hm', hid', hle⟩ := h m hm
  exact ⟨m', hm', hid'.trans hid, lt_of_lt_of_le hlt hle⟩

theorem Stores.above {mailboxId deliveryId : Bytes} {q q' : Queue} {e : QueuedEnvelope}
    (h : Stores mailboxId deliveryId q q' e) {p : Bytes × Nat} (hp : Below q p) (hm : p.1 = e.mailboxId) : p.2 < e.seq := by
  obtain ⟨m, hmem, hid, hlt⟩ := hp
  rw [h.number_eq hmem (hid.trans (hm.trans (Prod.mk.inj h.key).1))]
  exact hlt

structure Numbered (w : Reading) : Prop where
  queued : ∀ e ∈ w.queue.queued, Below w.queue (e.mailboxId, e.seq)
  apart : ∀ e ∈ w.queue.queued, ∀ e' ∈ w.queue.queued, e.mailboxId = e'.mailboxId → e.seq = e'.seq → e = e'
  numbers : ∀ p ∈ w.numbers, Below w.queue p
  increasing : w.numbers.Pairwise fun p p' => p.1 = p'.1 → p.2 < p'.2

theorem numbered_other {w : Reading} (h : Numbered w) (t : Transaction) :
    Numbered (readStep sha256 mailbox w (.other t)) := by
  have hcounts : CountsOn w.queue (t.run sha256 w.queue) := countsOn_run t w.queue
  rcases transaction_cases sha256 t w.queue with ⟨hold, hnone, -⟩ | ⟨mailboxId, deliveryId, e, hs, hone⟩
  · simp only [readStep, hnone, List.append_nil]
    exact ⟨fun e he => (h.queued e (hold e he)).mono hcounts,
      fun e he e' he' => h.apart e (hold e he) e' (hold e' he'), fun p hp => (h.numbers p hp).mono hcounts, h.increasing⟩
  · have hmem : ∀ x, x ∈ (t.run sha256 w.queue).queued ↔ x ∈ w.queue.queued ∨ x = e := fun x => Table.mem_insert hs.queued
    have hbelow : Below (t.run sha256 w.queue) (e.mailboxId, e.seq) := by
      obtain ⟨m, hm, hid, hlt⟩ := hs.below
      exact ⟨m, hm, hid.trans (Prod.mk.inj hs.key).1.symm, hlt⟩
    -- what was there has lower numbers
    have hlower : ∀ x ∈ w.queue.queued, x.mailboxId = e.mailboxId → x.seq < e.seq :=
      fun x hx hm => hs.above (h.queued x hx) hm
    simp only [readStep, hone]
    refine ⟨?_, ?_, ?_, ?_⟩
    · intro x hx
      rcases (hmem x).1 hx with hx | rfl
      · exact (h.queued x hx).mono hcounts
      · exact hbelow
    · intro x hx y hy hm hseq
      rcases (hmem x).1 hx with hold | rfl <;> rcases (hmem y).1 hy with hold' | rfl
      · exact h.apart x hold y hold' hm hseq
      · exact absurd hseq (Nat.ne_of_lt (hlower x hold hm))
      · exact absurd hseq.symm (Nat.ne_of_lt (hlower y hold' hm.symm))
      · rfl
    · intro p hp
      rcases List.mem_append.1 hp with hp | hp
      · exact (h.numbers p hp).mono hcounts
      · rw [List.mem_singleton.1 hp]
        exact hbelow
    · rw [List.pairwise_append]
      refine ⟨h.increasing, List.pairwise_singleton _ _, fun p hp p' hp' hm => ?_⟩
      obtain rfl := List.mem_singleton.1 hp'
      exact hs.above (h.numbers p hp) hm

theorem numbered_step {w : Reading} (h : Numbered w) (ev : Event) : Numbered (readStep sha256 mailbox w ev) := by
  cases ev with
  | other t => exact numbered_other h t
  | read limit now => exact ⟨h.queued, h.apart, h.numbers, h.increasing⟩

theorem numbered_unread : Numbered (unread start) where
  queued e he := absurd he (Table.not_mem_empty e)
  apart e he := absurd he (Table.not_mem_empty e)
  numbers _ hp := absurd hp List.not_mem_nil
  increasing := List.Pairwise.nil

/-- An envelope whose number was handed out and that is gone does not come back. -/
theorem gone_step {w : Reading} {e : QueuedEnvelope} (hb : Below w.queue (e.mailboxId, e.seq))
    (hgone : e ∉ w.queue.queued) (ev : Event) : e ∉ (readStep sha256 mailbox w ev).queue.queued := by
  cases ev with
  | read limit now => exact hgone
  | other t =>
    rcases transaction_cases sha256 t w.queue with ⟨hold, -, -⟩ | ⟨mailboxId, deliveryId, x, hs, -⟩
    · exact fun he => hgone (hold e he)
    · intro he
      rcases (Table.mem_insert hs.queued).1 he with he | rfl
      · exact hgone he
      · exact absurd (hs.above hb rfl) (Nat.lt_irrefl _)

theorem mem_fetch {cursor limit : Nat} {now : Int} {q : Queue} {e : QueuedEnvelope}
    (h : e ∈ fetchEnvelopes mailbox cursor limit now q) :
    e ∈ q.queued ∧ e.mailboxId = mailbox ∧ cursor < e.seq ∧ now < e.expiresAt := by
  have hrow := (List.mem_insertionSort _).1 (List.mem_of_mem_take h)
  simp only [List.mem_filter, Bool.and_eq_true, decide_eq_true_eq] at hrow
  exact ⟨hrow.1, hrow.2.1.1, hrow.2.1.2, hrow.2.2⟩

theorem fetch_spec (mailbox : Bytes) {q : Queue} (hnum : ∀ e ∈ q.queued, ∀ e' ∈ q.queued, e.mailboxId = e'.mailboxId → e.seq = e'.seq → e = e')
    (cursor limit : Nat) (now : Int) :
    ∃ rows : List QueuedEnvelope, ∃ n, 0 < n ∧ fetchEnvelopes mailbox cursor limit now q = rows.take n ∧
      rows.Pairwise (fun e e' => e.seq < e'.seq) ∧
      ∀ e, e ∈ q.queued → e.mailboxId = mailbox → cursor < e.seq → now < e.expiresAt → e ∈ rows := by
  refine ⟨_, if limit = 0 ∨ 100 < limit then 100 else limit, ?_, rfl, ?_, ?_⟩
  · split <;> omega
  · -- sorted, and no number stands twice
    have hle := List.pairwise_insertionSort (fun a b : QueuedEnvelope => a.seq ≤ b.seq)
      (q.queued.rows.filter fun e => e.mailboxId = mailbox && decide (cursor < e.seq) && decide (now < e.expiresAt))
    have hnodup := (List.perm_insertionSort (fun a b : QueuedEnvelope => a.seq ≤ b.seq)
      (q.queued.rows.filter fun e => e.mailboxId = mailbox && decide (cursor < e.seq) && decide (now < e.expiresAt))).nodup_iff.2
        ((List.Nodup.of_map _ q.queued.nodup).filter _)
    refine (hle.and hnodup).imp_of_mem fun {a b} ha hb hab => ?_
    have hrow (x : QueuedEnvelope) (hx : x ∈ (q.queued.rows.filter fun e =>
        e.mailboxId = mailbox && decide (cursor < e.seq) && decide (now < e.expiresAt)).insertionSort fun a b => a.seq ≤ b.seq) :
        x ∈ q.queued ∧ x.mailboxId = mailbox := by
      have hx := (List.mem_insertionSort _).1 hx
      simp only [List.mem_filter, Bool.and_eq_true, decide_eq_true_eq] at hx
      exact ⟨hx.1, hx.2.1.1⟩
    refine lt_of_le_of_ne hab.1 fun heq => hab.2 ?_
    exact hnum a (hrow a ha).1 b (hrow b hb).1 ((hrow a ha).2.trans (hrow b hb).2.symm) heq
  · intro e he hm hc hl
    rw [List.mem_insertionSort, List.mem_filter]
    exact ⟨he, by simp [hm, hc, hl]⟩

/-- The page reaches the number of the envelope, or it is the last one. -/
def Covers (mailbox : Bytes) (w : Reading) (limit : Nat) (now : Int) (e : QueuedEnvelope) : Prop :=
  w.cursor < e.seq ∧ (e.seq ≤ nextCursor w.cursor (page mailbox w limit now) ∨ page mailbox w limit now = [])

theorem mem_page {w : Reading} (h : Numbered w) {limit : Nat} {now : Int} {e : QueuedEnvelope} (he : e ∈ w.queue.queued)
    (hm : e.mailboxId = mailbox) (hl : now < e.expiresAt) (hc : Covers mailbox w limit now e) :
    e ∈ page mailbox w limit now := by
  obtain ⟨rows, n, hn, hpage, hsorted, hall⟩ := fetch_spec mailbox h.apart w.cursor limit now
  have hrow := hall e he hm hc.1 hl
  unfold Covers page at hc
  unfold page
  rw [hpage] at hc ⊢
  rw [← List.take_append_drop n rows, List.mem_append] at hrow
  rcases hrow with hrow | hrow
  · exact hrow
  · rcases hc.2 with hle | hnil
    · -- whatever stands behind a page has a higher number than its last one
      rw [← List.take_append_drop n rows, List.pairwise_append] at hsorted
      cases hlast : (rows.take n).getLast? with
      | none =>
        rw [nextCursor, hlast] at hle
        exact absurd hle (Nat.not_le.2 hc.1)
      | some x =>
        rw [nextCursor, hlast] at hle
        exact absurd (hsorted.2.2 x (List.mem_of_getLast? hlast) e hrow) (Nat.not_lt.2 hle)
    · rw [List.take_eq_nil_iff] at hnil
      rcases hnil with hnil | hnil
      · omega
      · simp [hnil] at hrow

theorem page_sorted (mailbox : Bytes) {w : Reading} (h : Numbered w) (limit : Nat) (now : Int) :
    (page mailbox w limit now).Pairwise fun e e' => e.seq < e'.seq := by
  obtain ⟨rows, n, -, hpage, hsorted, -⟩ := fetch_spec mailbox h.apart w.cursor limit now
  unfold page
  rw [hpage]
  exact hsorted.sublist (List.take_sublist n rows)

theorem le_nextCursor {w : Reading} (h : Numbered w) {limit : Nat} {now : Int} {e : QueuedEnvelope}
    (he : e ∈ page mailbox w limit now) : e.seq ≤ nextCursor w.cursor (page mailbox w limit now) := by
  obtain ⟨front, last, hpage⟩ := List.eq_nil_or_concat' (page mailbox w limit now) |>.resolve_left (List.ne_nil_of_mem he)
  have hsorted := page_sorted mailbox h limit now
  rw [hpage] at he hsorted ⊢
  simp only [nextCursor, List.getLast?_concat, Option.map_some, Option.getD_some]
  rw [List.pairwise_append] at hsorted
  rcases List.mem_append.1 he with he | he
  · exact (hsorted.2.2 e he last (List.mem_singleton_self last)).le
  · exact (List.mem_singleton.1 he) ▸ le_rfl

theorem nextCursor_cases (w : Reading) (limit : Nat) (now : Int) :
    nextCursor w.cursor (page mailbox w limit now) = w.cursor ∨
      ∃ e ∈ page mailbox w limit now, nextCursor w.cursor (page mailbox w limit now) = e.seq := by
  unfold nextCursor
  cases hlast : (page mailbox w limit now).getLast? with
  | none => exact Or.inl rfl
  | some e => exact Or.inr ⟨e, List.mem_of_getLast? hlast, rfl⟩

structure Follows (mailbox : Bytes) (start : Nat) (w : Reading) : Prop extends Numbered w where
  received : w.received.Pairwise fun e e' => e.seq < e'.seq
  passed : ∀ e ∈ w.received, e.mailboxId = mailbox ∧ start < e.seq ∧ e.seq ≤ w.cursor
  forward : start ≤ w.cursor
  reached : w.cursor = start ∨ Below w.queue (mailbox, w.cursor)

theorem follows_unread : Follows mailbox start (unread start) where
  toNumbered := numbered_unread
  received := List.Pairwise.nil
  passed _ he := absurd he List.not_mem_nil
  forward := le_rfl
  reached := Or.inl rfl

theorem cursor_step (sha256 : Bytes → Bytes) (mailbox : Bytes) (w : Reading) (ev : Event) : w.cursor ≤ (readStep sha256 mailbox w ev).cursor := by
  cases ev with
  | other t => exact le_rfl
  | read limit now =>
    simp only [readStep]
    rcases nextCursor_cases w limit now with heq | ⟨e, he, heq⟩
    · exact heq.ge
    · rw [heq]
      exact (mem_fetch he).2.2.1.le

theorem follows_step {w : Reading} (h : Follows mailbox start w) (ev : Event) :
    Follows mailbox start (readStep sha256 mailbox w ev) := by
  cases ev with
  | other t =>
    exact ⟨numbered_other h.toNumbered t, h.received, h.passed, h.forward,
      h.reached.imp_right fun hb => hb.mono (countsOn_run t w.queue)⟩
  | read limit now =>
    have hcursor := cursor_step sha256 mailbox w (.read limit now)
    refine ⟨numbered_step h.toNumbered (.read limit now), ?_, ?_, h.forward.trans hcursor, ?_⟩
    · simp only [readStep]
      rw [List.pairwise_append]
      exact ⟨h.received, page_sorted mailbox h.toNumbered limit now,
        fun e he e' he' => lt_of_le_of_lt (h.passed e he).2.2 (mem_fetch he').2.2.1⟩
    · intro e he
      simp only [readStep, List.mem_append] at he ⊢
      rcases he with he | he
      · obtain ⟨hm, hs, hc⟩ := h.passed e he
        exact ⟨hm, hs, hc.trans hcursor⟩
      · obtain ⟨-, hm, hc, -⟩ := mem_fetch he
        exact ⟨hm, lt_of_le_of_lt h.forward hc, le_nextCursor h.toNumbered he⟩
    · simp only [readStep]
      rcases nextCursor_cases w limit now with heq | ⟨e, he, heq⟩
      · rw [heq]
        exact h.reached
      · rw [heq]
        obtain ⟨hq, hm, -, -⟩ := mem_fetch he
        exact Or.inr (hm ▸ h.queued e hq)

variable (sha256 mailbox) in
def after (w : Reading) (evs : List Event) : Reading := Trace.run (readStep sha256 mailbox) w evs

theorem after_append (w : Reading) (evs evs' : List Event) :
    after sha256 mailbox w (evs ++ evs') = after sha256 mailbox (after sha256 mailbox w evs) evs' :=
  Trace.run_append _ _ _ _

theorem follows_after {w : Reading} (h : Follows mailbox start w) (evs : List Event) :
    Follows mailbox start (after sha256 mailbox w evs) :=
  Trace.invariant (I := Follows mailbox start) (fun _ ev _ hw => follows_step hw ev) (Trace.meets_true w evs) h

theorem below_after {w : Reading} {p : Bytes × Nat} (hb : Below w.queue p) (evs : List Event) :
    Below (after sha256 mailbox w evs).queue p := by
  refine Trace.invariant (I := fun w : Reading => Below w.queue p) (fun w ev _ hw => ?_) (Trace.meets_true w evs) hb
  cases ev with
  | other t => exact hw.mono (countsOn_run t w.queue)
  | read limit now => exact hw

theorem gone_after {w : Reading} {e : QueuedEnvelope} (hb : Below w.queue (e.mailboxId, e.seq)) (hgone : e ∉ w.queue.queued)
    (evs : List Event) : e ∉ (after sha256 mailbox w evs).queue.queued := by
  induction evs generalizing w with
  | nil => exact hgone
  | cons ev evs ih => exact ih (below_after hb [ev]) (gone_step hb hgone ev)

theorem received_after {w : Reading} {e : QueuedEnvelope} (he : e ∈ w.received) (evs : List Event) :
    e ∈ (after sha256 mailbox w evs).received := by
  refine Trace.invariant (I := fun w : Reading => e ∈ w.received) (fun w ev _ hw => ?_) (Trace.meets_true w evs) he
  cases ev with
  | other t => exact hw
  | read limit now => exact List.mem_append_left _ hw

theorem cursor_after (sha256 : Bytes → Bytes) (mailbox : Bytes) (w : Reading) (evs : List Event) : w.cursor ≤ (after sha256 mailbox w evs).cursor :=
  Trace.invariant (I := fun w' : Reading => w.cursor ≤ w'.cursor) (fun w' ev _ hw => hw.trans (cursor_step sha256 mailbox w' ev))
    (Trace.meets_true w evs) le_rfl

theorem exists_covering {w : Reading} {e : QueuedEnvelope} (hc : w.cursor < e.seq) {evs : List Event} {limit : Nat} {now : Int}
    (hend : page mailbox (after sha256 mailbox w evs) limit now = []) :
    ∃ evs₁ l t evs₂, evs ++ [Event.read limit now] = evs₁ ++ Event.read l t :: evs₂ ∧
      Covers mailbox (after sha256 mailbox w evs₁) l t e := by
  induction evs generalizing w with
  | nil => exact ⟨[], limit, now, [], rfl, hc, Or.inr hend⟩
  | cons ev evs ih =>
    have hlater (hc' : (readStep sha256 mailbox w ev).cursor < e.seq) : ∃ evs₁ l t evs₂,
        ev :: evs ++ [Event.read limit now] = evs₁ ++ Event.read l t :: evs₂ ∧ Covers mailbox (after sha256 mailbox w evs₁) l t e := by
      obtain ⟨evs₁, l, t, evs₂, heq, hcov⟩ := ih hc' hend
      exact ⟨ev :: evs₁, l, t, evs₂, by rw [List.cons_append, heq, List.cons_append], hcov⟩
    cases ev with
    | other t => exact hlater hc
    | read l t =>
      by_cases hreach : e.seq ≤ nextCursor w.cursor (page mailbox w l t)
      · exact ⟨[], l, t, evs ++ [Event.read limit now], rfl, hc, Or.inl hreach⟩
      · exact hlater (Nat.not_le.1 hreach)

theorem standing_iff {w : Reading} (h : Follows mailbox start w) {e : QueuedEnvelope} (he : e ∈ w.queue.queued)
    {evs : List Event} {t : Int} (hclock : ∀ ev ∈ evs, ∀ s ∈ ev.time, s ≤ t) (hl : t < e.expiresAt) :
    e ∈ (after sha256 mailbox w evs).queue.queued ↔ ∀ ev ∈ evs, ¬ Acks e ev := by
  constructor
  · intro hstands ev hev hack
    obtain ⟨evs₁, evs₂, rfl⟩ := List.append_of_mem hev
    obtain ⟨ids, rfl, hid⟩ := hack
    have hb : Below (after sha256 mailbox w (evs₁ ++ [Event.other (.ack e.mailboxId ids)])).queue (e.mailboxId, e.seq) :=
      below_after (h.queued e he) _
    have hgone : e ∉ (after sha256 mailbox w (evs₁ ++ [Event.other (.ack e.mailboxId ids)])).queue.queued := by
      rw [after_append]
      intro hmem
      have hkept := (Table.mem_delete.1 hmem).2
      simp [hid] at hkept
    have hsplit : evs₁ ++ Event.other (.ack e.mailboxId ids) :: evs₂ = (evs₁ ++ [Event.other (.ack e.mailboxId ids)]) ++ evs₂ := by simp
    rw [hsplit, after_append] at hstands
    exact gone_after hb hgone evs₂ hstands
  · intro hack
    induction evs generalizing w with
    | nil => exact he
    | cons ev evs ih =>
      have hkept : e ∈ (readStep sha256 mailbox w ev).queue.queued := by
        cases ev with
        | read limit now => exact he
        | other t' =>
          exact mem_run he (hack _ List.mem_cons_self)
            fun s hs => lt_of_le_of_lt (hclock _ List.mem_cons_self s hs) hl
      exact ih (follows_step h ev) hkept (fun ev' hev => hclock ev' (List.mem_cons_of_mem _ hev))
        fun ev' hev => hack ev' (List.mem_cons_of_mem _ hev)

theorem received_in_page {w : Reading} {e : QueuedEnvelope} (hne : e ∉ w.received) {evs : List Event}
    (he : e ∈ (after sha256 mailbox w evs).received) :
    ∃ evs₁ l t evs₂, evs = evs₁ ++ Event.read l t :: evs₂ ∧ e ∈ page mailbox (after sha256 mailbox w evs₁) l t := by
  have hcame := Trace.provenance (P := fun (w : Reading) ev => ∃ l t, ev = Event.read l t ∧ e ∈ page mailbox w l t)
    (Q := fun w : Reading => e ∈ w.received) (I := fun _ => True) (fun _ _ _ _ => trivial) (fun w ev _ _ hq => ?_)
    (Trace.meets_true w evs) trivial he
  · obtain ⟨evs₁, ev, evs₂, rfl, l, t, rfl, hp⟩ := Trace.occurs_iff.1 (hcame.resolve_left hne)
    exact ⟨evs₁, l, t, evs₂, rfl, hp⟩
  · cases ev with
    | other t => exact Or.inl hq
    | read l t => exact (List.mem_append.1 hq).imp_right fun hp => ⟨l, t, rfl, hp⟩

def Ticks (evs : List Event) : Prop := evs.Pairwise fun ev ev' => ∀ s ∈ ev.time, ∀ t ∈ ev'.time, s ≤ t

/-- An envelope that a page covers is received in that page or not at all. -/
theorem received_iff {w : Reading} (h : Follows mailbox start w) {limit : Nat} {now : Int} {e : QueuedEnvelope}
    (hb : Below w.queue (e.mailboxId, e.seq)) (hcov : Covers mailbox w limit now e) {evs : List Event}
    (hclock : ∀ ev ∈ evs, ∀ t ∈ ev.time, now ≤ t) :
    e ∈ (after sha256 mailbox w (.read limit now :: evs)).received ↔ e ∈ page mailbox w limit now := by
  constructor
  · intro he
    have hne : e ∉ w.received := fun hr => absurd (h.passed e hr).2.2 (Nat.not_le.2 hcov.1)
    obtain ⟨evs₁, l, t, evs₂, heq, hp⟩ := received_in_page hne he
    cases evs₁ with
    | nil =>
      obtain ⟨hread, -⟩ := List.cons.inj heq
      obtain ⟨rfl, rfl⟩ := Event.read.inj hread
      exact hp
    | cons ev evs₁ =>
      obtain ⟨rfl, rfl⟩ := List.cons.inj heq
      obtain ⟨hq, hm, hc, hl⟩ := mem_fetch hp
      rcases hcov.2 with hreach | hnil
      · -- the cursor is past it from then on
        have hle := hreach.trans (cursor_after sha256 mailbox (readStep sha256 mailbox w (.read limit now)) evs₁)
        exact absurd hc (Nat.not_lt.2 hle)
      · have hthere : e ∈ w.queue.queued := by
          by_contra hgone
          exact gone_after hb hgone (.read limit now :: evs₁) hq
        have hnow : now < e.expiresAt := lt_of_le_of_lt (hclock (.read l t) (List.mem_append_right _ List.mem_cons_self) t rfl) hl
        exact mem_page h.toNumbered hthere hm hnow hcov
  · intro hp
    exact received_after (List.mem_append_right _ hp) evs

/-- An envelope stored under the reader's eyes stands after everything it has read. -/
theorem stored_ahead {w : Reading} (h : Follows mailbox start w) {ev : Event} {e : QueuedEnvelope}
    (hnew : e ∉ w.queue.queued) (he : e ∈ (readStep sha256 mailbox w ev).queue.queued) (hm : e.mailboxId = mailbox)
    (hs : start < e.seq) : (readStep sha256 mailbox w ev).cursor < e.seq := by
  cases ev with
  | read limit now => exact absurd he hnew
  | other t =>
    rcases transaction_cases sha256 t w.queue with ⟨hold, -, -⟩ | ⟨mailboxId, deliveryId, x, hst, -⟩
    · exact absurd (hold e he) hnew
    · obtain rfl : e = x := ((Table.mem_insert hst.queued).1 he).resolve_left hnew
      rcases h.reached with heq | hb
      · exact heq ▸ hs
      · exact hst.above hb hm.symm

/-- Whatever else happens, the numbers of each mailbox are handed out in increasing order,
and a reader that fetches until a page is empty receives envelopes in increasing order,
each once. One that it has not passed is covered by one of its pages, and is received
exactly when it is neither acknowledged nor expired before that page is read. -/
theorem reader_receives_each_once (sha256 : Bytes → Bytes) (mailbox : Bytes) (start : Nat) (evs : List Event) (limit : Nat)
    (now : Int) (hclock : Ticks (evs ++ [Event.read limit now]))
    (hend : page mailbox (after sha256 mailbox (unread start) evs) limit now = []) :
    let w := after sha256 mailbox (unread start) (evs ++ [Event.read limit now])
    (∀ m, ((w.numbers.filter fun p => p.1 = m).map (·.2)).Pairwise (· < ·)) ∧
    w.received.Pairwise (fun e e' => e.seq < e'.seq) ∧
    (∀ e ∈ w.received, e.mailboxId = mailbox ∧ start < e.seq) ∧
    (∀ a b e, evs = a ++ b → e ∈ (after sha256 mailbox (unread start) a).queue.queued → e.mailboxId = mailbox →
      (after sha256 mailbox (unread start) a).cursor < e.seq →
      ∃ b₁ l t b₂, b ++ [Event.read limit now] = b₁ ++ Event.read l t :: b₂ ∧
        Covers mailbox (after sha256 mailbox (unread start) (a ++ b₁)) l t e ∧
        (e ∈ w.received ↔ (∀ ev ∈ b₁, ¬ Acks e ev) ∧ t < e.expiresAt)) ∧
    (∀ a ev b e, evs = a ++ ev :: b → e ∉ (after sha256 mailbox (unread start) a).queue.queued →
      e ∈ (after sha256 mailbox (unread start) (a ++ [ev])).queue.queued → e.mailboxId = mailbox → start < e.seq →
      (after sha256 mailbox (unread start) (a ++ [ev])).cursor < e.seq) := by
  have hfollows (evs : List Event) : Follows mailbox start (after sha256 mailbox (unread start) evs) :=
    follows_after follows_unread evs
  refine ⟨fun m => ?_, (hfollows _).received, fun e he => ?_, ?_, ?_⟩
  · rw [List.pairwise_map]
    refine ((hfollows _).increasing.filter _).imp_of_mem fun {p p'} hp hp' hlt => hlt ?_
    simp only [List.mem_filter, decide_eq_true_eq] at hp hp'
    exact hp.2.trans hp'.2.symm
  · obtain ⟨hm, hs, -⟩ := (hfollows _).passed e he
    exact ⟨hm, hs⟩
  · rintro a b e rfl he hm hc
    rw [after_append] at hend
    obtain ⟨b₁, l, t, b₂, heq, hcov⟩ := exists_covering hc hend
    rw [← after_append] at hcov
    refine ⟨b₁, l, t, b₂, heq, hcov, ?_⟩
    rw [List.append_assoc, heq] at hclock ⊢
    obtain ⟨-, hb, -⟩ := List.pairwise_append.1 hclock
    obtain ⟨-, hafter, hbefore⟩ := List.pairwise_append.1 hb
    have hbelow : Below (after sha256 mailbox (unread start) (a ++ b₁)).queue (e.mailboxId, e.seq) := by
      rw [after_append]
      exact below_after ((hfollows a).queued e he) b₁
    rw [← List.append_assoc, after_append,
      received_iff (hfollows _) hbelow hcov fun ev hev s hs => (List.pairwise_cons.1 hafter).1 ev hev t rfl s hs]
    have hstanding (hl : t < e.expiresAt) :
        e ∈ (after sha256 mailbox (after sha256 mailbox (unread start) a) b₁).queue.queued ↔ ∀ ev ∈ b₁, ¬ Acks e ev :=
      standing_iff (hfollows a) he (fun ev hev s hs => hbefore ev hev _ List.mem_cons_self s hs t rfl) hl
    constructor
    · intro hp
      obtain ⟨hq, -, -, hl⟩ := mem_fetch hp
      rw [after_append] at hq
      exact ⟨(hstanding hl).1 hq, hl⟩
    · rintro ⟨hack, hl⟩
      refine mem_page (hfollows _).toNumbered ?_ hm hl hcov
      rw [after_append]
      exact (hstanding hl).2 hack
  · rintro a ev b e - hnew he hm hs
    rw [after_append] at he ⊢
    exact stored_ahead (hfollows a) hnew he hm hs

/-- Two envelopes are read one by one, the second only after a third came and the first
was acknowledged. -/
def demoEvents : List Event :=
  [.other (.create [1]), .other (.put [1] [7] [] [70] 0 5), .other (.put [1] [8] [] [80] 0 5), .read 1 6,
    .other (.ack [1] [[7]]), .other (.put [1] [9] [] [90] 0 7), .read 1 8, .read 50 8]

theorem demo_events_received :
    (after id [1] (unread 0) (demoEvents ++ [Event.read 50 9])).received.Pairwise (fun e e' => e.seq < e'.seq) ∧
      (after id [1] (unread 0) (demoEvents ++ [Event.read 50 9])).received.map (·.deliveryId) = [[7], [8], [9]] := by
  have hclock : Ticks (demoEvents ++ [Event.read 50 9]) := by
    simp [Ticks, demoEvents, Event.time, Transaction.time]
  have hend : page [1] (after id [1] (unread 0) demoEvents) 50 9 = [] := by decide +kernel
  exact ⟨(reader_receives_each_once id [1] 0 demoEvents 50 9 hclock hend).2.1, by decide +kernel⟩

end Arveil.RelayQueue

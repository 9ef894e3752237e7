import Arveil.Spec.Passes
import Arveil.Proofs.Publish
import Arveil.Proofs.Relay
import Arveil.Sanity.Demo

/-! What is known of every row of the outbox, and the steps that store nothing or only add rows. -/

namespace Arveil.Passes

open Delivery Sync RelayQueue

theorem answered_eq (row : OutboxRow) (reply : Except CliError Reply) (st : Store) :
    Publish.answered row reply st = (settle row reply (markAttempt row.id st)).1 := by
  rcases reply with e | reply
  · by_cases hcode : e.relayCode = some 403 ∨ e.relayCode = some 410
    · simp only [Publish.answered, settle, if_pos hcode]
    · simp only [Publish.answered, settle, if_neg hcode]
  · cases reply <;> rfl

theorem settles_eq (row : OutboxRow) (reply : Except CliError Reply) (st : Store) :
    Publish.settles reply = (settle row reply st).2 := by
  rcases reply with e | reply
  · by_cases hcode : e.relayCode = some 403 ∨ e.relayCode = some 410
    · simp only [settle, if_pos hcode]
      simpa [Publish.settles] using hcode
    · simp only [settle, if_neg hcode]
      simpa [Publish.settles] using hcode
  · cases reply <;> rfl

/-- A row that is published in one go is put, answered and settled as a pass does it. -/
theorem publishRow_steps (relay : Relay) (expiry : UInt64) {row : OutboxRow} {cap : Bytes} {w : World}
    (h : writeCapFor w.store row.mailboxId = some cap) :
    (publishRow relay expiry row w).2.store =
        (settle row (relay.answer w.sent (putPayload row cap expiry)) (markAttempt row.id w.store)).1 ∧
      ((∃ b, (publishRow relay expiry row w).1 = .ok b) ↔
        (settle row (relay.answer w.sent (putPayload row cap expiry)) (markAttempt row.id w.store)).2 = true) := by
  obtain ⟨r, hrun, hok⟩ := Publish.publishRow_some relay expiry h
  rw [hrun]
  exact ⟨answered_eq row _ w.store, by rw [← settles_eq]; exact hok⟩

/-- An outbox row but for its progress. -/
structure Slot where
  id : Nat
  mailbox : Bytes
  delivery : Bytes
deriving DecidableEq

def slot (r : OutboxRow) : Slot := ⟨r.id, r.mailboxId, r.deliveryId⟩

def slots (st : Store) : List Slot := st.outbox.rows.map slot

theorem slot_eq_of_id {st : Store} {x y : Slot} (hx : x ∈ slots st) (hy : y ∈ slots st) (h : x.id = y.id) : x = y := by
  obtain ⟨r, hr, rfl⟩ := List.mem_map.1 hx
  obtain ⟨r', hr', rfl⟩ := List.mem_map.1 hy
  rw [Table.eq_of_key (show r ∈ st.outbox from hr) hr' h]

def Stored (log : List Event) (x : Slot) : Prop := ∃ n, Event.stored x.id x.mailbox n ∈ log

/-- The relay stored a copy of the row, or the row was given up. -/
def Done (log : List Event) (x : Slot) : Prop := Stored log x ∨ Event.undeliverable x.id ∈ log

/-- All rows before this one are done with. -/
def Before (xs : List Slot) (log : List Event) (id : Nat) : Prop := ∀ x ∈ xs, x.id < id → Done log x

theorem Stored.mono {log l : List Event} {x : Slot} (h : Stored log x) : Stored (log ++ l) x :=
  h.imp fun _ hn => List.mem_append_left l hn

theorem Done.mono {log l : List Event} {x : Slot} (h : Done log x) : Done (log ++ l) x :=
  h.imp Stored.mono (List.mem_append_left l)

theorem Before.mono {xs : List Slot} {log l : List Event} {id : Nat} (h : Before xs log id) : Before xs (log ++ l) id :=
  fun x hx hlt => (h x hx hlt).mono

def Pass.todo (p : Pass) : List OutboxRow := (p.waiting.map (·.2)).toList ++ p.rows

structure PassInv (s : System) (p : Pass) : Prop where
  known : ∀ r ∈ p.todo, slot r ∈ slots s.store
  sorted : p.todo.Pairwise fun a b => a.id < b.id
  before : ∀ r ∈ p.todo, ∀ x ∈ slots s.store, x.id < r.id → Done s.log x ∨ ∃ y ∈ p.todo, y.id = x.id
  waits : ∀ k r, p.waiting = some (k, r) → k < s.requests ∧ (∀ q ∈ s.puts, q.request = k → q.row = r) ∧
    ∀ a ∈ s.answers, a.request = k → ∀ e, a.reply = .ok (.envelopeAccepted e) → Stored s.log (slot r)

def Rises (a b : Event) : Prop := ∀ i mailbox n j n', a = .stored i mailbox n → b = .stored j mailbox n' → n < n'

structure Inv (s : System) : Prop where
  ascending : (slots s.store).Pairwise fun a b => a.id < b.id
  unique : ∀ x ∈ slots s.store, ∀ y ∈ slots s.store, x.mailbox = y.mailbox → x.delivery = y.delivery → x = y
  settled : ∀ r ∈ s.store.outbox, r.state ≠ .sealed → Done s.log (slot r)
  passes : ∀ i p, s.passes i = some p → PassInv s p
  puts : ∀ q ∈ s.puts, slot q.row ∈ slots s.store ∧ Before (slots s.store) s.log q.row.id ∧ q.request < s.requests
  answers : ∀ a ∈ s.answers, a.request < s.requests
  queued : ∀ e ∈ s.queue.queued, ∀ x ∈ slots s.store, x.mailbox = e.mailboxId → x.delivery = e.deliveryId → Stored s.log x
  logged : ∀ before id mailbox n after, s.log = before ++ Event.stored id mailbox n :: after →
    (∃ x ∈ slots s.store, x.id = id ∧ x.mailbox = mailbox) ∧ Before (slots s.store) before id
  numbered : ∀ id mailbox n, .stored id mailbox n ∈ s.log → ∃ m ∈ s.queue.mailboxes, m.mailboxId = mailbox ∧ n < m.nextSeq
  rising : s.log.Pairwise Rises

theorem mem_updateOutbox {id : Nat} {f : OutboxRow → OutboxRow} {hf : ∀ r, (f r).id = r.id} {st : Store} {r : OutboxRow}
    (h : r ∈ (updateOutbox id f hf st).outbox) : (∃ r' ∈ st.outbox, r'.id = id ∧ r = f r') ∨ (r ∈ st.outbox ∧ r.id ≠ id) := by
  simp only [updateOutbox, Table.mem_update] at h
  obtain ⟨r', hr', rfl⟩ := h
  by_cases hid : r'.id = id
  · exact Or.inl ⟨r', hr', hid, by simp [hid]⟩
  · exact Or.inr ⟨by simpa [hid] using hr', by simp [hid]⟩

theorem slots_update (id : Nat) {f : OutboxRow → OutboxRow} {hf : ∀ r, (f r).id = r.id} (hs : ∀ r, slot (f r) = slot r)
    (st : Store) : slots (updateOutbox id f hf st) = slots st := by
  unfold slots updateOutbox Table.update
  rw [List.map_map]
  refine List.map_congr_left fun r _ => ?_
  simp only [Function.comp_apply]
  split
  · exact hs r
  · rfl

theorem slots_settle (row : OutboxRow) (reply : Except CliError Reply) (st : Store) :
    slots (settle row reply st).1 = slots st := by
  rcases reply with e | reply
  · by_cases hcode : e.relayCode = some 403 ∨ e.relayCode = some 410
    · simp only [settle, if_pos hcode]
      refine slots_update row.id ?_ st
      exact fun _ => rfl
    · simp only [settle, if_neg hcode]
  · cases reply
    case envelopeAccepted expiry =>
      refine slots_update row.id ?_ st
      exact fun _ => rfl
    all_goals rfl

theorem PassInv.keep {s s' : System} {p : Pass} (h : PassInv s p) (hs : slots s'.store = slots s.store)
    (hl : ∃ l, s'.log = s.log ++ l) (hr : s.requests ≤ s'.requests)
    (hp : ∀ q ∈ s'.puts, q ∈ s.puts ∨ s.requests ≤ q.request)
    (ha : ∀ a ∈ s'.answers, a ∈ s.answers ∨ ∀ k r, p.waiting = some (k, r) → a.request = k →
      ∀ e, a.reply = .ok (.envelopeAccepted e) → Stored s'.log (slot r)) : PassInv s' p := by
  obtain ⟨l, hl⟩ := hl
  refine ⟨by rw [hs]; exact h.known, h.sorted, ?_, ?_⟩
  · intro r hr x hx hlt
    rw [hs] at hx
    rw [hl]
    exact (h.before r hr x hx hlt).imp_left Done.mono
  · intro k r hw
    obtain ⟨hk, hputs, hanswers⟩ := h.waits k r hw
    refine ⟨hk.trans_le hr, fun q hq hqk => ?_, fun a ha' hak e he => ?_⟩
    · rcases hp q hq with hold | hnew
      · exact hputs q hold hqk
      · omega
    · rcases ha a ha' with hold | hnew
      · rw [hl]
        exact (hanswers a hold hak e he).mono
      · exact hnew k r hw hak e he

/-- A step that names no new row, sends no put and stores nothing of ours. -/
structure Quiet (s s' : System) : Prop where
  slots : slots s'.store = slots s.store
  log : ∃ l, s'.log = s.log ++ l ∧ ∀ e ∈ l, ∃ id, e = .undeliverable id
  settled : ∀ r ∈ s'.store.outbox, r.state ≠ .sealed → Done s'.log (slot r)
  passes : ∀ i p, s'.passes i = some p → PassInv s' p
  puts : ∀ q ∈ s'.puts, q ∈ s.puts
  answers : ∀ a ∈ s'.answers, a ∈ s.answers
  requests : s'.requests = s.requests
  queued : ∀ e ∈ s'.queue.queued, e ∈ s.queue.queued ∨
    ∀ x ∈ Passes.slots s.store, ¬ (x.mailbox = e.mailboxId ∧ x.delivery = e.deliveryId)
  mailboxes : CountsOn s.queue s'.queue

theorem split_stored {log l before after : List Event} {id n : Nat} {mailbox : Bytes}
    (hl : ∀ e ∈ l, ∃ id, e = .undeliverable id) (h : log ++ l = before ++ Event.stored id mailbox n :: after) :
    ∃ after', log = before ++ Event.stored id mailbox n :: after' := by
  rcases List.append_eq_append_iff.1 h with ⟨mid, hb, hl'⟩ | ⟨mid, hb, hl'⟩
  · have hmem : Event.stored id mailbox n ∈ l := by
      rw [hl']
      exact List.mem_append_right _ List.mem_cons_self
    obtain ⟨id', he⟩ := hl _ hmem
    cases he
  · cases mid with
    | nil =>
      have hmem : Event.stored id mailbox n ∈ l := by
        rw [List.nil_append] at hl'
        rw [← hl']
        exact List.mem_cons_self
      obtain ⟨id', he⟩ := hl _ hmem
      cases he
    | cons e mid =>
      obtain ⟨rfl, -⟩ := List.cons.inj hl'
      exact ⟨mid, hb⟩

theorem Inv.quiet {s s' : System} (h : Inv s) (hq : Quiet s s') : Inv s' := by
  obtain ⟨l, hlog, hl⟩ := hq.log
  refine ⟨by rw [hq.slots]; exact h.ascending, by rw [hq.slots]; exact h.unique, hq.settled, hq.passes, ?_, ?_, ?_, ?_, ?_, ?_⟩
  · intro q hq'
    obtain ⟨hknown, hbefore, hreq⟩ := h.puts q (hq.puts q hq')
    rw [hq.slots, hq.requests, hlog]
    exact ⟨hknown, hbefore.mono, hreq⟩
  · intro a ha
    rw [hq.requests]
    exact h.answers a (hq.answers a ha)
  · intro e he x hx hm hd
    rw [hq.slots] at hx
    rcases hq.queued e he with hold | hfree
    · rw [hlog]
      exact (h.queued e hold x hx hm hd).mono
    · exact absurd ⟨hm, hd⟩ (hfree x hx)
  · intro before id mailbox n after hsplit
    rw [hlog] at hsplit
    obtain ⟨after', hold⟩ := split_stored hl hsplit
    rw [hq.slots]
    exact h.logged before id mailbox n after' hold
  · intro id mailbox n hmem
    rw [hlog] at hmem
    rcases List.mem_append.1 hmem with hold | hnew
    · obtain ⟨m, hm, hid, hlt⟩ := h.numbered id mailbox n hold
      obtain ⟨m', hm', hid', hle⟩ := hq.mailboxes m hm
      exact ⟨m', hm', hid'.trans hid, hlt.trans_le hle⟩
    · obtain ⟨id', he⟩ := hl _ hnew
      cases he
  · rw [hlog]
    refine List.pairwise_append.2 ⟨h.rising, ?_, ?_⟩
    · refine List.pairwise_of_forall_mem_list fun a ha b hb i mailbox n j n' hsa hsb => ?_
      obtain ⟨id', he⟩ := hl a ha
      simp [he] at hsa
    · intro a ha b hb i mailbox n j n' hsa hsb
      obtain ⟨id', he⟩ := hl b hb
      simp [he] at hsb

theorem Inv.fewer {s s' : System} (h : Inv s) (ho : s'.store.outbox = s.store.outbox) (hl : s'.log = s.log)
    (hr : s'.requests = s.requests) (hp : ∀ i p, s'.passes i = some p → s.passes i = some p)
    (hputs : ∀ q ∈ s'.puts, q ∈ s.puts) (ha : ∀ a ∈ s'.answers, a ∈ s.answers)
    (hq : ∀ e ∈ s'.queue.queued, e ∈ s.queue.queued ∨
      ∀ x ∈ slots s.store, ¬ (x.mailbox = e.mailboxId ∧ x.delivery = e.deliveryId))
    (hm : CountsOn s.queue s'.queue) : Inv s' := by
  have hslots : slots s'.store = slots s.store := by
    unfold slots
    rw [ho]
  refine h.quiet ⟨hslots, ⟨[], by simpa using hl, by simp⟩, ?_, fun i p hi => ?_, hputs, ha, hr, hq, hm⟩
  · rw [ho, hl]
    exact h.settled
  · exact (h.passes i p (hp i p hi)).keep hslots ⟨[], by simpa using hl⟩ hr.ge (fun q hq => Or.inl (hputs q hq))
      fun a ha' => Or.inl (ha a ha')

theorem Inv.withoutPass {s : System} (h : Inv s) (i : Nat) : Inv (setPass s i none) := by
  refine h.fewer rfl rfl rfl (fun j p hj => ?_) (fun q hq => hq) (fun a ha => ha) (fun e he => Or.inl he) (CountsOn.refl _)
  by_cases hij : j = i
  · subst hij
    simp [setPass] at hj
  · simpa [setPass, hij] using hj

theorem inv_other {s : System} (h : Inv s) (sha256 : Bytes → Bytes) (mailbox deliveryId hpkeEnc ciphertext : Bytes)
    (expiry now : Int) : Inv (step sha256 s (.other mailbox deliveryId hpkeEnc ciphertext expiry now)) := by
  unfold step
  simp only
  split
  · exact h
  · next hfree =>
    have hslot : ∀ x ∈ slots s.store, ¬ (x.mailbox = mailbox ∧ x.delivery = deliveryId) := by
      intro x hx hkey
      obtain ⟨r, hr, rfl⟩ := List.mem_map.1 hx
      exact hfree (List.any_eq_true.2 ⟨r, hr, by simpa [slot] using hkey⟩)
    rcases putEnvelope_cases sha256 mailbox deliveryId hpkeEnc ciphertext expiry now s.queue with
      ⟨e, he⟩ | ⟨e, r, -, -, hr⟩ | ⟨e, q', r, hs, -, -, hr⟩
    · rw [he]
      exact h
    · rw [hr]
      exact h
    · rw [hr]
      refine h.fewer rfl rfl rfl (fun _ _ hp => hp) (fun _ hq => hq) (fun _ ha => ha) (fun e' he' => ?_)
        (countsOn_numberTaken hs.mailboxes)
      rcases (Table.mem_insert hs.queued).1 he' with hold | rfl
      · exact Or.inl hold
      · obtain ⟨hk1, hk2⟩ := Prod.mk.inj hs.key
        exact Or.inr fun x hx hkey => hslot x hx ⟨hkey.1.trans hk1, hkey.2.trans hk2⟩

theorem inv_start {s : System} (h : Inv s) (sha256 : Bytes → Bytes) (i : Nat) : Inv (step sha256 s (.start i)) := by
  unfold step
  simp only
  split
  · exact h
  · refine h.quiet ⟨rfl, ⟨[], by simp [setPass], by simp⟩, h.settled, fun j p hj => ?_, fun _ hq => hq, fun _ ha => ha, rfl,
      fun _ he => Or.inl he, CountsOn.refl _⟩
    by_cases hij : j = i
    · subst hij
      simp only [setPass, Function.update_self, Option.some.injEq] at hj
      subst hj
      refine ⟨fun r hr => ?_, ?_, fun r hr x hx hlt => ?_, fun k r hw => ?_⟩
      · exact List.mem_map.2 ⟨r, (Publish.mem_pending.1 hr).1, rfl⟩
      · have hle : (pending s.store).Pairwise fun a b => a.id ≤ b.id := List.pairwise_insertionSort _ _
        have hne : (pending s.store).Pairwise fun a b => a.id ≠ b.id := List.pairwise_map.1 (Publish.pending_ids_nodup s.store)
        exact (hle.and hne).imp fun hab => lt_of_le_of_ne hab.1 hab.2
      · obtain ⟨r', hr', rfl⟩ := List.mem_map.1 hx
        by_cases hsealed : r'.state = .sealed
        · exact Or.inr ⟨r', Publish.mem_pending.2 ⟨hr', hsealed⟩, rfl⟩
        · exact Or.inl (h.settled r' hr' hsealed)
      · cases hw
    · have hj' : s.passes j = some p := by simpa [setPass, hij] using hj
      exact (h.passes j p hj').keep rfl ⟨[], by simp [setPass]⟩ le_rfl (fun _ hq => Or.inl hq) fun _ ha => Or.inl ha

theorem enqueue_rows (mailbox deliveryId : Bytes) (eventId : Option Bytes) (hpkeEnc ciphertext : Bytes) (st : Store) :
    (Delivery.enqueue mailbox deliveryId eventId hpkeEnc ciphertext st).2 = st ∨
      ∃ t : Table OutboxRow.id, (Delivery.enqueue mailbox deliveryId eventId hpkeEnc ciphertext st).2 = { st with outbox := t } ∧
        t.rows = st.outbox.rows ++
          [⟨nextId st.outbox.rows, mailbox, deliveryId, eventId, hpkeEnc, ciphertext, .sealed, 0, none⟩] ∧
        ∀ x ∈ slots st, ¬ (x.mailbox = mailbox ∧ x.delivery = deliveryId) := by
  unfold Delivery.enqueue Prog.tryModify
  simp only
  by_cases hany : st.outbox.rows.any (fun r => r.mailboxId = mailbox && r.deliveryId = deliveryId) = true
  · rw [if_pos hany]
    exact Or.inl rfl
  · rw [if_neg hany]
    cases ht : st.outbox.insert
        ⟨nextId st.outbox.rows, mailbox, deliveryId, eventId, hpkeEnc, ciphertext, .sealed, 0, none⟩ with
    | none => exact Or.inl rfl
    | some t =>
      refine Or.inr ⟨t, rfl, (Table.insert_eq_some ht).1, fun x hx hkey => ?_⟩
      obtain ⟨r, hr, rfl⟩ := List.mem_map.1 hx
      exact hany (List.any_eq_true.2 ⟨r, hr, by simpa [slot] using hkey⟩)

theorem slot_lt_nextId {st : Store} {x : Slot} (h : x ∈ slots st) : x.id < nextId st.outbox.rows := by
  obtain ⟨r, hr, rfl⟩ := List.mem_map.1 h
  exact lt_nextId hr

/-- The new row comes after every row there is, and after everything on its way. -/
theorem inv_enqueue {s : System} (h : Inv s) (sha256 : Bytes → Bytes) (mailbox deliveryId : Bytes) (eventId : Option Bytes)
    (hpkeEnc ciphertext : Bytes) : Inv (step sha256 s (.enqueue mailbox deliveryId eventId hpkeEnc ciphertext)) := by
  unfold step
  simp only
  split
  · exact h
  · next hfree =>
    rcases enqueue_rows mailbox deliveryId eventId hpkeEnc ciphertext s.store with hsame | ⟨t, hstore, hrows, hkeys⟩
    · rw [hsame]
      exact h
    · rw [hstore]
      set new : Slot := ⟨nextId s.store.outbox.rows, mailbox, deliveryId⟩ with hnew
      have hslots : slots { s.store with outbox := t } = slots s.store ++ [new] := by
        unfold slots
        simp only [hrows, List.map_append, List.map_cons, List.map_nil]
        rfl
      have hmem {x : Slot} : x ∈ slots { s.store with outbox := t } ↔ x ∈ slots s.store ∨ x = new := by
        rw [hslots]
        simp
      -- what stands before a row that was there is what stood before it
      have hbefore {log : List Event} {x : Slot} (hx : x ∈ slots s.store) (hb : Before (slots s.store) log x.id) :
          Before (slots { s.store with outbox := t }) log x.id := by
        intro y hy hlt
        rcases hmem.1 hy with hold | rfl
        · exact hb y hold hlt
        · have := slot_lt_nextId hx
          simp only [hnew] at hlt
          omega
      refine ⟨?_, fun x hx y hy hm hd => ?_, ?_, fun i p hp => ?_, fun q hq => ?_, h.answers, fun e he x hx hm hd => ?_, ?_,
        h.numbered, h.rising⟩
      · show (slots { s.store with outbox := t }).Pairwise _
        rw [hslots]
        refine List.pairwise_append.2 ⟨h.ascending, List.pairwise_singleton _ _, fun x hx y hy => ?_⟩
        rw [List.mem_singleton.1 hy]
        exact slot_lt_nextId hx
      · rcases hmem.1 hx with hx | rfl <;> rcases hmem.1 hy with hy | rfl
        · exact h.unique x hx y hy hm hd
        · exact absurd ⟨hm, hd⟩ (hkeys x hx)
        · exact absurd ⟨hm.symm, hd.symm⟩ (hkeys y hy)
        · rfl
      · intro r hr hstate
        have hr : r ∈ t.rows := hr
        rw [hrows] at hr
        rcases List.mem_append.1 hr with hold | hlast
        · exact h.settled r hold hstate
        · rw [List.mem_singleton.1 hlast] at hstate
          exact absurd rfl hstate
      · have hpass := h.passes i p hp
        refine ⟨fun r hr => hmem.2 (Or.inl (hpass.known r hr)), hpass.sorted, fun r hr x hx hlt => ?_, hpass.waits⟩
        rcases hmem.1 hx with hold | rfl
        · exact hpass.before r hr x hold hlt
        · have hlt' : r.id < nextId s.store.outbox.rows := slot_lt_nextId (hpass.known r hr)
          simp only [hnew] at hlt
          omega
      · obtain ⟨hknown, hb, hreq⟩ := h.puts q hq
        exact ⟨hmem.2 (Or.inl hknown), hbefore hknown hb, hreq⟩
      · rcases hmem.1 hx with hold | rfl
        · exact h.queued e he x hold hm hd
        · refine absurd (Option.isSome_iff_exists.2 ⟨e, Table.get?_eq_some.2 ⟨he, ?_⟩⟩) hfree
          exact Prod.ext hm.symm hd.symm
      · intro before id mb n after hlog
        obtain ⟨⟨x, hx, hid, hmb⟩, hb⟩ := h.logged before id mb n after hlog
        subst hid
        exact ⟨⟨x, hmem.2 (Or.inl hx), rfl, hmb⟩, hbefore hx hb⟩

end Arveil.Passes

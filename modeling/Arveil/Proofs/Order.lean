import Arveil.Proofs.Order.Rows

/-! The order of a mailbox. A pass comes to a row only when it has settled all earlier
ones of its snapshot, and what its snapshot leaves out was settled before; so every put
on its way, however late, leaves with all earlier rows settled. -/

namespace Arveil.Passes

open Client Delivery RelayQueue

/-- A pass that sends has settled everything before the row. -/
theorem PassInv.head {s : System} {row : OutboxRow} {rest : List OutboxRow} (h : PassInv s ⟨row :: rest, none⟩) :
    Before (slots s.store) s.log row.id := by
  intro x hx hlt
  rcases h.before row List.mem_cons_self x hx hlt with hdone | ⟨y, hy, hid⟩
  · exact hdone
  · rcases List.mem_cons.1 hy with rfl | hy
    · omega
    · have := (List.pairwise_cons.1 h.sorted).1 y hy
      omega

theorem inv_send {s : System} (h : Inv s) (sha256 : Bytes → Bytes) (i : Nat) (expiry : UInt64) :
    Inv (step sha256 s (.send i expiry)) := by
  unfold step
  simp only
  split
  · next row rest hi =>
    split
    · exact h.withoutPass i
    · next cap hcap =>
      have hpass := h.passes i _ hi
      have hslots : slots (markAttempt row.id s.store) = slots s.store := by
        refine slots_update row.id ?_ s.store
        exact fun _ => rfl
      refine ⟨by rw [hslots]; exact h.ascending, by rw [hslots]; exact h.unique, fun r hr hstate => ?_, fun j p hj => ?_,
        fun q hq => ?_, fun a ha => ?_, ?_, by rw [hslots]; exact h.logged, h.numbered, h.rising⟩
      · rcases mem_updateOutbox hr with ⟨r', hr', -, rfl⟩ | ⟨hold, -⟩
        · have hdone : Done s.log (slot r') := h.settled r' hr' hstate
          exact hdone
        · exact h.settled r hold hstate
      · by_cases hij : j = i
        · subst hij
          simp only [setPass, Function.update_self, Option.some.injEq] at hj
          subst hj
          refine ⟨by rw [hslots]; exact hpass.known, hpass.sorted, by rw [hslots]; exact hpass.before, fun k r hw => ?_⟩
          obtain ⟨rfl, rfl⟩ := Prod.mk.inj (Option.some.inj hw)
          refine ⟨Nat.lt_succ_self _, fun q hq hk => ?_, fun a ha hk => ?_⟩
          · rcases List.mem_append.1 hq with hold | hnew
            · have := (h.puts q hold).2.2
              omega
            · rw [List.mem_singleton.1 hnew]
          · have := h.answers a ha
            omega
        · have hj' : s.passes j = some p := by simpa [setPass, hij] using hj
          refine (h.passes j p hj').keep hslots ⟨[], by simp [setPass]⟩ (Nat.le_succ _) (fun q hq => ?_) fun a ha => Or.inl ha
          rcases List.mem_append.1 hq with hold | hnew
          · exact Or.inl hold
          · rw [List.mem_singleton.1 hnew]
            exact Or.inr le_rfl
      · rw [hslots]
        rcases List.mem_append.1 hq with hold | hnew
        · obtain ⟨hknown, hb, hreq⟩ := h.puts q hold
          exact ⟨hknown, hb, hreq.trans (Nat.lt_succ_self _)⟩
        · rw [List.mem_singleton.1 hnew]
          exact ⟨hpass.known row List.mem_cons_self, hpass.head, Nat.lt_succ_self _⟩
      · exact (h.answers a ha).trans (Nat.lt_succ_self _)
      · rw [hslots]
        exact h.queued
  · exact h.withoutPass i
  · exact h

theorem Inv.answered {s : System} (h : Inv s) {p : Put} (hp : p ∈ s.puts) {i : Nat} {pass : Pass} (hi : s.passes i = some pass)
    {k : Nat} {r : OutboxRow} (hw : pass.waiting = some (k, r)) (hk : p.request = k) : p.row = r :=
  ((h.passes i pass hi).waits k r hw).2.1 p hp hk

theorem mem_takePut_answers {s : System} {n : Nat} {p : Put} {r : Frame × Queue} {lost : Bool} {a : Answer}
    (h : a ∈ (takePut s n p r lost).answers) : a ∈ s.answers ∨ a = ⟨p.request, r.1⟩ := by
  simp only [takePut] at h
  split at h
  · exact Or.inl h
  · rcases List.mem_append.1 h with hold | hnew
    · exact Or.inl hold
    · exact Or.inr (List.mem_singleton.1 hnew)

theorem inv_takePut {s : System} (h : Inv s) {n : Nat} {p : Put} (hp : p ∈ s.puts) {r : Frame × Queue} {lost : Bool}
    (hstored : ∀ e, r.1 = .ok (.envelopeAccepted e) → Stored (s.log ++ storedBy p s.queue r.2) (slot p.row))
    (hqueued : ∀ e ∈ r.2.queued, e ∈ s.queue.queued ∨
      ((e.mailboxId, e.deliveryId) = (p.row.mailboxId, p.row.deliveryId) ∧
        Stored (s.log ++ storedBy p s.queue r.2) (slot p.row)))
    (hlogged : ∀ before id mailbox m after, s.log ++ storedBy p s.queue r.2 = before ++ Event.stored id mailbox m :: after →
      (∃ x ∈ slots s.store, x.id = id ∧ x.mailbox = mailbox) ∧ Before (slots s.store) before id)
    (hnumbered : ∀ id mailbox m, Event.stored id mailbox m ∈ s.log ++ storedBy p s.queue r.2 →
      ∃ row ∈ r.2.mailboxes, row.mailboxId = mailbox ∧ m < row.nextSeq)
    (hrising : (s.log ++ storedBy p s.queue r.2).Pairwise Rises) : Inv (takePut s n p r lost) := by
  refine ⟨h.ascending, h.unique, fun x hx hstate => (h.settled x hx hstate).mono, fun i pass hi => ?_, fun q hq => ?_, fun a ha => ?_,
    fun e he x hx hm hd => ?_, hlogged, hnumbered, hrising⟩
  · refine (h.passes i pass hi).keep rfl ⟨_, rfl⟩ le_rfl (fun q hq => Or.inl (List.mem_of_mem_eraseIdx hq)) fun a ha => ?_
    rcases mem_takePut_answers ha with hold | rfl
    · exact Or.inl hold
    · refine Or.inr fun k row hw hk e he => ?_
      rw [← h.answered hp hi hw hk]
      exact hstored e he
  · obtain ⟨hknown, hb, hreq⟩ := h.puts q (List.mem_of_mem_eraseIdx hq)
    exact ⟨hknown, hb.mono, hreq⟩
  · rcases mem_takePut_answers ha with hold | rfl
    · exact h.answers a hold
    · exact (h.puts p hp).2.2
  · rcases hqueued e he with hold | ⟨hkey, hst⟩
    · exact (h.queued e hold x hx hm hd).mono
    · obtain ⟨hk1, hk2⟩ := Prod.mk.inj hkey
      rw [h.unique x hx _ (h.puts p hp).1 (hm.trans hk1) (hd.trans hk2)]
      exact hst

theorem storedBy_same (p : Put) (q : Queue) : storedBy p q q = [] := by
  unfold storedBy
  cases q.queued.get? (p.row.mailboxId, p.row.deliveryId) <;> rfl

theorem storedBy_stores {p : Put} {q q' : Queue} {e : QueuedEnvelope} (h : Stores p.row.mailboxId p.row.deliveryId q q' e) :
    storedBy p q q' = [.stored p.row.id p.row.mailboxId e.seq] := by
  unfold storedBy
  rw [h.free, Table.get?_insert h.queued, if_pos h.key]
  simp only [(Prod.mk.inj h.key).1]

theorem split_snoc {log before after : List Event} {id m row n : Nat} {mailbox mb : Bytes}
    (h : log ++ [Event.stored row mb n] = before ++ Event.stored id mailbox m :: after) :
    (∃ after', log = before ++ Event.stored id mailbox m :: after') ∨ (log = before ∧ row = id ∧ mb = mailbox ∧ n = m) := by
  rcases List.append_eq_append_iff.1 h with ⟨mid, hb, hl⟩ | ⟨mid, hb, hl⟩
  · cases mid with
    | nil =>
      simp only [List.nil_append, List.cons.injEq, Event.stored.injEq] at hl
      rw [List.append_nil] at hb
      exact Or.inr ⟨hb.symm, hl.1.1, hl.1.2.1, hl.1.2.2⟩
    | cons e mid =>
      have hlen := congrArg List.length hl
      simp at hlen
  · cases mid with
    | nil =>
      simp only [List.nil_append, List.cons.injEq, Event.stored.injEq] at hl
      rw [List.append_nil] at hb
      exact Or.inr ⟨hb, hl.1.1.symm, hl.1.2.1.symm, hl.1.2.2.symm⟩
    | cons e mid =>
      obtain ⟨rfl, -⟩ := List.cons.inj hl
      exact Or.inl ⟨mid, hb⟩

theorem inv_arrive {s : System} (h : Inv s) (sha256 : Bytes → Bytes) (n : Nat) (access : Access) (now : Int) (lost : Bool) :
    Inv (step sha256 s (.arrive n access now lost)) := by
  unfold step
  simp only
  split
  · exact h
  · next p hn =>
    have hp : p ∈ s.puts := List.mem_of_getElem? hn
    obtain ⟨hknown, hbefore, -⟩ := h.puts p hp
    have hunchanged {r : Frame × Queue} (hr : r.2 = s.queue)
        (hst : ∀ e, r.1 = .ok (.envelopeAccepted e) → Stored s.log (slot p.row)) : Inv (takePut s n p r lost) := by
      have hlog : s.log ++ storedBy p s.queue r.2 = s.log := by rw [hr, storedBy_same, List.append_nil]
      refine inv_takePut h hp ?_ (fun e he => Or.inl (hr ▸ he)) ?_ ?_ ?_
      all_goals rw [hlog]
      · exact hst
      · exact h.logged
      · rw [hr]
        exact h.numbered
      · exact h.rising
    rcases envelopePut_cases sha256 access p.row.mailboxId p.row.deliveryId p.expiry p.row.hpkeEnc p.row.ciphertext now
        s.queue with ⟨e, hr⟩ | ⟨e, r, he, hkey, hr⟩ | ⟨e, q', r, hs, hr⟩
    · rw [putOf, hr]
      exact hunchanged rfl fun e' he' => by cases he'
    · rw [putOf, hr]
      obtain ⟨hk1, hk2⟩ := Prod.mk.inj hkey
      exact hunchanged rfl fun _ _ => h.queued e he _ hknown hk1.symm hk2.symm
    · rw [putOf, hr]
      have hlog : s.log ++ storedBy p s.queue q' = s.log ++ [Event.stored p.row.id p.row.mailboxId e.seq] := by
        rw [storedBy_stores hs]
      have hst : Stored (s.log ++ [Event.stored p.row.id p.row.mailboxId e.seq]) (slot p.row) :=
        ⟨e.seq, List.mem_append_right _ List.mem_cons_self⟩
      refine inv_takePut h hp ?_ ?_ ?_ ?_ ?_
      all_goals rw [hlog]
      · exact fun _ _ => hst
      · intro e' he'
        rcases (Table.mem_insert hs.queued).1 he' with hold | rfl
        · exact Or.inl hold
        · exact Or.inr ⟨hs.key, hst⟩
      · intro before id mailbox m after hsplit
        rcases split_snoc hsplit with ⟨after', hold⟩ | ⟨rfl, rfl, rfl, rfl⟩
        · exact h.logged before id mailbox m after' hold
        · exact ⟨⟨slot p.row, hknown, rfl, rfl⟩, hbefore⟩
      · intro id mailbox m hmem
        rcases List.mem_append.1 hmem with hold | hnew
        · obtain ⟨row, hrow, hid, hlt⟩ := h.numbered id mailbox m hold
          obtain ⟨row', hrow', hid', hle⟩ := countsOn_numberTaken hs.mailboxes row hrow
          exact ⟨row', hrow', hid'.trans hid, hlt.trans_le hle⟩
        · obtain ⟨-, rfl, rfl⟩ := Event.stored.inj (List.mem_singleton.1 hnew)
          exact hs.below
      · refine List.pairwise_append.2 ⟨h.rising, List.pairwise_singleton _ _, ?_⟩
        intro a ha b hb i mailbox m j m' hsa hsb
        rw [List.mem_singleton.1 hb] at hsb
        obtain ⟨-, rfl, rfl⟩ := Event.stored.inj hsb
        rw [hsa] at ha
        obtain ⟨row, hrow, hid, hlt⟩ := h.numbered i _ m ha
        rw [hs.number_eq hrow hid]
        exact hlt

theorem settle_rows {row : OutboxRow} {reply : Except CliError Reply} {st : Store} {r : OutboxRow}
    (h : r ∈ (settle row reply st).1.outbox) (hstate : r.state ≠ .sealed) :
    (∃ r' ∈ st.outbox, slot r = slot r' ∧ r'.state ≠ .sealed) ∨
      (r.id = row.id ∧ ((∃ e, reply = .ok (.envelopeAccepted e)) ∨ .undeliverable row.id ∈ refusedBy row reply)) := by
  rcases reply with e | reply
  · by_cases hcode : e.relayCode = some 403 ∨ e.relayCode = some 410
    · simp only [settle, if_pos hcode] at h
      rcases mem_updateOutbox h with ⟨r', -, hid, rfl⟩ | ⟨hold, -⟩
      · exact Or.inr ⟨hid, Or.inr (by simp [refusedBy, hcode])⟩
      · exact Or.inl ⟨r, hold, rfl, hstate⟩
    · simp only [settle, if_neg hcode] at h
      exact Or.inl ⟨r, h, rfl, hstate⟩
  · cases reply
    case envelopeAccepted expiry =>
      rcases mem_updateOutbox h with ⟨r', -, hid, rfl⟩ | ⟨hold, -⟩
      · exact Or.inr ⟨hid, Or.inl ⟨expiry, rfl⟩⟩
      · exact Or.inl ⟨r, hold, rfl, hstate⟩
    all_goals exact Or.inl ⟨r, h, rfl, hstate⟩

/-- A pass goes on only past a row that the relay took or refused for good. -/
theorem settle_goes_on {row : OutboxRow} {reply : Except CliError Reply} {st : Store} (h : (settle row reply st).2 = true) :
    (∃ e, reply = .ok (.envelopeAccepted e)) ∨ .undeliverable row.id ∈ refusedBy row reply := by
  rcases reply with e | reply
  · by_cases hcode : e.relayCode = some 403 ∨ e.relayCode = some 410
    · exact Or.inr (by simp [refusedBy, hcode])
    · simp [settle, hcode] at h
  · cases reply
    case envelopeAccepted expiry => exact Or.inl ⟨expiry, rfl⟩
    all_goals cases h

theorem refusedBy_undeliverable (row : OutboxRow) (reply : Except CliError Reply) :
    ∀ e ∈ refusedBy row reply, ∃ id, e = .undeliverable id := by
  intro e he
  unfold refusedBy at he
  split at he
  · split at he
    · exact ⟨row.id, List.mem_singleton.1 he⟩
    · cases he
  · cases he

theorem inv_receive {s : System} (h : Inv s) (sha256 : Bytes → Bytes) (i n : Nat) : Inv (step sha256 s (.receive i n)) := by
  unfold step
  simp only
  split
  · next rest k row a hi hn =>
    split
    · next hk =>
      have ha : a ∈ s.answers := List.mem_of_getElem? hn
      have hpass := h.passes i _ hi
      have hdone : ((∃ e, a.reply = .ok (.envelopeAccepted e)) ∨ .undeliverable row.id ∈ refusedBy row a.reply) →
          Done (s.log ++ refusedBy row a.reply) (slot row) := by
        rintro (⟨e, he⟩ | href)
        · exact Or.inl (((hpass.waits k row rfl).2.2 a ha hk e he).mono)
        · exact Or.inr (List.mem_append_right _ href)
      have hslots := slots_settle row a.reply s.store
      refine h.quiet ⟨hslots, ⟨_, rfl, refusedBy_undeliverable row a.reply⟩, fun r hr hstate => ?_, fun j p hj => ?_,
        fun _ hq => hq, fun _ ha' => List.mem_of_mem_eraseIdx ha', rfl, fun _ he => Or.inl he, CountsOn.refl _⟩
      · rcases settle_rows hr hstate with ⟨r', hr', hsame, hstate'⟩ | ⟨hid, hwhy⟩
        · rw [hsame]
          exact (h.settled r' hr' hstate').mono
        · have hmem : slot r ∈ slots s.store := by
            rw [← hslots]
            exact List.mem_map_of_mem hr
          have hrow : slot row ∈ slots s.store := hpass.known row List.mem_cons_self
          rw [slot_eq_of_id hmem hrow hid]
          exact hdone hwhy
      · by_cases hij : j = i
        · subst hij
          simp only [takeAnswer, Function.update_self] at hj
          split at hj
          · next hgoes =>
            obtain rfl := Option.some.inj hj
            have hrowdone := hdone (settle_goes_on hgoes)
            refine ⟨fun r hr => ?_, (List.pairwise_cons.1 hpass.sorted).2, fun r hr x hx hlt => ?_, fun k r hw => by cases hw⟩
            · show slot r ∈ slots (settle row a.reply s.store).1
              rw [hslots]
              exact hpass.known r (List.mem_cons_of_mem row hr)
            · have hold : x ∈ slots s.store := hslots ▸ hx
              rcases hpass.before r (List.mem_cons_of_mem row hr) x hold hlt with hdone' | ⟨y, hy, hid⟩
              · exact Or.inl hdone'.mono
              · rcases List.mem_cons.1 hy with rfl | hy
                · have hsame : x = slot y := slot_eq_of_id hold (hpass.known y List.mem_cons_self) hid.symm
                  rw [hsame]
                  exact Or.inl hrowdone
                · exact Or.inr ⟨y, hy, hid⟩
          · cases hj
        · have hj' : s.passes j = some p := by simpa [takeAnswer, hij] using hj
          exact (h.passes j p hj').keep hslots ⟨_, rfl⟩ le_rfl (fun _ hq => Or.inl hq)
            fun _ ha' => Or.inl (List.mem_of_mem_eraseIdx ha')
    · exact h
  · exact h

theorem inv_step (sha256 : Bytes → Bytes) {s : System} (h : Inv s) (a : Action) : Inv (step sha256 s a) := by
  cases a with
  | enqueue mailbox deliveryId eventId hpkeEnc ciphertext => exact inv_enqueue h sha256 mailbox deliveryId eventId hpkeEnc ciphertext
  | write store =>
    exact h.fewer rfl rfl rfl (fun _ _ hp => hp) (fun _ hq => hq) (fun _ ha => ha) (fun _ he => Or.inl he) (CountsOn.refl _)
  | start i => exact inv_start h sha256 i
  | send i expiry => exact inv_send h sha256 i expiry
  | arrive n access now lost => exact inv_arrive h sha256 n access now lost
  | lose n =>
    exact h.fewer rfl rfl rfl (fun _ _ hp => hp) (fun _ hq => List.mem_of_mem_eraseIdx hq) (fun _ ha => ha)
      (fun _ he => Or.inl he) (CountsOn.refl _)
  | receive i n => exact inv_receive h sha256 i n
  | stop i => exact h.withoutPass i
  | acknowledge mailbox ids =>
    exact h.fewer rfl rfl rfl (fun _ _ hp => hp) (fun _ hq => hq) (fun _ ha => ha)
      (fun _ he => Or.inl (Table.mem_delete.1 he).1) (CountsOn.refl _)
  | expire now =>
    exact h.fewer rfl rfl rfl (fun _ _ hp => hp) (fun _ hq => hq) (fun _ ha => ha)
      (fun _ he => Or.inl (Table.mem_delete.1 he).1) (CountsOn.refl _)
  | other mailbox deliveryId hpkeEnc ciphertext expiry now =>
    exact inv_other h sha256 mailbox deliveryId hpkeEnc ciphertext expiry now

structure Init (s : System) : Prop where
  outbox : s.store.outbox.rows = []
  passes : ∀ i, s.passes i = none
  puts : s.puts = []
  answers : s.answers = []
  log : s.log = []

theorem inv_init {s : System} (h : Init s) : Inv s := by
  have hslots : slots s.store = [] := by
    unfold slots
    rw [h.outbox]
    rfl
  refine ⟨by simp [hslots], by simp [hslots], fun r hr => ?_, fun i p hp => ?_, by simp [h.puts], by simp [h.answers],
    by simp [hslots], by simp [h.log], by simp [h.log], by simp [h.log]⟩
  · rw [Table.mem_def, h.outbox] at hr
    cases hr
  · rw [h.passes i] at hp
    cases hp

def firstCopy (log : List Event) (id : Nat) : Option Nat :=
  log.findSome? fun
    | .stored row _ n => if row = id then some n else none
    | .undeliverable _ => none

theorem firstCopy_mem {log : List Event} {id n : Nat} (h : firstCopy log id = some n) :
    ∃ mailbox, Event.stored id mailbox n ∈ log := by
  obtain ⟨e, he, hsome⟩ := List.exists_of_findSome?_eq_some h
  cases e with
  | stored row mailbox m =>
    simp only [Option.ite_none_right_eq_some, Option.some.injEq] at hsome
    obtain ⟨rfl, rfl⟩ := hsome
    exact ⟨mailbox, he⟩
  | undeliverable row => cases hsome

theorem firstCopy_isSome {log : List Event} {id n : Nat} {mailbox : Bytes} (h : Event.stored id mailbox n ∈ log) :
    ∃ m, firstCopy log id = some m := by
  refine Option.isSome_iff_exists.1 ?_
  rw [firstCopy, List.findSome?_isSome_iff]
  exact ⟨_, h, by simp⟩

/-- Of two rows for one mailbox, queued one after the other, the relay stores a copy of
the second only after one of the first, under a higher number than its first copy, or
after the first was given up; whatever passes run, stop and retry, and whatever is lost. -/
theorem copies_in_order (sha256 : Bytes → Bytes) {s : System} (h : Init s) (acts : List Action) {r₁ r₂ : OutboxRow}
    (hrows : List.Sublist [r₁, r₂] (Trace.run (step sha256) s acts).store.outbox.rows) (hmailbox : r₁.mailboxId = r₂.mailboxId)
    {before after : List Event} {n : Nat}
    (hlog : (Trace.run (step sha256) s acts).log = before ++ Event.stored r₂.id r₂.mailboxId n :: after) :
    (∃ m, firstCopy before r₁.id = some m ∧ m < n) ∨ .undeliverable r₁.id ∈ before := by
  have hinv : Inv (Trace.run (step sha256) s acts) :=
    Trace.invariant (I := Inv) (fun _ a _ hi => inv_step sha256 hi a) (Trace.meets_true s acts) (inv_init h)
  have hslots : List.Sublist [slot r₁, slot r₂] (slots (Trace.run (step sha256) s acts).store) := hrows.map slot
  have hlt : r₁.id < r₂.id := by
    have hpair := hinv.ascending.sublist hslots
    exact (List.pairwise_cons.1 hpair).1 (slot r₂) List.mem_cons_self
  have hmem₁ : slot r₁ ∈ slots (Trace.run (step sha256) s acts).store := hslots.subset List.mem_cons_self
  obtain ⟨-, hb⟩ := hinv.logged before r₂.id r₂.mailboxId n after hlog
  rcases hb (slot r₁) hmem₁ hlt with ⟨m, hm⟩ | hundeliverable
  · obtain ⟨m', hm'⟩ := firstCopy_isSome hm
    obtain ⟨mailbox, hfirst⟩ := firstCopy_mem hm'
    refine Or.inl ⟨m', hm', ?_⟩
    have hall : Event.stored r₁.id mailbox m' ∈ (Trace.run (step sha256) s acts).log := by
      rw [hlog]
      exact List.mem_append_left _ hfirst
    -- every copy of a row is in the row's mailbox
    have hsame : mailbox = r₂.mailboxId := by
      obtain ⟨b, a, hsplit⟩ := List.append_of_mem hall
      obtain ⟨⟨x, hx, hid, rfl⟩, -⟩ := hinv.logged b r₁.id mailbox m' a hsplit
      rw [slot_eq_of_id hx hmem₁ hid]
      exact hmailbox
    subst hsame
    have hrise := hinv.rising
    rw [hlog] at hrise
    exact (List.pairwise_append.1 hrise).2.2 _ hfirst _ List.mem_cons_self _ _ _ _ _ rfl rfl
  · exact Or.inr hundeliverable

section demo

def demoPeer : Peer := ⟨[2], [2], [2, 3], [], some [12], some [22], some [1], false⟩

def demoConversation : ConversationRow := ⟨[7], true, 1, none, none, .none, none⟩

def demoSystem : System where
  store := { Store.empty with
    conversations := ⟨[demoConversation], by simp⟩
    peers := ⟨[peerRow [7] demoPeer], by simp⟩ }
  queue := ⟨⟨[⟨[12], 1⟩], by simp⟩, .empty⟩
  passes _ := none
  puts := []
  answers := []
  requests := 0
  log := []

/-- The reply to the first pass is lost and the pass stops; the second one, which began
with the same rows, goes through both. -/
def demoActs : List Action :=
  [.enqueue [12] [1] none [1] [1], .enqueue [12] [2] none [1] [2], .start 0, .start 1,
    .send 0 0, .arrive 0 ⟨true, true⟩ 0 true, .stop 0,
    .send 1 0, .arrive 0 ⟨true, true⟩ 0 false, .receive 1 0, .send 1 0, .arrive 0 ⟨true, true⟩ 0 false]

def demoFirst : OutboxRow := ⟨1, [12], [1], none, [1], [1], .accepted, 2, some 2592000⟩

def demoSecond : OutboxRow := ⟨2, [12], [2], none, [1], [2], .sealed, 1, none⟩

theorem overlapping_passes_keep_the_order :
    (∃ m, firstCopy [.stored 1 [12] 1] 1 = some m ∧ m < 2) ∨ Event.undeliverable 1 ∈ [Event.stored 1 [12] 1] := by
  have hrun : (Trace.run (step Demo.fingerprint) demoSystem demoActs).store.outbox.rows = [demoFirst, demoSecond] ∧
      (Trace.run (step Demo.fingerprint) demoSystem demoActs).log =
        [.stored 1 [12] 1] ++ Event.stored demoSecond.id demoSecond.mailboxId 2 :: [] := by
    decide +kernel
  have hrows : List.Sublist [demoFirst, demoSecond] (Trace.run (step Demo.fingerprint) demoSystem demoActs).store.outbox.rows := by
    rw [hrun.1]
  exact copies_in_order Demo.fingerprint (s := demoSystem) ⟨rfl, fun _ => rfl, rfl, rfl, rfl⟩ demoActs hrows rfl hrun.2

end demo

end Arveil.Passes

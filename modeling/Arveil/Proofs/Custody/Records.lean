import Arveil.Proofs.Acts
import Arveil.Proofs.Pages
import Arveil.Sanity.Platform
import Arveil.Spec.Custody

/-! What a profile recorded of a mailbox and what the relay queues for it, and the invariant between
them. A step at the relay keeps it. -/

namespace Arveil

open Client Prog

variable {pf : Platform} {s : Session}

def mail (s : Store) : (Table fun r : InboxRow => (r.mailboxId, r.deliveryId)) × Table CursorRow.mailboxId :=
  (s.inbox, s.mailboxCursor)

theorem mail_same (g : Store → Store) (hg : ∀ st, mail (g st) = mail st) {st st' : Store} (h : g st' = g st) :
    mail st' = mail st := by
  rw [← hg st', h, hg]

theorem mail_contactBlind : ContactBlind mail := fun _ _ _ => rfl

theorem mail_conversationBlind (gid : Bytes) : ConversationBlind gid mail := fun _ _ _ => rfl

theorem fixes_mail_deviceAuthorize (device : DevicePublicKeys) (now : UInt64) :
    Fixes mail (Client.deviceAuthorize pf.crypto device now) := by
  intro st
  rcases deviceAuthorize_cases pf.crypto device now st with ⟨e, he⟩ | ⟨seed, body, m, -, -, -, -, hrun⟩
  · rw [he]
    exact same_refl _
  · rw [hrun]
    rfl

theorem effect_mail {now : Int} {msg : MlsMessage} {deliveryId : Bytes} {st st' : Store}
    (h : Receive.Effect pf s now msg deliveryId st st') : mail st' = mail st := by
  cases h with
  | joined hw hj => rfl
  | dropped hf hg hd => rfl
  | handshake ho hn => rfl
  | unknown hs hk => rfl
  | roster hs hk hr =>
    obtain ⟨peers, contacts, -, -, rfl⟩ := Receive.handleRoster_ok hr
    rw [classified_blind (mail_conversationBlind _), savePeers_eq]
    rfl
  | manifest hs hk hr =>
    exact (mail_same unmanifested (fun _ => rfl) (handleManifest_rest hr)).trans rfl
  | text hs hk hr =>
    obtain ⟨t, -, rfl⟩ := Receive.handleText_ok hr
    rfl
  | file hs hk hr =>
    obtain ⟨t, -, rfl⟩ := Receive.handleFile_ok hr
    rfl
  | hello hs hk hr =>
    unfold Receive.handleHello at hr
    rw [bind_ok (Receive.eventSender_run ..)] at hr
    obtain ⟨hello, -, ⟨-, rfl⟩ | ⟨-, hellos, name, rfl | ⟨k, c, -, -, -, rfl⟩⟩⟩ := Receive.receiveHello_ok hr
    all_goals rfl

namespace Custody

theorem step_mail {a : Act} (h : ofSync a = false) (w : Arveil.World) : mail (Act.step pf s w a).store = mail w.store := by
  cases a with
  | receive now mailbox item => cases h
  | acknowledge relay m => cases h
  | setCursor mailbox cursor => cases h
  | refresh identity signed =>
    exact mail_same unmanifested (fun _ => rfl) (step_manifests (Or.inl ⟨identity, signed, rfl⟩) w)
  | settleInPerson relay now =>
    exact mail_same unsettled (fun _ => rfl) (step_settling (Or.inl ⟨relay, now, rfl⟩) w)
  | settle relay now =>
    exact mail_same unsettled (fun _ => rfl) (step_settling (Or.inr (Or.inl ⟨relay, now, rfl⟩)) w)
  | publish relay expiry => exact fixes_bind ((fixes_publishPending relay expiry).map mail) (fun _ => fixes_pure _) w
  | ask relay payload => exact fixes_bind (fixes_request relay payload) (fun _ => fixes_pure _) w
  | answer gid accept =>
    exact mail_same unsettled (fun _ => rfl) (step_settling (Or.inr (Or.inr ⟨gid, accept, rfl⟩)) w)
  | saveConversation createdAt c =>
    rw [step_saveConversation]
    obtain ⟨ct, -, ⟨e, he⟩ | hok⟩ := conversationSave_cases createdAt c w.store
    · rw [he]
      rfl
    · rw [hok, savePeers_eq]
      rfl
  | queueText c text eventId entropy order draws =>
    rw [step_queueText]
    exact mail_same unsent (fun _ => rfl) (fixes_queueText c text eventId entropy order draws w.store)
  | storeGroup state => rfl
  | remove c device chance =>
    exact fixes_bind (fixes_onStore ((fixes_remove c device chance).map mail)) (fun _ => fixes_pure _) w
  | prepare chance => exact (fixes_prepare chance).map mail w.store
  | cardCreate kind secret now =>
    have hcard : Fixes mail (Client.cardCreate kind secret now) := (fixes_cardCreate kind secret now).map mail
    exact fixes_bind (fixes_onStore (fixes_storage hcard)) (fun _ => fixes_pure _) w
  | cardRevoke secret =>
    have hcard : Fixes mail (Client.cardRevoke secret) := (fixes_cardRevoke secret).map mail
    exact fixes_bind (fixes_onStore (fixes_storage hcard)) (fun _ => fixes_pure _) w
  | contactVerified identity how now => exact fixes_storage (fixes_updateKnownContact mail_contactBlind) w.store
  | contactRouteSave identity device route =>
    exact fixes_storage (fixes_contactRouteSave mail_contactBlind identity device route) w.store
  | contactRename identity name => exact fixes_storage (fixes_contactRename mail_contactBlind identity name) w.store
  | invitationOperationSave operation => rfl
  | deviceAuthorize device now =>
    exact fixes_bind (fixes_onStore (fixes_storage (fixes_mail_deviceAuthorize device now))) (fun _ => fixes_pure _) w
  | deviceRevoke device =>
    exact mail_same unmanifested (fun _ => rfl) (step_manifests (Or.inr ⟨device, rfl⟩) w)

open RelayQueue

variable {sha256 : Bytes → Bytes} {mailbox : Bytes}

/-- Numbers stand for one envelope each and fit the cursor. -/
structure Orderly (q : Queue) : Prop where
  below : ∀ e ∈ q.queued, Below q (e.mailboxId, e.seq)
  apart : ∀ e ∈ q.queued, ∀ e' ∈ q.queued, e.mailboxId = e'.mailboxId → e.seq = e'.seq → e = e'
  counters : ∀ m ∈ q.mailboxes, 0 < m.nextSeq ∧ m.nextSeq < 2 ^ 63
  positive : ∀ e ∈ q.queued, 0 < e.seq

theorem Orderly.small {q : Queue} (h : Orderly q) {p : Bytes × Nat} (hp : Below q p) : p.2 < 2 ^ 63 := by
  obtain ⟨m, hm, -, hlt⟩ := hp
  have := (h.counters m hm).2
  omega

theorem orderly_run {q : Queue} (h : Orderly q) (t : Transaction) : Orderly (t.run sha256 q) := by
  have hnum : Numbered ⟨q, 0, [], []⟩ := ⟨h.below, h.apart, fun _ hp => absurd hp List.not_mem_nil, List.Pairwise.nil⟩
  have hrun : Numbered (readStep sha256 [] ⟨q, 0, [], []⟩ (.other t)) := numbered_other hnum t
  refine ⟨hrun.queued, hrun.apart, ?_, ?_⟩
  · cases t with
    | ack m ids => exact h.counters
    | expire now => exact h.counters
    | fetch m cursor limit now => exact h.counters
    | create m =>
      intro row hrow
      rcases Table.mem_insertOrIgnore hrow with hold | rfl
      · exact h.counters row hold
      · exact ⟨Nat.one_pos, show 1 < 2 ^ 63 by decide⟩
    | put m d enc ct expiry now =>
      simp only [Transaction.run]
      rcases putEnvelope_cases sha256 m d enc ct expiry now q with ⟨e, he⟩ | ⟨e, r, -, -, hr⟩ | ⟨e, q', r, hs, -, -, hr⟩
      · rw [he]
        exact h.counters
      · rw [hr]
        exact h.counters
      · rw [hr]
        obtain ⟨row, hrow, -, hroom⟩ := hs.number
        obtain ⟨hmem, hid⟩ := Table.get?_eq_some.1 hrow
        intro row' hrow'
        simp only [hs.mailboxes, numberTaken] at hrow'
        obtain ⟨old, hold, rfl⟩ := Table.mem_update.1 hrow'
        have hcount := h.counters old hold
        by_cases ho : old.mailboxId = m
        · -- the counter that moved on is the one there was room for
          obtain rfl := Table.eq_of_key hold hmem (ho.trans hid.symm)
          simp only [ho, decide_true, if_true]
          omega
        · simpa only [ho, decide_false, Bool.false_eq_true, if_false] using hcount
  · intro e he
    rcases transaction_cases sha256 t q with ⟨hold, -, -⟩ | ⟨m, d, x, hs, -⟩
    · exact h.positive e (hold e he)
    · rcases (Table.mem_insert hs.queued).1 he with he | rfl
      · exact h.positive e he
      · obtain ⟨row, hrow, hseq, -⟩ := hs.number
        rw [hseq]
        exact (h.counters row (Table.get?_eq_some.1 hrow).1).1

theorem orderly_empty : Orderly ⟨.empty, .empty⟩ where
  below e he := absurd he (Table.not_mem_empty e)
  apart e he := absurd he (Table.not_mem_empty e)
  counters m hm := absurd hm (Table.not_mem_empty m)
  positive e he := absurd he (Table.not_mem_empty e)

theorem ack_run (sha256 : Bytes → Bytes) (mailbox : Bytes) (ids : List Bytes) (q : Queue) :
    ackEnvelopes mailbox ids q = Transaction.run sha256 (.ack mailbox ids) q := rfl

/-- What a transaction leaves in the queue was there, or has a number above all that were
handed out. -/
theorem run_new {t : Transaction} {q : Queue} {e : QueuedEnvelope} (he : e ∈ (t.run sha256 q).queued) :
    e ∈ q.queued ∨ ∀ n, Below q (e.mailboxId, n) → n < e.seq := by
  rcases transaction_cases sha256 t q with ⟨hold, -, -⟩ | ⟨m, d, x, hs, -⟩
  · exact Or.inl (hold e he)
  · rcases (Table.mem_insert hs.queued).1 he with he | rfl
    · exact Or.inl he
    · exact Or.inr fun n hn => hs.above hn rfl

/-- The envelope has taken effect, or it has expired. -/
def Settled (w : World) (e : QueuedEnvelope) : Prop := (∃ i ∈ w.processed, i.deliveryId = e.deliveryId) ∨ e.expiresAt ≤ w.clock

/-- Counters, clock and what took effect only grow, and what is stored later stands after
every number there was. -/
structure Grows (w w' : World) : Prop where
  counts : CountsOn w.queue w'.queue
  clock : w.clock ≤ w'.clock
  processed : ∀ i ∈ w.processed, i ∈ w'.processed
  stored : ∀ e ∈ w.stored, e ∈ w'.stored
  queued : ∀ e ∈ w'.queue.queued, e ∈ w.queue.queued ∨ ∀ n, Below w.queue (e.mailboxId, n) → n < e.seq

theorem Grows.of_same {w w' : World} (hq : w'.queue = w.queue) (hc : w.clock ≤ w'.clock)
    (hp : ∀ i ∈ w.processed, i ∈ w'.processed) (hs : w'.stored = w.stored) : Grows w w' where
  counts := hq ▸ CountsOn.refl w.queue
  clock := hc
  processed := hp
  stored _ he := hs ▸ he
  queued _ he := Or.inl (hq ▸ he)

theorem Grows.refl (w : World) : Grows w w := .of_same rfl le_rfl (fun _ hi => hi) rfl

theorem Settled.mono {w w' : World} (h : Grows w w') {e : QueuedEnvelope} (he : Settled w e) : Settled w' e := by
  rcases he with ⟨i, hi, hd⟩ | hx
  · exact Or.inl ⟨i, h.processed i hi, hd⟩
  · exact Or.inr (hx.trans h.clock)

/-- Every envelope of the mailbox up to a number is settled. -/
structure Come (mailbox : Bytes) (w : World) (n : UInt64) : Prop where
  number : n = 0 ∨ Below w.queue (mailbox, n.toNat)
  passed : ∀ e ∈ w.queue.queued, e.mailboxId = mailbox → e.seq ≤ n.toNat → Settled w e

theorem Come.small {w : World} {n : UInt64} (hn : Come mailbox w n) (h : Orderly w.queue) : n.toNat < 2 ^ 63 := by
  rcases hn.number with rfl | hb
  · decide
  · exact h.small hb

theorem Come.mono {w w' : World} (h : Grows w w') (hpos : ∀ e ∈ w'.queue.queued, 0 < e.seq) {n : UInt64}
    (hn : Come mailbox w n) : Come mailbox w' n := by
  refine ⟨hn.number.imp_right fun hb => hb.mono h.counts, fun e he hm hle => ?_⟩
  rcases h.queued e he with hold | hnew
  · exact (hn.passed e hold hm hle).mono h
  · rcases hn.number with rfl | hb
    · have := hpos e he
      rw [UInt64.toNat_zero] at hle
      omega
    · have := hnew n.toNat (hm ▸ hb)
      omega

/-- What is left of a page: in order, each envelope as it was stored, and none left out. -/
structure Page (mailbox : Bytes) (w : World) (items : List EnvelopeItem) : Prop where
  sorted : items.Pairwise fun i j => i.seq < j.seq
  came : ∀ i ∈ items, ∃ e ∈ w.stored, envelopeItem e = i
  below : ∀ i ∈ items, Below w.queue (mailbox, i.seq.toNat)
  whole : ∀ e ∈ w.queue.queued, e.mailboxId = mailbox → ∀ i ∈ items, e.seq ≤ i.seq.toNat → Settled w e ∨ envelopeItem e ∈ items

theorem Page.mono {w w' : World} (h : Grows w w') {items : List EnvelopeItem} (hp : Page mailbox w items) :
    Page mailbox w' items where
  sorted := hp.sorted
  came i hi := by
    obtain ⟨e, he, heq⟩ := hp.came i hi
    exact ⟨e, h.stored e he, heq⟩
  below i hi := (hp.below i hi).mono h.counts
  whole e he hm i hi hle := by
    rcases h.queued e he with hold | hnew
    · exact (hp.whole e hold hm i hi hle).imp_left fun hs => hs.mono h
    · have := hnew _ (hm ▸ hp.below i hi)
      omega

/-- What a sync in each of its phases has made sure of. -/
def PhaseOk (mailbox : Bytes) (w : World) : Phase → Prop
  | .idle => True
  | .fetching start => Come mailbox w start
  | .receiving advanced items => Come mailbox w advanced ∧ Page mailbox w items
  | .received next | .closing next | .acknowledged next _ => Come mailbox w next
  | .acknowledging next ids => Come mailbox w next ∧ ∀ d ∈ ids, ∃ i ∈ w.processed, i.deliveryId = d

theorem PhaseOk.mono {w w' : World} (h : Grows w w') (hpos : ∀ e ∈ w'.queue.queued, 0 < e.seq) {p : Phase}
    (hp : PhaseOk mailbox w p) : PhaseOk mailbox w' p := by
  cases p with
  | idle => trivial
  | fetching start => exact Come.mono h hpos hp
  | receiving advanced items => exact ⟨hp.1.mono h hpos, hp.2.mono h⟩
  | received next => exact Come.mono h hpos hp
  | closing next => exact Come.mono h hpos hp
  | acknowledged next ids => exact Come.mono h hpos hp
  | acknowledging next ids =>
    refine ⟨hp.1.mono h hpos, fun d hd => ?_⟩
    obtain ⟨i, hi, hid⟩ := hp.2 d hd
    exact ⟨i, h.processed i hi, hid⟩

theorem item_seq {e : QueuedEnvelope} (h : e.seq < 2 ^ 63) : (envelopeItem e).seq.toNat = e.seq := by
  show (UInt64.ofNat e.seq).toNat = e.seq
  rw [UInt64.toNat_ofNat']
  omega

structure Inv (pf : Platform) (s : Session) (mailbox : Bytes) (w : World) : Prop where
  orderly : Orderly w.queue
  ours : ∀ e ∈ w.stored, e.mailboxId = mailbox
  known : ∀ e ∈ w.queue.queued, e.mailboxId = mailbox → e ∈ w.stored
  kept : ∀ e ∈ w.stored, e ∈ w.queue.queued ∨ Settled w e
  once : (w.processed.map (·.deliveryId)).Nodup
  genuine : ∀ i ∈ w.processed, ∃ e ∈ w.stored, envelopeItem e = i
  opened : ∀ i ∈ w.processed, ∃ msg, Receive.openedMessage pf s mailbox i = .ok msg
  numbered : ∀ e ∈ w.stored, Below w.queue (mailbox, e.seq)
  inOrder : ∀ e ∈ w.stored, ∀ i ∈ w.processed, e.seq ≤ i.seq.toNat → Settled w e
  recorded : ∀ d, (∃ i ∈ w.processed, i.deliveryId = d) ↔ ∃ r ∈ w.profile.store.inbox, r.mailboxId = mailbox ∧ r.deliveryId = d
  late : ∀ ids ∈ w.late, ∀ d ∈ ids, ∃ i ∈ w.processed, i.deliveryId = d
  cursor : ∃ n : UInt64, n.toNat < 2 ^ 63 ∧ Delivery.cursor w.profile.store mailbox = n.toInt64 ∧ Come mailbox w n
  phase : PhaseOk mailbox w w.phase

theorem Inv.below {w : World} (h : Inv pf s mailbox w) {i : EnvelopeItem} (hi : i ∈ w.processed) :
    Below w.queue (mailbox, i.seq.toNat) := by
  obtain ⟨e, he, rfl⟩ := h.genuine i hi
  have hb := h.numbered e he
  rw [item_seq (h.orderly.small hb)]
  exact hb

theorem inv_start (profile : Arveil.World) : Inv pf s mailbox (start profile) where
  orderly := orderly_empty
  ours e he := absurd he List.not_mem_nil
  known e he := absurd he (Table.not_mem_empty e)
  kept e he := absurd he List.not_mem_nil
  once := List.nodup_nil
  genuine i hi := absurd hi List.not_mem_nil
  opened i hi := absurd hi List.not_mem_nil
  numbered e he := absurd he List.not_mem_nil
  inOrder e he := absurd he List.not_mem_nil
  recorded d := by
    constructor
    · rintro ⟨i, hi, -⟩
      exact absurd hi List.not_mem_nil
    · rintro ⟨r, hr, -⟩
      exact absurd hr (Table.not_mem_empty r)
  late ids hids := absurd hids List.not_mem_nil
  cursor := ⟨0, by decide, rfl, ⟨Or.inl rfl, fun e he => absurd he (Table.not_mem_empty e)⟩⟩
  phase := trivial

theorem grows_run {w w' : World} {t : Transaction} (hq : w'.queue = t.run sha256 w.queue) (hc : w.clock ≤ w'.clock)
    (hp : ∀ i ∈ w.processed, i ∈ w'.processed) (hs : ∀ e ∈ w.stored, e ∈ w'.stored) : Grows w w' where
  counts := hq ▸ countsOn_run t w.queue
  clock := hc
  processed := hp
  stored := hs
  queued _ he := run_new (hq ▸ he)

theorem mem_taken {q q' : Queue} {e : QueuedEnvelope} :
    e ∈ taken mailbox q q' ↔ e ∈ q'.queued ∧ e.mailboxId = mailbox ∧ e ∉ q.queued := by
  simp only [taken, List.mem_filter, Bool.and_eq_true, decide_eq_true_eq]
  exact Iff.rfl

theorem inv_relay {w : World} (h : Inv pf s mailbox w) {t : Transaction} (hack : acks mailbox t = false) :
    Inv pf s mailbox { w with
      queue := t.run sha256 w.queue
      clock := ticked w t.time
      stored := w.stored ++ taken mailbox w.queue (t.run sha256 w.queue) } := by
  have hclock : w.clock ≤ ticked w t.time := by
    cases t.time with
    | none => exact le_rfl
    | some now => exact le_max_left _ _
  have hg : Grows w { w with
      queue := t.run sha256 w.queue
      clock := ticked w t.time
      stored := w.stored ++ taken mailbox w.queue (t.run sha256 w.queue) } :=
    grows_run rfl hclock (fun _ hi => hi) fun e he => List.mem_append_left _ he
  have ho : Orderly (t.run sha256 w.queue) := orderly_run h.orderly t
  obtain ⟨n, hn, hcur, hcome⟩ := h.cursor
  have hnew : ∀ e ∈ taken mailbox w.queue (t.run sha256 w.queue), ∀ n, Below w.queue (mailbox, n) → n < e.seq := by
    intro e he n hn
    obtain ⟨hq, hm, hnot⟩ := mem_taken.1 he
    exact (run_new hq).resolve_left hnot n (hm ▸ hn)
  refine ⟨ho, ?_, ?_, ?_, h.once, ?_, h.opened, ?_, ?_, h.recorded, h.late, ⟨n, hn, hcur, hcome.mono hg ho.positive⟩,
    h.phase.mono hg ho.positive⟩
  · intro e he
    rcases List.mem_append.1 he with he | he
    · exact h.ours e he
    · exact (mem_taken.1 he).2.1
  · intro e he hm
    by_cases hold : e ∈ w.queue.queued
    · exact List.mem_append_left _ (h.known e hold hm)
    · exact List.mem_append_right _ (mem_taken.2 ⟨he, hm, hold⟩)
  · intro e hmem
    rcases List.mem_append.1 hmem with he | he
    · rcases h.kept e he with hq | hs
      · by_cases hlive : e.expiresAt ≤ ticked w t.time
        · exact Or.inr (Or.inr hlive)
        · refine Or.inl (mem_run hq ?_ fun now hnow => ?_)
          · rintro ⟨ids, hack', -⟩
            obtain rfl := RelayQueue.Event.other.inj hack'
            simp [acks, h.ours e he] at hack
          · rw [Option.mem_def.1 hnow] at hlive
            have := le_max_right w.clock now
            simp only [ticked] at hlive
            omega
      · exact Or.inr (hs.mono hg)
    · exact Or.inl (mem_taken.1 he).1
  · intro i hi
    obtain ⟨e, he, heq⟩ := h.genuine i hi
    exact ⟨e, List.mem_append_left _ he, heq⟩
  · intro e he
    rcases List.mem_append.1 he with he | he
    · exact (h.numbered e he).mono hg.counts
    · obtain ⟨hq, hm, -⟩ := mem_taken.1 he
      exact hm ▸ ho.below e hq
  · intro e he i hi hle
    rcases List.mem_append.1 he with he | he
    · exact (h.inOrder e he i hi hle).mono hg
    · have := hnew e he i.seq.toNat (h.below hi)
      omega

/-- An acknowledgement takes away what has taken effect, whenever it arrives. -/
theorem inv_acked {w w' : World} (h : Inv pf s mailbox w) {ids : List Bytes} (hids : ∀ d ∈ ids, ∃ i ∈ w.processed, i.deliveryId = d)
    (hq : w'.queue = ackEnvelopes mailbox ids w.queue) (hw : w' = { w with queue := w'.queue, phase := w'.phase, late := w'.late })
    (hl : ∀ ids ∈ w'.late, ids ∈ w.late) (hp : PhaseOk mailbox w w'.phase) : Inv pf s mailbox w' := by
  have hg : Grows w w' := by
    rw [hw]
    exact grows_run (hq.trans (ack_run id mailbox ids w.queue)) le_rfl (fun _ hi => hi) fun _ he => he
  have ho : Orderly w'.queue := by
    rw [hq, ack_run id]
    exact orderly_run h.orderly (.ack mailbox ids)
  have hmem : ∀ e, e ∈ w'.queue.queued → e ∈ w.queue.queued := fun e he => by
    rw [hq] at he
    exact (Table.mem_delete.1 he).1
  obtain ⟨n, hn, hcur, hcome⟩ := h.cursor
  have hphase := hp.mono hg ho.positive
  have hcome' := hcome.mono hg ho.positive
  have hkept : ∀ e ∈ w.stored, e ∈ w'.queue.queued ∨ Settled w' e := by
    intro e he
    rcases h.kept e he with hold | hs
    · by_cases hid : e.deliveryId ∈ ids
      · exact Or.inr (Settled.mono hg (Or.inl (hids _ hid)))
      · refine Or.inl ?_
        rw [hq]
        exact Table.mem_delete.2 ⟨hold, by simp [hid]⟩
    · exact Or.inr (hs.mono hg)
  have hold : ∀ e ∈ w'.queue.queued, e.mailboxId = mailbox → e ∈ w.stored := fun e he => h.known e (hmem e he)
  have hnumbered : ∀ e ∈ w.stored, Below w'.queue (mailbox, e.seq) := fun e he => (h.numbered e he).mono hg.counts
  have horder : ∀ e ∈ w.stored, ∀ i ∈ w.processed, e.seq ≤ i.seq.toNat → Settled w' e :=
    fun e he i hi hle => (h.inOrder e he i hi hle).mono hg
  rw [hw] at hkept hcome' hphase hold ho hnumbered horder ⊢
  exact ⟨ho, h.ours, hold, hkept, h.once, h.genuine, h.opened, hnumbered, horder, h.recorded,
    fun ids hids => h.late ids (hl ids hids), ⟨n, hn, hcur, hcome'⟩, hphase⟩

end Custody

end Arveil

import Arveil.Proofs.Custody.Records

/-! A step of the sync keeps the invariant, wherever it is cut off: what was fetched is recorded with
its effect or not at all, and the cursor follows. -/

namespace Arveil

open Delivery

variable {pf : Platform} {s : Session}

namespace Custody

open RelayQueue

variable {sha256 : Bytes → Bytes} {mailbox : Bytes}

theorem recorded_mail {st st' : Store} (h : mail st' = mail st) (P : InboxRow → Prop) :
    (∃ r ∈ st'.inbox, P r) ↔ ∃ r ∈ st.inbox, P r := by
  rw [show st'.inbox = st.inbox from congrArg Prod.fst h]

theorem cursor_mail {st st' : Store} (h : mail st' = mail st) (m : Bytes) : cursor st' m = cursor st m := by
  rw [cursor, cursor, show st'.mailboxCursor = st.mailboxCursor from congrArg Prod.snd h]

theorem inv_profile {w : World} (h : Inv pf s mailbox w) {c : Int} (hc : w.clock ≤ c) {p : Arveil.World} {ph : Phase}
    {l : List (List Bytes)}
    (hr : ∀ d, (∃ r ∈ p.store.inbox, r.mailboxId = mailbox ∧ r.deliveryId = d) ↔
      ∃ r ∈ w.profile.store.inbox, r.mailboxId = mailbox ∧ r.deliveryId = d)
    (hcur : ∃ n : UInt64, n.toNat < 2 ^ 63 ∧ cursor p.store mailbox = n.toInt64 ∧ Come mailbox w n)
    (hl : ∀ ids ∈ l, ∀ d ∈ ids, ∃ i ∈ w.processed, i.deliveryId = d) (hp : PhaseOk mailbox { w with clock := c } ph) :
    Inv pf s mailbox { w with clock := c, profile := p, phase := ph, late := l } := by
  have hg : Grows w { w with clock := c, profile := p, phase := ph, late := l } := .of_same rfl hc (fun _ hi => hi) rfl
  have hg' : Grows { w with clock := c } { w with clock := c, profile := p, phase := ph, late := l } :=
    .of_same rfl le_rfl (fun _ hi => hi) rfl
  obtain ⟨n, hn, hcur, hcome⟩ := hcur
  exact ⟨h.orderly, h.ours, h.known, fun e he => (h.kept e he).imp_right fun hs => hs.mono hg, h.once, h.genuine,
    h.opened, h.numbered, fun e he i hi hle => (h.inOrder e he i hi hle).mono hg, fun d => (h.recorded d).trans (hr d).symm, hl, ⟨n, hn, hcur, hcome.mono hg h.orderly.positive⟩,
    hp.mono hg' h.orderly.positive⟩

theorem inv_phase {w : World} (h : Inv pf s mailbox w) {ph : Phase} (hp : PhaseOk mailbox w ph) :
    Inv pf s mailbox { w with phase := ph } :=
  inv_profile h le_rfl (fun _ => Iff.rfl) h.cursor h.late hp

theorem page_whole {w : World} (h : Inv pf s mailbox w) {start : UInt64} (hc : Come mailbox w start) (now : Int) :
    Page mailbox { w with clock := max w.clock now }
      ((fetchEnvelopes mailbox start.toNat 50 now w.queue).map envelopeItem) := by
  have hg : Grows w { w with clock := max w.clock now } := .of_same rfl (le_max_left _ _) (fun _ hi => hi) rfl
  obtain ⟨rows, n, hn, hpage, hsorted, hall⟩ := fetch_spec mailbox h.orderly.apart start.toNat 50 now
  have hseq : ∀ e ∈ fetchEnvelopes mailbox start.toNat 50 now w.queue, (envelopeItem e).seq.toNat = e.seq :=
    fun e he => item_seq (h.orderly.small (h.orderly.below e (mem_fetch he).1))
  refine ⟨?_, ?_, ?_, ?_⟩
  · rw [List.pairwise_map]
    have hpairs : (fetchEnvelopes mailbox start.toNat 50 now w.queue).Pairwise fun e e' => e.seq < e'.seq := by
      rw [hpage]
      exact hsorted.sublist (List.take_sublist _ _)
    refine hpairs.imp_of_mem fun {a b} ha hb hlt => ?_
    rw [UInt64.lt_iff_toNat_lt, hseq a ha, hseq b hb]
    exact hlt
  · intro i hi
    obtain ⟨e, he, rfl⟩ := List.mem_map.1 hi
    obtain ⟨hq, hm, -, -⟩ := mem_fetch he
    exact ⟨e, h.known e hq hm, rfl⟩
  · intro i hi
    obtain ⟨e, he, rfl⟩ := List.mem_map.1 hi
    obtain ⟨hq, hm, -, -⟩ := mem_fetch he
    rw [hseq e he, ← hm]
    exact h.orderly.below e hq
  · intro e he hm i hi hle
    by_cases hpast : e.seq ≤ start.toNat
    · exact Or.inl ((hc.passed e he hm hpast).mono hg)
    by_cases hlive : now < e.expiresAt
    · obtain ⟨x, hx, rfl⟩ := List.mem_map.1 hi
      rw [hseq x hx] at hle
      refine Or.inr (List.mem_map_of_mem ?_)
      have hrow := hall e he hm (Nat.not_le.1 hpast) hlive
      rw [hpage] at hx ⊢
      rw [← List.take_append_drop n rows, List.mem_append] at hrow
      rcases hrow with hrow | hrow
      · exact hrow
      · -- what is not on the page stands after all that is
        rw [← List.take_append_drop n rows, List.pairwise_append] at hsorted
        have := hsorted.2.2 x hx e hrow
        omega
    · exact Or.inl (Or.inr ((Int.not_lt.1 hlive).trans (le_max_right _ _)))

/-- Once the next envelope has taken effect, now or before, the pass has come to it. -/
theorem page_advances {w w' : World} (ho : Orderly w.queue) (hg : Grows w w') (hq : w'.queue = w.queue)
    {item : EnvelopeItem} {rest : List EnvelopeItem} (hp : Page mailbox w (item :: rest))
    (hdone : ∃ i ∈ w'.processed, i.deliveryId = item.deliveryId) :
    Come mailbox w' item.seq ∧ Page mailbox w' rest := by
  obtain ⟨hfirst, hsorted⟩ := List.pairwise_cons.1 hp.sorted
  have hsettled {e : QueuedEnvelope} (he : envelopeItem e = item) : Settled w' e := by
    obtain ⟨i, hi, hd⟩ := hdone
    exact Or.inl ⟨i, hi, hd.trans (congrArg (·.deliveryId) he).symm⟩
  have hp' := hp.mono hg
  refine ⟨⟨Or.inr (hp'.below item List.mem_cons_self), fun e he hm hle => ?_⟩, hsorted,
    fun i hi => hp'.came i (List.mem_cons_of_mem _ hi), fun i hi => hp'.below i (List.mem_cons_of_mem _ hi),
    fun e he hm i hi hle => ?_⟩
  · rcases hp'.whole e he hm item List.mem_cons_self hle with hs | hmem
    · exact hs
    · rcases List.mem_cons.1 hmem with heq | hrest
      · exact hsettled heq
      · have hlt := hfirst _ hrest
        rw [UInt64.lt_iff_toNat_lt, item_seq (ho.small (ho.below e (hq ▸ he)))] at hlt
        omega
  · rcases hp'.whole e he hm i (List.mem_cons_of_mem _ hi) hle with hs | hmem
    · exact Or.inl hs
    · exact (List.mem_cons.1 hmem).imp_left hsettled

theorem inv_receive (pf : Platform) (s : Session) {w : World} (h : Inv pf s mailbox w) {advanced : UInt64} {item : EnvelopeItem}
    {rest : List EnvelopeItem} (hphase : w.phase = .receiving advanced (item :: rest)) (now : Int) :
    Inv pf s mailbox (received pf s mailbox now advanced item rest w) := by
  have hok : PhaseOk mailbox w (.receiving advanced (item :: rest)) := hphase ▸ h.phase
  unfold received
  rcases Receive.receiveUnit_cases pf s now mailbox item w.profile.store with
    ⟨e, he⟩ | ⟨⟨r, hr, hm, hd⟩, hdup⟩ | ⟨t, msg, ch, st', hi, hopen, heff, hrun⟩
  · rw [he]
    exact inv_phase h hok.1
  · rw [hdup]
    exact inv_phase h (page_advances h.orderly (.refl w) rfl hok.2 ((h.recorded _).2 ⟨r, hr, hm, hd⟩))
  · rw [hrun]
    have hmail : mail st' = mail { w.profile.store with inbox := t } := effect_mail heff
    have hfree : ¬ ∃ i ∈ w.processed, i.deliveryId = item.deliveryId := by
      rw [h.recorded]
      rintro ⟨r, hr, hm, hd⟩
      have hnone : w.profile.store.inbox.insert ⟨mailbox, item.deliveryId, item.seq.toInt64, false⟩ = none :=
        Table.insert_eq_none.2 ⟨r, hr, Prod.ext hm hd⟩
      rw [hnone] at hi
      cases hi
    have hg : Grows w { w with
        profile := { w.profile with store := st' }, phase := .receiving item.seq rest, processed := w.processed ++ [item] } :=
      .of_same rfl le_rfl (fun i hi => List.mem_append_left _ hi) rfl
    obtain ⟨n, hn, hcur, hcome⟩ := h.cursor
    obtain ⟨e, hstored, heq⟩ := hok.2.came item List.mem_cons_self
    have hadvance := page_advances h.orderly hg rfl hok.2 ⟨item, List.mem_append_right _ List.mem_cons_self, rfl⟩
    refine ⟨h.orderly, h.ours, h.known, fun e he => (h.kept e he).imp_right fun hs => hs.mono hg, ?_, ?_, ?_, h.numbered, ?_,
      fun d => ?_, ?_,
      ⟨n, hn, (cursor_mail hmail mailbox).trans hcur, hcome.mono hg h.orderly.positive⟩, hadvance⟩
    · simp only [List.map_append, List.map_cons, List.map_nil]
      refine List.nodup_append.2 ⟨h.once, List.nodup_singleton _, fun a ha b hb => ?_⟩
      obtain ⟨i, hi, rfl⟩ := List.mem_map.1 ha
      rw [List.mem_singleton.1 hb]
      exact fun hd => hfree ⟨i, hi, hd⟩
    · intro i hi
      rcases List.mem_append.1 hi with hi | hi
      · exact h.genuine i hi
      · rw [List.mem_singleton.1 hi]
        exact ⟨e, hstored, heq⟩
    · intro i hi
      rcases List.mem_append.1 hi with hi | hi
      · exact h.opened i hi
      · rw [List.mem_singleton.1 hi]
        exact ⟨msg, hopen⟩
    · intro x hx i hi hle
      rcases List.mem_append.1 hi with hi | hi
      · exact (h.inOrder x hx i hi hle).mono hg
      · rw [List.mem_singleton.1 hi] at hle
        rcases h.kept x hx with hq | hs
        · exact hadvance.1.passed x hq (h.ours x hx) hle
        · exact hs.mono hg
    · rw [recorded_mail hmail fun r => r.mailboxId = mailbox ∧ r.deliveryId = d]
      constructor
      · rintro ⟨i, hmem, hd⟩
        rcases List.mem_append.1 hmem with hold | hnew
        · obtain ⟨r, hr, hrow⟩ := (h.recorded d).1 ⟨i, hold, hd⟩
          exact ⟨r, (Table.mem_insert hi).2 (Or.inl hr), hrow⟩
        · rw [List.mem_singleton.1 hnew] at hd
          exact ⟨_, (Table.mem_insert hi).2 (Or.inr rfl), rfl, hd⟩
      · rintro ⟨r, hr, hm, hd⟩
        rcases (Table.mem_insert hi).1 hr with hold | rfl
        · obtain ⟨i, hmem, hd⟩ := (h.recorded d).2 ⟨r, hold, hm, hd⟩
          exact ⟨i, List.mem_append_left _ hmem, hd⟩
        · exact ⟨item, List.mem_append_right _ List.mem_cons_self, hd⟩
    · intro ids hids d hd
      obtain ⟨i, hi, hid⟩ := h.late ids hids d hd
      exact ⟨i, List.mem_append_left _ hi, hid⟩

theorem recorded_markAcked (m d : Bytes) (ids : List Bytes) (st : Store) :
    (∃ r ∈ (markAcked mailbox ids st).inbox, r.mailboxId = m ∧ r.deliveryId = d) ↔
      ∃ r ∈ st.inbox, r.mailboxId = m ∧ r.deliveryId = d := by
  induction ids generalizing st with
  | nil => exact Iff.rfl
  | cons i ids ih =>
    have hmarked : ∀ r : InboxRow, (({ r with acked := true } : InboxRow).mailboxId, ({ r with acked := true } : InboxRow).deliveryId) =
        (r.mailboxId, r.deliveryId) := fun _ => rfl
    have hkey : (∃ r ∈ st.inbox.update (fun r => r.mailboxId = mailbox && r.deliveryId = i) ({ · with acked := true }) hmarked,
        (r.mailboxId, r.deliveryId) = (m, d)) ↔ ∃ r ∈ st.inbox, (r.mailboxId, r.deliveryId) = (m, d) :=
      Table.exists_key_update
    simp only [Prod.mk.injEq] at hkey
    exact (ih _).trans hkey

theorem unacked_recorded {st : Store} {d : Bytes} (hd : d ∈ unacked st mailbox) :
    ∃ r ∈ st.inbox, r.mailboxId = mailbox ∧ r.deliveryId = d := by
  obtain ⟨r, hr, rfl⟩ := List.mem_map.1 hd
  have hrow := (List.mem_insertionSort _).1 hr
  simp only [List.mem_filter, Bool.and_eq_true, decide_eq_true_eq] at hrow
  exact ⟨r, hrow.1, hrow.2.1, rfl⟩

theorem cursor_setCursor (c : Int64) (st : Store) :
    (cursor st mailbox = 0 ∧ cursor (setCursor mailbox c st) mailbox = c) ∨
      cursor (setCursor mailbox c st) mailbox = max (cursor st mailbox) c := by
  simp only [cursor, setCursor, Table.get?_upsert, if_true, Option.elim_some]
  cases st.mailboxCursor.get? mailbox with
  | none => exact Or.inl ⟨rfl, rfl⟩
  | some r => exact Or.inr rfl

theorem toInt_toInt64 {n : UInt64} (h : n.toNat < 2 ^ 63) : n.toInt64.toInt = n.toNat := by
  show n.toBitVec.toInt = _
  rw [BitVec.toInt_eq_toNat_of_lt (by simpa using by omega)]
  rfl

theorem max_int64 (a b : Int64) : a ≤ max a b ∧ (max a b = a ∨ max a b = b) := by
  show a ≤ (if a ≤ b then b else a) ∧ ((if a ≤ b then b else a) = a ∨ (if a ≤ b then b else a) = b)
  split
  · next h => exact ⟨h, Or.inr rfl⟩
  · exact ⟨Int64.le_refl a, Or.inl rfl⟩

theorem inv_step (pf : Platform) (s : Session) {w : World} (h : Inv pf s mailbox w) (ev : Event) :
    Inv pf s mailbox (step sha256 pf s mailbox w ev) := by
  cases ev with
  | relay t =>
    simp only [step]
    cases hack : acks mailbox t with
    | true => exact h
    | false => exact inv_relay h hack
  | act a =>
    simp only [step]
    cases hs : ofSync a with
    | true => exact h
    | false =>
      have hmail : mail (Act.step pf s w.profile a).store = mail w.profile.store := step_mail hs w.profile
      exact inv_profile h le_rfl (fun d => recorded_mail hmail _)
        (by simpa only [cursor_mail hmail] using h.cursor) h.late h.phase
  | fetch =>
    simp only [step]
    split
    · obtain ⟨n, hn, hcur, hcome⟩ := h.cursor
      refine inv_phase h ?_
      rw [hcur, UInt64.toUInt64_toInt64]
      exact hcome
    · exact h
  | page now =>
    simp only [step]
    split
    · next start hph =>
      have hcome : Come mailbox w start := by
        have hok := h.phase
        rw [hph] at hok
        exact hok
      have hg : Grows w { w with clock := max w.clock now } := .of_same rfl (le_max_left _ _) (fun _ hi => hi) rfl
      exact inv_profile h (le_max_left _ _) (fun _ => Iff.rfl) h.cursor h.late
        ⟨hcome.mono hg h.orderly.positive, page_whole h hcome now⟩
    · exact h
  | receive now =>
    simp only [step]
    split
    · next advanced hph =>
      have hok : PhaseOk mailbox w (.receiving advanced []) := hph ▸ h.phase
      exact inv_phase h hok.1
    · next advanced item rest hph => exact inv_receive pf s h hph now
    · exact h
  | acknowledge =>
    simp only [step]
    split
    · next n hph =>
      have hok : PhaseOk mailbox w (.received n) := hph ▸ h.phase
      refine inv_phase h ?_
      split
      · exact hok
      · exact ⟨hok, fun d hd => (h.recorded d).2 (unacked_recorded hd)⟩
    · exact h
  | served =>
    simp only [step]
    split
    · next n ids hph =>
      have hok : PhaseOk mailbox w (.acknowledging n ids) := hph ▸ h.phase
      exact inv_acked h hok.2 rfl rfl (fun _ hids => hids) hok.1
    · exact h
  | mark =>
    simp only [step]
    split
    · next n ids hph =>
      have hok : PhaseOk mailbox w (.acknowledged n ids) := hph ▸ h.phase
      refine inv_profile h le_rfl (fun d => recorded_markAcked mailbox d ids _) ?_ h.late hok
      rw [markAcked_eq]
      exact h.cursor
    · exact h
  | close =>
    simp only [step]
    split
    · next n hph =>
      have hok : Come mailbox w n := by
        have hok := h.phase
        rw [hph] at hok
        exact hok
      refine inv_profile h le_rfl (fun _ => Iff.rfl) ?_ h.late trivial
      obtain ⟨m, hm, hcur, hcome⟩ := h.cursor
      rcases cursor_setCursor n.toInt64 w.profile.store with ⟨-, hset⟩ | hset
      · exact ⟨n, hok.small h.orderly, hset, hok⟩
      · rcases (max_int64 (cursor w.profile.store mailbox) n.toInt64).2 with hmax | hmax
        · exact ⟨m, hm, (hset.trans hmax).trans hcur, hcome⟩
        · exact ⟨n, hok.small h.orderly, hset.trans hmax, hok⟩
    · exact h
  | cut =>
    simp only [step]
    split
    · next n ids hph =>
      have hok : PhaseOk mailbox w (.acknowledging n ids) := hph ▸ h.phase
      refine inv_profile h le_rfl (fun _ => Iff.rfl) h.cursor (fun ids' hids => ?_) trivial
      rcases List.mem_append.1 hids with hold | hnew
      · exact h.late ids' hold
      · rw [List.mem_singleton.1 hnew]
        exact hok.2
    · exact inv_phase h trivial
  | late i =>
    simp only [step]
    split
    · next ids hids =>
      exact inv_acked h (h.late ids (List.mem_of_getElem? hids)) rfl rfl (fun _ hm => List.mem_of_mem_eraseIdx hm) h.phase
    · exact h

theorem cursor_received (pf : Platform) (s : Session) (now : Int) (advanced : UInt64) (item : EnvelopeItem)
    (rest : List EnvelopeItem) (w : World) :
    cursor (received pf s mailbox now advanced item rest w).profile.store mailbox = cursor w.profile.store mailbox := by
  unfold received
  rcases Receive.receiveUnit_cases pf s now mailbox item w.profile.store with
    ⟨e, he⟩ | ⟨-, hdup⟩ | ⟨t, msg, ch, st', hi, -, heff, hrun⟩
  · rw [he]
  · rw [hdup]
  · rw [hrun]
    exact (cursor_mail (effect_mail heff) mailbox).trans rfl

theorem cursor_step (pf : Platform) (s : Session) (w : World) (h : Inv pf s mailbox w) (ev : Event) :
    cursor w.profile.store mailbox ≤ cursor (step sha256 pf s mailbox w ev).profile.store mailbox := by
  cases ev with
  | act a =>
    simp only [step]
    cases hs : ofSync a with
    | true => exact Int64.le_refl _
    | false =>
      rw [if_neg (by simp), cursor_mail (step_mail hs w.profile)]
      exact Int64.le_refl _
  | receive now =>
    simp only [step]
    split
    · exact Int64.le_refl _
    · rw [cursor_received]
      exact Int64.le_refl _
    · exact Int64.le_refl _
  | mark =>
    simp only [step]
    split
    · rw [markAcked_eq]
      exact Int64.le_refl _
    · exact Int64.le_refl _
  | close =>
    simp only [step]
    split
    · next n hph =>
      have hok : Come mailbox w n := by
        have hok := h.phase
        rw [hph] at hok
        exact hok
      rcases cursor_setCursor n.toInt64 w.profile.store with ⟨hzero, hset⟩ | hset
      · -- from no cursor at all to one that is not negative
        rw [hzero, hset, Int64.le_iff_toInt_le, toInt_toInt64 (hok.small h.orderly)]
        exact Int.natCast_nonneg _
      · rw [hset]
        exact (max_int64 _ _).1
    · exact Int64.le_refl _
  | relay t =>
    simp only [step]
    split <;> exact Int64.le_refl _
  | fetch | page now | acknowledge | served | cut | late i =>
    simp only [step]
    split <;> exact Int64.le_refl _

end Custody

end Arveil

import Arveil.Proofs.Acts

/-! One pass over the outbox. A row is settled when the relay takes it or refuses
it for good; anything else ends the pass, and the synchronisation with it. -/

namespace Arveil.Publish

open Client Delivery Sync

/-- The answers that settle a row: taken, or refused with a code for good. -/
def settles : Except CliError Reply → Bool
  | .ok (.envelopeAccepted _) => true
  | .ok _ => false
  | .error e => e.relayCode = some 403 || e.relayCode = some 410

def answered (row : OutboxRow) (answer : Except CliError Reply) (st : Store) : Store :=
  match answer with
  | .ok (.envelopeAccepted expiry) =>
      markAccepted row.id (some expiry.toInt64.toInt) (markAttempt row.id st)
  | .ok _ => markAttempt row.id st
  | .error e =>
      if e.relayCode = some 403 ∨ e.relayCode = some 410 then markUndeliverable row.id (markAttempt row.id st)
      else markAttempt row.id st

theorem publishRow_none {relay : Relay} {expiry : UInt64} {row : OutboxRow} {w : World}
    (h : writeCapFor w.store row.mailboxId = none) :
    publishRow relay expiry row w = (.error (.domain "no write capability for a pending envelope"), w) := by
  unfold publishRow
  rw [Prog.bind_ok (Prog.read_run _ w), h]
  rfl

theorem publishRow_some (relay : Relay) (expiry : UInt64) {row : OutboxRow} {cap : Bytes} {w : World}
    (h : writeCapFor w.store row.mailboxId = some cap) :
    ∃ r, publishRow relay expiry row w = (r, ⟨answered row (relay.answer w.sent (putPayload row cap expiry)) w.store,
        w.sent ++ [putPayload row cap expiry]⟩) ∧
      ((∃ b, r = .ok b) ↔ settles (relay.answer w.sent (putPayload row cap expiry)) = true) := by
  have hput : publishRow relay expiry row w =
      (match relay.answer w.sent (putPayload row cap expiry) with
        | .ok (.envelopeAccepted effectiveExpiry) => do
            onStore (Prog.modify (markAccepted row.id (some effectiveExpiry.toInt64.toInt)))
            pure true
        | .ok other => Net.unexpected relay other
        | .error e =>
            if e.relayCode = some 403 ∨ e.relayCode = some 410 then do
              onStore (Prog.modify (markUndeliverable row.id))
              pure false
            else Prog.fail e : Net Bool)
        ⟨markAttempt row.id w.store, w.sent ++ [putPayload row cap expiry]⟩ := by
    unfold publishRow
    rw [Prog.bind_ok (Prog.read_run _ w), h]
    rfl
  rw [hput]
  rcases relay.answer w.sent (putPayload row cap expiry) with e | reply
  · by_cases hcode : e.relayCode = some 403 ∨ e.relayCode = some 410
    · simp only [answered, settles, if_pos hcode]
      exact ⟨_, rfl, by simpa using hcode⟩
    · simp only [answered, settles, if_neg hcode]
      exact ⟨_, rfl, by simpa using hcode⟩
  · cases reply
    case envelopeAccepted effectiveExpiry => exact ⟨_, rfl, by simp [settles]⟩
    all_goals exact ⟨_, rfl, by simp [settles]⟩

def envelope (r : OutboxRow) : Nat × Bytes × Bytes × Option Bytes × Bytes × Bytes :=
  (r.id, r.mailboxId, r.deliveryId, r.eventId, r.hpkeEnc, r.ciphertext)

/-- Every row stays the same envelope, and all but one are left alone. -/
def Touched (id : Nat) (st st' : Store) : Prop :=
  ∃ g : OutboxRow → OutboxRow, (∀ r, envelope (g r) = envelope r) ∧ (∀ r, r.id ≠ id → g r = r) ∧
    ∀ r', r' ∈ st'.outbox ↔ ∃ r ∈ st.outbox, g r = r'

theorem Touched.trans {id : Nat} {st st' st'' : Store} (h : Touched id st st') (h' : Touched id st' st'') :
    Touched id st st'' := by
  obtain ⟨g, he, hk, hm⟩ := h
  obtain ⟨g', he', hk', hm'⟩ := h'
  refine ⟨g' ∘ g, fun r => (he' (g r)).trans (he r), fun r hne => ?_, fun r'' => ?_⟩
  · rw [Function.comp_apply, hk r hne, hk' r hne]
  · rw [hm']
    constructor
    · rintro ⟨r', hr', rfl⟩
      obtain ⟨r, hr, rfl⟩ := (hm r').1 hr'
      exact ⟨r, hr, rfl⟩
    · rintro ⟨r, hr, rfl⟩
      exact ⟨g r, (hm _).2 ⟨r, hr, rfl⟩, rfl⟩

theorem touched_update (id : Nat) {f : OutboxRow → OutboxRow} {hf : ∀ r, (f r).id = r.id}
    (he : ∀ r, envelope (f r) = envelope r) (st : Store) : Touched id st (updateOutbox id f hf st) := by
  refine ⟨fun r => if r.id = id then f r else r, fun r => ?_, fun r hne => if_neg hne, fun r' => ?_⟩
  · dsimp only
    split
    · exact he r
    · rfl
  · show r' ∈ st.outbox.update (fun r => r.id = id) f hf ↔ _
    simp [Table.mem_update]

theorem touched_answered (row : OutboxRow) (answer : Except CliError Reply) (st : Store) :
    Touched row.id st (answered row answer st) := by
  have hattempt : Touched row.id st (markAttempt row.id st) := by
    refine touched_update row.id ?_ st
    exact fun _ => rfl
  unfold answered
  split
  · refine hattempt.trans (touched_update row.id ?_ _)
    exact fun _ => rfl
  · exact hattempt
  · split
    · refine hattempt.trans (touched_update row.id ?_ _)
      exact fun _ => rfl
    · exact hattempt

/-- Every row has a stored capability, and the relay settles each as it is put. -/
def AllSettle (relay : Relay) (expiry : UInt64) (st : Store) : List Payload → List OutboxRow → Prop
  | _, [] => True
  | sent, row :: rest => ∃ cap, writeCapFor st row.mailboxId = some cap ∧
      settles (relay.answer sent (putPayload row cap expiry)) = true ∧
      AllSettle relay expiry st (sent ++ [putPayload row cap expiry]) rest

def puts (expiry : UInt64) (st : Store) (rows : List OutboxRow) : List Payload :=
  rows.filterMap fun row => (writeCapFor st row.mailboxId).map fun cap => putPayload row cap expiry

theorem writeCapFor_unpublished {st st' : Store} (h : unpublished st' = unpublished st) (mailbox : Bytes) :
    writeCapFor st' mailbox = writeCapFor st mailbox := by
  have hu (t : Store) : writeCapFor (unpublished t) mailbox = writeCapFor t mailbox := rfl
  rw [← hu st', h, hu]

theorem allSettle_unpublished {relay : Relay} {expiry : UInt64} {st st' : Store}
    (h : unpublished st' = unpublished st) {sent : List Payload} {rows : List OutboxRow} :
    AllSettle relay expiry st' sent rows ↔ AllSettle relay expiry st sent rows := by
  induction rows generalizing sent with
  | nil => exact Iff.rfl
  | cons row rest ih => simp only [AllSettle, writeCapFor_unpublished h, ih]

theorem puts_unpublished {expiry : UInt64} {st st' : Store} (h : unpublished st' = unpublished st)
    (rows : List OutboxRow) : puts expiry st' rows = puts expiry st rows := by
  simp only [puts, writeCapFor_unpublished h]

/-- A pass puts its rows in order up to where it stops, and it returns exactly when
every row settles. -/
theorem publishRows_run (relay : Relay) (expiry : UInt64) (rows : List OutboxRow) (w : World) :
    ∃ r w', publishRows relay expiry rows w = (r, w') ∧ (∃ ps, ps <+: puts expiry w.store rows ∧ w'.sent = w.sent ++ ps ∧
        (AllSettle relay expiry w.store w.sent rows → ps = puts expiry w.store rows)) ∧
      ((∃ n, r = .ok n) ↔ AllSettle relay expiry w.store w.sent rows) := by
  induction rows generalizing w with
  | nil => exact ⟨_, _, rfl, ⟨[], List.nil_prefix, (List.append_nil _).symm, fun _ => rfl⟩, by simp [AllSettle]⟩
  | cons row rest ih =>
    unfold publishRows
    cases hcap : writeCapFor w.store row.mailboxId with
    | none =>
      rw [Prog.bind_error (publishRow_none hcap)]
      exact ⟨_, _, rfl, ⟨[], List.nil_prefix, (List.append_nil _).symm, fun h => by simp [AllSettle, hcap] at h⟩,
        by simp [AllSettle, hcap]⟩
    | some cap =>
      have hputs : puts expiry w.store (row :: rest) = putPayload row cap expiry :: puts expiry w.store rest := by
        simp [puts, hcap]
      obtain ⟨r, hrun, hok⟩ := publishRow_some relay expiry hcap
      have hrest : unpublished (publishRow relay expiry row w).2.store = unpublished w.store :=
        fixes_publishRow relay expiry row w
      rw [hrun] at hrest
      cases r with
      | error e =>
        have hstop : settles (relay.answer w.sent (putPayload row cap expiry)) ≠ true := fun h => by simpa using hok.2 h
        rw [Prog.bind_error hrun]
        refine ⟨_, _, rfl, ⟨[putPayload row cap expiry], ?_, rfl, fun h => ?_⟩, ?_⟩
        · rw [hputs]
          exact List.prefix_append [putPayload row cap expiry] _
        · obtain ⟨cap', hcap', hs, -⟩ := h
          obtain rfl := Option.some.inj (hcap.symm.trans hcap')
          exact absurd hs hstop
        · simp [AllSettle, hcap, hstop]
      | ok b =>
        have hs := hok.1 ⟨b, rfl⟩
        rw [Prog.bind_ok hrun]
        obtain ⟨r', w', hrun', ⟨ps, hpre, hsent, hall⟩, hok'⟩ := ih _
        rw [allSettle_unpublished hrest] at hall hok'
        rw [puts_unpublished hrest] at hpre hall
        have hiff : AllSettle relay expiry w.store w.sent (row :: rest) ↔
            AllSettle relay expiry w.store (w.sent ++ [putPayload row cap expiry]) rest := by
          simp [AllSettle, hcap, hs]
        rw [hputs, hiff]
        have hsent' : w'.sent = w.sent ++ putPayload row cap expiry :: ps := by rw [hsent]; simp
        have hpre' : (putPayload row cap expiry :: ps) <+: putPayload row cap expiry :: puts expiry w.store rest :=
          (List.prefix_cons_inj _).2 hpre
        cases r' with
        | error e =>
          rw [Prog.bind_error hrun']
          exact ⟨_, _, rfl, ⟨_, hpre', hsent', fun h => by rw [hall h]⟩, by simpa using hok'⟩
        | ok n =>
          rw [Prog.bind_ok hrun']
          exact ⟨_, _, rfl, ⟨_, hpre', hsent', fun h => by rw [hall h]⟩, by simpa using hok'⟩

theorem publishRows_follows (relay : Relay) (expiry : UInt64) {rows : List OutboxRow} (hnd : (rows.map (·.id)).Nodup)
    {w : World} (hsealed : ∀ r ∈ w.store.outbox, r.id ∈ rows.map (·.id) → r.state = .sealed) :
    ∀ r ∈ w.store.outbox, ∃ r' ∈ (publishRows relay expiry rows w).2.store.outbox,
      envelope r' = envelope r ∧ (r.state ≠ .sealed → r' = r) := by
  induction rows generalizing w with
  | nil => exact fun r hr => ⟨r, hr, rfl, fun _ => rfl⟩
  | cons row rest ih =>
    obtain ⟨hrow, hnd⟩ : row.id ∉ rest.map (·.id) ∧ (rest.map (·.id)).Nodup := List.nodup_cons.1 hnd
    intro r hr
    unfold publishRows
    cases hcap : writeCapFor w.store row.mailboxId with
    | none =>
      rw [Prog.bind_error (publishRow_none hcap)]
      exact ⟨r, hr, rfl, fun _ => rfl⟩
    | some cap =>
      obtain ⟨res, hrun, -⟩ := publishRow_some relay expiry hcap
      obtain ⟨g, he, hk, hm⟩ := touched_answered row (relay.answer w.sent (putPayload row cap expiry)) w.store
      have hstate : r.state ≠ .sealed → g r = r := fun hs => hk r fun hid => hs (hsealed r hr (by simp [hid]))
      have hgr := (hm (g r)).2 ⟨r, hr, rfl⟩
      cases res with
      | error e =>
        rw [Prog.bind_error hrun]
        exact ⟨g r, hgr, he r, hstate⟩
      | ok b =>
        rw [Prog.bind_ok hrun]
        -- the rows still to come are other rows than this one, so they are as they were
        have hrest : ∀ q ∈ (answered row (relay.answer w.sent (putPayload row cap expiry)) w.store).outbox,
            q.id ∈ rest.map (·.id) → q.state = .sealed := by
          intro q hq hid
          obtain ⟨q₀, hq₀, rfl⟩ := (hm q).1 hq
          have hid₀ : (g q₀).id = q₀.id := congrArg (·.1) (he q₀)
          rw [hid₀] at hid
          rw [hk q₀ fun h => hrow (h ▸ hid)]
          exact hsealed q₀ hq₀ (List.mem_cons_of_mem _ hid)
        obtain ⟨r₂, hr₂, he₂, hk₂⟩ := ih hnd (w := ⟨_, w.sent ++ [putPayload row cap expiry]⟩) hrest (g r) hgr
        refine ⟨r₂, ?_, he₂.trans (he r), fun hs => ?_⟩
        · rw [Prog.bind_pure_snd]
          exact hr₂
        · rw [hk₂ (by rw [hstate hs]; exact hs), hstate hs]

def Refused (answer : Except CliError Reply) : Prop :=
  ∃ e, answer = .error e ∧ (e.relayCode = some 403 ∨ e.relayCode = some 410)

theorem answered_undeliverable {row : OutboxRow} {answer : Except CliError Reply} {st : Store} {r' : OutboxRow}
    (h : r' ∈ (answered row answer st).outbox) (hs : r'.state = .undeliverable) :
    (∃ r ∈ st.outbox, r.id = r'.id ∧ r.state = .undeliverable) ∨ (row.id = r'.id ∧ Refused answer) := by
  have hback {f : OutboxRow → OutboxRow} {hf : ∀ r, (f r).id = r.id} {t : Store} {q' : OutboxRow}
      (hq : q' ∈ (updateOutbox row.id f hf t).outbox) : ∃ q ∈ t.outbox, q.id = q'.id ∧ (q' = q ∨ (q.id = row.id ∧ q' = f q)) := by
    obtain ⟨q, hold, rfl⟩ := Table.mem_update.1 (show q' ∈ t.outbox.update (fun r => r.id = row.id) f hf from hq)
    by_cases hid : q.id = row.id
    · exact ⟨q, hold, by simp [hid, hf], Or.inr ⟨hid, by simp [hid]⟩⟩
    · exact ⟨q, hold, by simp [hid], Or.inl (by simp [hid])⟩
  have hattempt {q' : OutboxRow} (hq : q' ∈ (markAttempt row.id st).outbox) (hq' : q'.state = .undeliverable) :
      ∃ r ∈ st.outbox, r.id = q'.id ∧ r.state = .undeliverable := by
    obtain ⟨q, hold, hid, rfl | ⟨-, rfl⟩⟩ := hback hq
    · exact ⟨_, hold, hid, hq'⟩
    · exact ⟨q, hold, hid, hq'⟩
  unfold answered at h
  split at h
  · obtain ⟨q, hq, hid, rfl | ⟨-, rfl⟩⟩ := hback h
    · exact Or.inl (hattempt hq hs)
    · cases hs
  · exact Or.inl (hattempt h hs)
  · next e =>
    split at h
    · next hcode =>
      obtain ⟨q, hq, hid, rfl | ⟨hrow, rfl⟩⟩ := hback h
      · exact Or.inl (hattempt hq hs)
      · exact Or.inr ⟨hrow.symm, e, rfl, hcode⟩
    · exact Or.inl (hattempt h hs)

theorem publishRows_undeliverable {relay : Relay} {expiry : UInt64} {rows : List OutboxRow} {w : World}
    {r' : OutboxRow} (h : r' ∈ (publishRows relay expiry rows w).2.store.outbox) (hs : r'.state = .undeliverable) :
    (∃ r ∈ w.store.outbox, r.id = r'.id ∧ r.state = .undeliverable) ∨
      ∃ row ∈ rows, row.id = r'.id ∧ ∃ cap sent, writeCapFor w.store row.mailboxId = some cap ∧
        Refused (relay.answer sent (putPayload row cap expiry)) := by
  induction rows generalizing w with
  | nil => exact Or.inl ⟨r', h, rfl, hs⟩
  | cons row rest ih =>
    unfold publishRows at h
    cases hcap : writeCapFor w.store row.mailboxId with
    | none =>
      rw [Prog.bind_error (publishRow_none hcap)] at h
      exact Or.inl ⟨r', h, rfl, hs⟩
    | some cap =>
      obtain ⟨res, hrun, -⟩ := publishRow_some relay expiry hcap
      have hhere {q : OutboxRow} (hq : q ∈ (answered row (relay.answer w.sent (putPayload row cap expiry)) w.store).outbox)
          (hid : q.id = r'.id) (hqs : q.state = .undeliverable) :
          (∃ r ∈ w.store.outbox, r.id = r'.id ∧ r.state = .undeliverable) ∨
            ∃ row' ∈ row :: rest, row'.id = r'.id ∧ ∃ cap sent, writeCapFor w.store row'.mailboxId = some cap ∧
              Refused (relay.answer sent (putPayload row' cap expiry)) := by
        rcases answered_undeliverable hq hqs with ⟨r, hr, hrid, hrs⟩ | ⟨hrow, href⟩
        · exact Or.inl ⟨r, hr, hrid.trans hid, hrs⟩
        · exact Or.inr ⟨row, List.mem_cons_self, hrow.trans hid, cap, w.sent, hcap, href⟩
      cases res with
      | error e =>
        rw [Prog.bind_error hrun] at h
        exact hhere h rfl hs
      | ok b =>
        rw [Prog.bind_ok hrun, Prog.bind_pure_snd] at h
        have hrest : unpublished (publishRow relay expiry row w).2.store = unpublished w.store :=
          fixes_publishRow relay expiry row w
        rw [hrun] at hrest
        rcases ih h with ⟨q, hq, hid, hqs⟩ | ⟨row', hrow', hid, cap', sent, hcap', href⟩
        · exact hhere hq hid hqs
        · rw [writeCapFor_unpublished hrest] at hcap'
          exact Or.inr ⟨row', List.mem_cons_of_mem row hrow', hid, cap', sent, hcap', href⟩

theorem mem_pending {st : Store} {r : OutboxRow} : r ∈ pending st ↔ r ∈ st.outbox ∧ r.state = .sealed := by
  unfold pending
  rw [(List.perm_insertionSort _ _).mem_iff, List.mem_filter, Table.mem_def]
  simp

theorem pending_ids_nodup (st : Store) : ((pending st).map (·.id)).Nodup := by
  have hperm := (List.perm_insertionSort (fun a b : OutboxRow => a.id ≤ b.id)
    (st.outbox.rows.filter fun r => r.state = .sealed)).map (·.id)
  exact hperm.nodup_iff.2 (st.outbox.nodup.sublist (List.filter_sublist.map _))

def asked (relay : Relay) (expiry : UInt64) (w : World) : List Payload :=
  (publishPending relay expiry w).2.sent.drop w.sent.length

/-- A pass asks in the order of its rows, with the capability found for each
mailbox and the bytes the row was sealed with; it asks for all of them if it returns. -/
theorem asked_puts (relay : Relay) (expiry : UInt64) (w : World) :
    asked relay expiry w <+: puts expiry w.store (pending w.store) ∧
      (AllSettle relay expiry w.store w.sent (pending w.store) →
        asked relay expiry w = puts expiry w.store (pending w.store)) ∧
      ((∃ n, (publishPending relay expiry w).1 = .ok n) ↔ AllSettle relay expiry w.store w.sent (pending w.store)) := by
  have hpass : publishPending relay expiry w = publishRows relay expiry (pending w.store) w := rfl
  obtain ⟨r, w', hrun, ⟨ps, hpre, hsent, hall⟩, hok⟩ := publishRows_run relay expiry (pending w.store) w
  have hasked : asked relay expiry w = ps := by
    rw [asked, hpass, hrun, hsent, List.drop_left]
  rw [hasked, hpass, hrun]
  exact ⟨hpre, hall, hok⟩

theorem mem_puts {expiry : UInt64} {st : Store} {rows : List OutboxRow} {p : Payload} :
    p ∈ puts expiry st rows ↔ ∃ row ∈ rows, ∃ cap, writeCapFor st row.mailboxId = some cap ∧
      p = putPayload row cap expiry := by
  unfold puts
  rw [List.mem_filterMap]
  constructor
  · rintro ⟨row, hrow, h⟩
    obtain ⟨cap, hcap, rfl⟩ := Option.map_eq_some_iff.1 h
    exact ⟨row, hrow, cap, hcap, rfl⟩
  · rintro ⟨row, hrow, cap, hcap, rfl⟩
    exact ⟨row, hrow, by rw [hcap, Option.map_some]⟩

theorem pending_follows (relay : Relay) (expiry : UInt64) (w : World) {r : OutboxRow} (hr : r ∈ w.store.outbox) :
    ∃ r' ∈ (publishPending relay expiry w).2.store.outbox, envelope r' = envelope r ∧ (r.state ≠ .sealed → r' = r) := by
  refine publishRows_follows relay expiry (pending_ids_nodup w.store) (fun q hq hid => ?_) r hr
  obtain ⟨q', hq', he⟩ := List.mem_map.1 hid
  obtain ⟨hmem, hs⟩ := mem_pending.1 hq'
  rw [← Table.eq_of_key hmem hq he]
  exact hs

/-- What a pass over the outbox owes its rows and the mail. -/
structure Isolated (relay : Relay) (expiry : UInt64) (w : World) : Prop where
  published : ∀ row ∈ pending w.store, ∀ cap, writeCapFor w.store row.mailboxId = some cap →
    putPayload row cap expiry ∈ asked relay expiry w
  returns : ∃ n, (publishPending relay expiry w).1 = .ok n
  fetches : ∀ pf hooks s now m w₀ w₁, mailboxOwn w₀.store = some m → hooks.prepare w₀ = (.ok (), w₁) →
    hooks.publishDevices w₁ = (.ok (), w) →
    sync pf relay hooks s now expiry w₀ = (do
      fetchMail pf relay hooks s now m
      hooks.prepare
      let _ ← publishPending relay expiry
      pure ()) (publishPending relay expiry w).2
  exact : ∀ p ∈ asked relay expiry w, ∃ row ∈ pending w.store, ∃ cap, p = putPayload row cap expiry
  onward : ∀ r ∈ w.store.outbox, ∃ r' ∈ (publishPending relay expiry w).2.store.outbox,
    envelope r' = envelope r ∧ (r.state ≠ .sealed → r'.state = r.state)

/-- The rows of the outbox do not stand in each other's way, nor in the way of the
mail, exactly when each has a stored capability and the relay takes each or refuses
it for good. -/
theorem isolated_iff_all_settle (relay : Relay) (expiry : UInt64) (w : World) :
    Isolated relay expiry w ↔ AllSettle relay expiry w.store w.sent (pending w.store) := by
  obtain ⟨hpre, hall, hok⟩ := asked_puts relay expiry w
  constructor
  · exact fun h => hok.1 h.returns
  · intro h
    refine ⟨fun row hrow cap hcap => ?_, hok.2 h, fun pf hooks s now m w₀ w₁ hm h₁ h₂ => ?_, fun p hp => ?_,
      fun r hr => ?_⟩
    · rw [hall h]
      exact mem_puts.2 ⟨row, hrow, cap, hcap, rfl⟩
    · obtain ⟨n, hn⟩ := hok.2 h
      have hrun : publishPending relay expiry w = (.ok n, (publishPending relay expiry w).2) := by rw [← hn]
      unfold sync
      rw [Prog.bind_ok (Prog.read_run _ w₀), hm, Prog.bind_ok (Prog.ofOption_some _ m w₀), Prog.bind_ok h₁,
        Prog.bind_ok h₂, Prog.bind_ok hrun]
    · obtain ⟨row, hrow, cap, -, rfl⟩ := mem_puts.1 (hpre.subset hp)
      exact ⟨row, hrow, cap, rfl⟩
    · obtain ⟨r', hr', he, hk⟩ := pending_follows relay expiry w hr
      exact ⟨r', hr', he, fun hs => by rw [hk hs]⟩

section demo

def demoRow (id : Nat) (mailbox : UInt8) : OutboxRow := ⟨id, [mailbox], [UInt8.ofNat id], none, [1], [2], .sealed, 0, none⟩

def demoWorld : World where
  store := { Store.empty with
    conversations := ⟨[⟨[7], true, 0, none, none, .none, none⟩], by simp⟩
    peers := ⟨[⟨[7], [2], [2], [2, 3], [2], some [70], some [71], some [72], false⟩,
      ⟨[7], [4], [4], [4, 3], [4], some [80], some [81], some [82], false⟩], by simp⟩
    outbox := ⟨[demoRow 1 70, demoRow 2 80], by simp [demoRow]⟩ }
  sent := []

def demoRelay : Relay where
  answer _
    | .envelopePut mailbox _ _ _ _ _ =>
        if mailbox = [70] then .error (.relay 429 "mailbox queue full") else .ok (.envelopeAccepted 1000)
    | _ => .ok .ack
  debug _ := ""

/-- The envelope for mailbox 80 is not even tried. -/
theorem full_mailbox_stops_the_pass : ¬ Isolated demoRelay 0 demoWorld := by
  intro h
  have hcap : demoRow 2 80 ∈ pending demoWorld.store ∧ writeCapFor demoWorld.store [80] = some [81] ∧
      putPayload (demoRow 2 80) [81] 0 ∉ asked demoRelay 0 demoWorld := by decide +kernel
  exact hcap.2.2 (h.published _ hcap.1 [81] hcap.2.1)

end demo

end Arveil.Publish

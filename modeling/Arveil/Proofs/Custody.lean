import Arveil.Proofs.Custody.Sync

/-! What the relay has taken for a mailbox takes effect once. The relay keeps an envelope
until the profile has recorded it or it expires, and the profile records it with its effect
or not at all, whatever is cut off, repeated or late in between. -/

namespace Arveil

open Delivery

variable {pf : Platform} {s : Session}

namespace Custody

open RelayQueue

variable {sha256 : Bytes → Bytes} {mailbox : Bytes}

theorem inv_after (pf : Platform) (s : Session) {w : World} (h : Inv pf s mailbox w) (evs : List Event) :
    Inv pf s mailbox (after sha256 pf s mailbox w evs) :=
  Trace.invariant (I := Inv pf s mailbox) (fun _ ev _ hw => inv_step pf s hw ev) (Trace.meets_true w evs) h

theorem cursor_after (pf : Platform) (s : Session) {w : World} (h : Inv pf s mailbox w) (evs : List Event) :
    cursor w.profile.store mailbox ≤ cursor (after sha256 pf s mailbox w evs).profile.store mailbox := by
  induction evs generalizing w with
  | nil => exact Int64.le_refl _
  | cons ev evs ih => exact Int64.le_trans (cursor_step pf s w h ev) (ih (inv_step pf s h ev))

/-- In every run, each envelope the relay took for the mailbox is in its queue, has taken
effect or has expired, and none takes effect twice or before an earlier one; the inbox holds
those that have. The cursor never goes back and never passes an envelope that could still take
effect. -/
theorem deliveries_take_effect_once (sha256 : Bytes → Bytes) (pf : Platform) (s : Session) (mailbox : Bytes)
    (profile : Arveil.World) (evs : List Event) :
    let w := after sha256 pf s mailbox (start profile) evs
    (w.processed.map (·.deliveryId)).Nodup ∧
    (∀ i ∈ w.processed, ∃ e ∈ w.stored, envelopeItem e = i) ∧
    (∀ d, (∃ i ∈ w.processed, i.deliveryId = d) ↔ ∃ r ∈ w.profile.store.inbox, r.mailboxId = mailbox ∧ r.deliveryId = d) ∧
    (∀ e ∈ w.stored, e ∈ w.queue.queued ∨ (∃ i ∈ w.processed, i.deliveryId = e.deliveryId) ∨ e.expiresAt ≤ w.clock) ∧
    (∀ e ∈ w.stored, ∀ i ∈ w.processed, e.seq ≤ i.seq.toNat →
      (∃ i ∈ w.processed, i.deliveryId = e.deliveryId) ∨ e.expiresAt ≤ w.clock) ∧
    (∀ e ∈ w.queue.queued, e.mailboxId = mailbox → (e.seq : Int) ≤ (cursor w.profile.store mailbox).toInt →
      (∃ i ∈ w.processed, i.deliveryId = e.deliveryId) ∨ e.expiresAt ≤ w.clock) ∧
    ∀ a b, evs = a ++ b →
      cursor (after sha256 pf s mailbox (start profile) a).profile.store mailbox ≤ cursor w.profile.store mailbox := by
  intro w
  have h : Inv pf s mailbox w := inv_after pf s (inv_start profile) evs
  refine ⟨h.once, h.genuine, h.recorded, h.kept, h.inOrder, fun e he hm hle => ?_, ?_⟩
  · obtain ⟨n, hn, hcur, hcome⟩ := h.cursor
    rw [hcur, toInt_toInt64 hn] at hle
    exact hcome.passed e he hm (Int.ofNat_le.1 hle)
  · rintro a b rfl
    have hsplit : w = after sha256 pf s mailbox (after sha256 pf s mailbox (start profile) a) b := Trace.run_append _ _ _ _
    rw [hsplit]
    exact cursor_after pf s (inv_after pf s (inv_start profile) a) b

/-- An envelope that does not open holds back all that come after it, sync after sync, until
it expires. -/
theorem unopened_holds_back (sha256 : Bytes → Bytes) (pf : Platform) (s : Session) (mailbox : Bytes)
    (profile : Arveil.World) (evs : List Event) (e : QueuedEnvelope)
    (he : e ∈ (after sha256 pf s mailbox (start profile) evs).stored)
    (hlive : (after sha256 pf s mailbox (start profile) evs).clock < e.expiresAt)
    (hbad : ∀ x ∈ (after sha256 pf s mailbox (start profile) evs).stored, x.deliveryId = e.deliveryId →
      (Receive.openedMessage pf s mailbox (envelopeItem x)).toOption = none) :
    e ∈ (after sha256 pf s mailbox (start profile) evs).queue.queued ∧
      (∀ i ∈ (after sha256 pf s mailbox (start profile) evs).processed, i.seq.toNat < e.seq) ∧
      (cursor (after sha256 pf s mailbox (start profile) evs).profile.store mailbox).toInt < e.seq := by
  have h : Inv pf s mailbox (after sha256 pf s mailbox (start profile) evs) := inv_after pf s (inv_start profile) evs
  have hnot : ¬ Settled (after sha256 pf s mailbox (start profile) evs) e := by
    rintro (⟨i, hi, hd⟩ | hx)
    · obtain ⟨x, hx, rfl⟩ := h.genuine i hi
      obtain ⟨msg, hmsg⟩ := h.opened _ hi
      have hnone := hbad x hx hd
      rw [hmsg] at hnone
      cases hnone
    · omega
  have hqueued := (h.kept e he).resolve_right hnot
  refine ⟨hqueued, fun i hi => ?_, ?_⟩
  · by_contra hle
    exact hnot (h.inOrder e he i hi (Nat.not_lt.1 hle))
  · obtain ⟨n, hn, hcur, hcome⟩ := h.cursor
    rw [hcur, toInt_toInt64 hn]
    by_contra hle
    exact hnot (hcome.passed e hqueued (h.ours e he) (by omega))

def demoWelcome : MlsMessage := ⟨.welcome, none, Demo.welcome.write ([5], ⟨[7], 1, 1, []⟩)⟩

/-- A Welcome, an envelope that opens for nobody and another Welcome; the mailbox is read twice. -/
def demoEvents : List Event :=
  [.relay (.create [8]), .relay (.put [8] [1] [] (Demo.envelopeFor 9 [8] [1] demoWelcome) 0 0), .relay (.put [8] [2] [] [0] 0 0),
    .relay (.put [8] [3] [] (Demo.envelopeFor 9 [8] [3] demoWelcome) 0 0), .fetch, .page 1, .receive 1, .receive 1, .receive 1,
    .acknowledge, .served, .mark, .close, .fetch, .page 2, .receive 2, .receive 2, .acknowledge, .close]

def demoAfter : World := after id Demo.platform (Demo.sessionOf 9) [8] (start Demo.profile) demoEvents

theorem unopened_demo :
    (⟨[8], 2, [2], [0], [], [0], 2592000⟩ : QueuedEnvelope) ∈ demoAfter.queue.queued ∧
      (∀ i ∈ demoAfter.processed, i.seq.toNat < 2) ∧ demoAfter.processed.map (·.deliveryId) = [[1]] := by
  have hstored : (⟨[8], 2, [2], [0], [], [0], 2592000⟩ : QueuedEnvelope) ∈ demoAfter.stored ∧ demoAfter.clock < 2592000 ∧
      (∀ x ∈ demoAfter.stored, x.deliveryId = [2] →
        (Receive.openedMessage Demo.platform (Demo.sessionOf 9) [8] (envelopeItem x)).toOption = none) ∧
      demoAfter.processed.map (·.deliveryId) = [[1]] := by
    decide +kernel
  have hblock := unopened_holds_back id Demo.platform (Demo.sessionOf 9) [8] Demo.profile demoEvents
    ⟨[8], 2, [2], [0], [], [0], 2592000⟩ hstored.1 hstored.2.1 hstored.2.2.1
  exact ⟨hblock.1, hblock.2.1, hstored.2.2.2⟩

theorem receiveItems_ok {now : Int} {advanced : UInt64} {item : EnvelopeItem} {rest : List EnvelopeItem} {st st' : Store}
    {o : Option Receive.StateChange} (h : Sync.receiveUnit pf s now mailbox item st = (.ok o, st')) :
    Sync.receiveItems pf s now mailbox advanced (item :: rest) st = Sync.receiveItems pf s now mailbox item.seq rest st' := by
  simp only [Sync.receiveItems, Prog.bind_run, Prog.attempt, h]

theorem receiveItems_error {now : Int} {advanced : UInt64} {item : EnvelopeItem} {rest : List EnvelopeItem} {st st' : Store}
    {e : CliError} (h : Sync.receiveUnit pf s now mailbox item st = (.error e, st')) :
    Sync.receiveItems pf s now mailbox advanced (item :: rest) st = (.ok advanced, st') := by
  simp only [Sync.receiveItems, Prog.bind_run, Prog.attempt, h]
  rfl

/-- The receive units of a page are what `receive_items` does with it. -/
theorem receiveItems_run (sha256 : Bytes → Bytes) (pf : Platform) (s : Session) (now : Int) (items : List EnvelopeItem) :
    ∀ (advanced : UInt64) (w : World), w.phase = .receiving advanced items →
      ∃ next, (Sync.receiveItems pf s now mailbox advanced items w.profile.store).1 = .ok next ∧
        (after sha256 pf s mailbox w (List.replicate (items.length + 1) (.receive now))).phase = .received next ∧
        (after sha256 pf s mailbox w (List.replicate (items.length + 1) (.receive now))).profile.store =
          (Sync.receiveItems pf s now mailbox advanced items w.profile.store).2 := by
  have hstill (n : Nat) (next : UInt64) (w : World) (hph : w.phase = .received next) :
      after sha256 pf s mailbox w (List.replicate n (.receive now)) = w := by
    induction n with
    | zero => rfl
    | succ n ih =>
      have hstep : step sha256 pf s mailbox w (.receive now) = w := by simp only [step, hph]
      rw [List.replicate_succ]
      show after sha256 pf s mailbox (step sha256 pf s mailbox w (.receive now)) _ = w
      rw [hstep]
      exact ih
  induction items with
  | nil =>
    intro advanced w hph
    have hstep : after sha256 pf s mailbox w (List.replicate 1 (.receive now)) = { w with phase := .received advanced } := by
      show step sha256 pf s mailbox w (.receive now) = _
      simp only [step, hph]
    rw [List.length_nil, Nat.zero_add, hstep]
    exact ⟨advanced, rfl, rfl, rfl⟩
  | cons item rest ih =>
    intro advanced w hph
    have hstep : after sha256 pf s mailbox w (List.replicate ((item :: rest).length + 1) (.receive now)) =
        after sha256 pf s mailbox (received pf s mailbox now advanced item rest w) (List.replicate (rest.length + 1) (.receive now)) := by
      show after sha256 pf s mailbox (step sha256 pf s mailbox w (.receive now)) (List.replicate (rest.length + 1) _) = _
      simp only [step, hph]
    rw [hstep]
    rcases hr : Sync.receiveUnit pf s now mailbox item w.profile.store with ⟨e | o, st⟩
    · rw [receiveItems_error hr]
      refine ⟨advanced, rfl, ?_, ?_⟩
      all_goals
        simp only [received, hr]
        rw [hstill _ advanced _ rfl]
    · rw [receiveItems_ok hr]
      cases o with
      | none =>
        simp only [received, hr]
        exact ih item.seq { w with profile := { w.profile with store := st }, phase := .receiving item.seq rest } rfl
      | some ch =>
        simp only [received, hr]
        exact ih item.seq { w with
          profile := { w.profile with store := st }, phase := .receiving item.seq rest, processed := w.processed ++ [item] } rfl

/-- An acknowledgement the relay answers is what the client's own does to the profile. -/
theorem acknowledge_run (sha256 : Bytes → Bytes) (pf : Platform) (s : Session) {relay : Relay} {m : MailboxOwn} {w : World}
    {next : UInt64} (hm : m.mailboxId = mailbox) (hph : w.phase = .received next)
    (hrelay : ∀ ids, relay.answer w.profile.sent (.envelopeAck m.mailboxId m.readCapability ids) = .ok .ack) :
    (after sha256 pf s mailbox w [.acknowledge, .served, .mark]).profile.store = (Sync.acknowledge relay m w.profile).2.store ∧
      (after sha256 pf s mailbox w [.acknowledge, .served, .mark]).phase = .closing next := by
  subst hm
  have hack : Sync.acknowledge relay m w.profile =
      if (unacked w.profile.store m.mailboxId).isEmpty then (.ok (), w.profile)
      else (.ok (), ⟨markAcked m.mailboxId (unacked w.profile.store m.mailboxId) w.profile.store,
        w.profile.sent ++ [.envelopeAck m.mailboxId m.readCapability (unacked w.profile.store m.mailboxId)]⟩) := by
    unfold Sync.acknowledge
    rw [Prog.bind_ok (Prog.read_run ..)]
    split
    · rfl
    · have hreq : Net.request relay (.envelopeAck m.mailboxId m.readCapability (unacked w.profile.store m.mailboxId)) w.profile =
          (.ok .ack, { w.profile with
            sent := w.profile.sent ++ [.envelopeAck m.mailboxId m.readCapability (unacked w.profile.store m.mailboxId)] }) := by
        rw [Net.request, hrelay]
      rw [Prog.bind_ok hreq]
      rfl
  rw [hack]
  simp only [after, Trace.run_cons, Trace.run_nil, step, hph]
  cases hids : (unacked w.profile.store m.mailboxId).isEmpty with
  | true => exact ⟨rfl, rfl⟩
  | false => exact ⟨rfl, rfl⟩

end Custody
end Arveil

import Arveil.Proofs.Watch.Delivery

/-! No notice is lost, whatever the order in which subscriptions, puts and deliveries
interleave, and each follows a check made after its wake-up. A watch session that is replaced
or revoked is closed, unless it enters the hub after the revocation looked there, or its
device is active again by the time the revocation looks at it. -/

namespace Arveil.Watch

variable {sha256 : Bytes → Bytes}

theorem inv_start : Inv start where
  subs j s hs := nomatch hs
  hub k j hk := nomatch hk
  fresh j _ e he := nomatch he
  owners m d o hm := nomatch hm
  notices j before e after hlog := by
    exact absurd hlog (List.append_ne_nil_of_right_ne_nil _ (List.cons_ne_nil e after)).symm
  shaped w hw := absurd hw (Table.not_mem_empty w)

theorem older_stage {conn : Conn} {stage : Stage} (hlive : conn.stage.live = false → stage.live = false) :
    Older conn { conn with stage := stage } := ⟨rfl, id, id, hlive⟩

theorem inv_delivering {w : World} (h : Inv w) (j : Nat) : Inv (w.setSub j fun s => { s with delivering := true }) := by
  cases hs : w.subs[j]? with
  | none =>
    have hsame : w.setSub j (fun s => { s with delivering := true }) = w := by
      rw [World.setSub, List.modify_eq_self (List.getElem?_eq_none_iff.1 hs)]
    rw [hsame]
    exact h
  | some s =>
    have ok := h.subs j s hs
    have htouch := inv_touch (l := []) (f := fun s => { s with delivering := true }) h hs ⟨rfl, rfl, rfl, rfl, rfl⟩
      (fun _ he => absurd he List.not_mem_nil)
      (by rw [List.append_nil]; exact h.notices j) (fun hp hw conn hconn => ?_) (fun hd => by rw [List.append_nil]; exact ok.told hd)
      (fun hp => by rw [List.append_nil]; exact ok.taken hp) (fun hp => by rw [List.append_nil]; exact ok.checked hp)
    · rwa [List.append_nil] at htouch
    · obtain ⟨conn', hconn', -, hended⟩ := ok.attended
      obtain rfl := Option.some.inj (hconn.symm.trans hconn')
      exact hended hp hw

theorem inv_enterHub {w : World} (c : Nat) (h : Inv w) (hc : InTime w (.enterHub c)) : Inv (enterHub c w) := by
  unfold enterHub
  split
  · next session sub closed failed hconn =>
    split
    · exact h
    · next d hd =>
      have hentered := inv_hubSubscribe (s := ⟨c, d.identityId, d.deviceId,
        if session.watcher.isSome then some session.remoteStatic else none, false, false, false, .starting⟩) h rfl rfl
        ⟨_, hconn, by cases session.watcher <;> rfl⟩ ?_
      · refine inv_setConn hentered c fun conn hconn' => older_stage fun hl => ?_
        have hsame : w.conns[c]? = some conn := by
          rw [← hconn']
          unfold hubSubscribe
          dsimp only [World.note]
          split <;> rfl
        obtain rfl := Option.some.inj (hconn.symm.trans hsame)
        nomatch hl
      · cases hw : session.watcher with
        | none => exact Or.inl fun key hk => by simp at hk
        | some d' =>
          have hd' : d' = d := by
            rw [watchDevice, hw] at hd
            exact Option.some.inj hd
          subst hd'
          rcases hc _ hconn rfl d' hw with hreg | hsought
          · refine Or.inl fun key hk => ?_
            obtain rfl : session.remoteStatic = key := by simpa using hk
            exact hreg
          · exact Or.inr hsought
  · exact h

theorem inv_step (w : World) (e : Event) (hc : InTime w e) (h : Inv w) : Inv (step sha256 w e) := by
  cases e with
  | call c => exact inv_call c h
  | pending k now =>
    dsimp only [step]
    split
    · exact h
    · next p hp => exact inv_runPending h hp hc
  | connect s =>
    refine inv_conns h fun c conn hconn => ⟨conn, ?_, Older.refl conn⟩
    rw [List.getElem?_append_left (List.getElem?_eq_some_iff.1 hconn).1]
    exact hconn
  | authorize c d =>
    refine inv_setConn h c fun conn _ => ?_
    split
    · exact ⟨rfl, id, id, id⟩
    · exact Older.refl conn
  | watchFrame c now =>
    dsimp only [step, watchFrame]
    split
    · exact h
    · next conn hconn =>
      split
      · exact h
      · next hbusy =>
        split
        · refine inv_setConn h c fun conn' hconn' => older_stage fun hl => ?_
          obtain rfl := Option.some.inj (hconn.symm.trans hconn')
          rw [not_or, not_not] at hbusy
          rw [hbusy.1] at hl
          nomatch hl
        · exact h
  | enterHub c => exact inv_enterHub c h hc
  | adopt c =>
    dsimp only [step, adopt]
    split
    · next session old next closed failed hconn =>
      have holder : ∀ {w' : World}, Inv w' → w'.conns = w.conns →
          Inv (w'.setConn c fun conn => { conn with sub := some next, stage := .acking }) := by
        intro w' hw' hconns
        refine inv_setConn hw' c fun conn hconn' => ⟨rfl, id, id, fun hl => ?_⟩
        rw [hconns] at hconn'
        obtain rfl := Option.some.inj (hconn.symm.trans hconn')
        nomatch hl
      split
      · next j => exact holder (inv_unsubscribe h j) (unsubscribe_fields j w).2.2.1
      · exact holder h rfl
    · exact h
  | acknowledge c ok =>
    dsimp only [step, acknowledge]
    split
    · next session j closed failed hconn =>
      split
      · refine inv_setConn (inv_delivering h j) c fun conn hconn' => older_stage fun hl => ?_
        obtain rfl := Option.some.inj (hconn.symm.trans hconn')
        nomatch hl
      · exact inv_setConn h c fun conn _ => older_stage fun _ => rfl
    · exact h
  | hangUp c =>
    dsimp only [step, hangUp]
    split
    · exact inv_setConn h c fun conn _ => older_stage fun _ => rfl
    · exact h
  | leave c =>
    dsimp only [step, leave]
    split
    · next session sub closed failed hconn =>
      split
      · next j => exact inv_setConn (inv_unsubscribe h j) c fun conn _ => older_stage fun _ => rfl
      · exact inv_setConn h c fun conn _ => older_stage fun _ => rfl
    · exact h
  | deliver j d =>
    dsimp only [step]
    split
    · exact h
    · next s hs =>
      split
      · exact h
      · next conn hconn => exact inv_deliver h hs hconn d

def Blocked (s : Subscription) : Prop := s.phase = .waiting ∧ s.wake = false ∧ s.done = false

/-- Nothing is left to do that wakes the device. -/
def NoWakeFor (w : World) (s : Subscription) : Prop :=
  ∀ mailboxId, .wakeMailbox mailboxId ∈ w.pending → Wakeups.mailboxOwner mailboxId w.db ≠ some (s.identity, s.device)

/-- What the watch owes a device, its host and the log. -/
structure Watched (w : World) : Prop where
  /-- puts since the subscription entered the hub are followed by a notice -/
  told : ∀ (j : Nat) (s : Subscription), w.subs[j]? = some s → w.hub s.key = some j → Blocked s → NoWakeFor w s →
    ∀ before mailboxId deliveryId after,
      w.log = before ++ Entry.put mailboxId deliveryId (some (s.identity, s.device)) :: after → .entered j ∈ before →
        .notice j ∈ after
  /-- and so are those before it whose envelopes its first check found -/
  caught : ∀ (j : Nat) (s : Subscription), w.subs[j]? = some s → w.hub s.key = some j → Blocked s → NoWakeFor w s →
    ∀ before mail after, w.log = before ++ Entry.checked j mail :: after → ∀ envelope ∈ mail, .notice j ∈ after
  one : ∀ k k' j j' (s s' : Subscription), w.hub k = some j → w.hub k' = some j' → w.subs[j]? = some s → w.subs[j']? = some s' →
    s.identity = s'.identity → s.device = s'.device → j = j'
  /-- a subscription that is no longer its device's is cancelled -/
  replaced : ∀ (j : Nat) (s : Subscription), w.subs[j]? = some s → w.hub s.key ≠ some j → s.done = true
  /-- the delivery of a cancelled one closes the connection of a watch session -/
  cancelled : ∀ (j : Nat) (s : Subscription) (conn : Conn), w.subs[j]? = some s → w.conns[s.conn]? = some conn →
    s.done = true → s.phase = .waiting → s.watchKey.isSome = true →
      ∃ conn', (deliver j s conn w .subDone).conns[s.conn]? = some conn' ∧
        (conn'.closed = true ∨ conn'.failed = true ∨ conn'.stage.live = false)
  /-- the delivery of a watch session ends with its connection -/
  closed : ∀ (j : Nat) (s : Subscription), w.subs[j]? = some s → s.phase = .ended → s.watchKey.isSome = true →
    ∃ conn, w.conns[s.conn]? = some conn ∧ (conn.closed = true ∨ conn.failed = true ∨ conn.stage.live = false)
  /-- one that is not cancelled has a good key, or a step is still to come that will find it -/
  revoked : ∀ (j : Nat) (s : Subscription), w.subs[j]? = some s → s.done = false → ∀ key ∈ s.watchKey,
    Registered s.identity s.device key w.db ∨ w.pending.any (·.finds j s) = true
  /-- a notice follows a check that was made after the wake-up was taken -/
  checked : ∀ before j after, w.log = before ++ Entry.notice j :: after →
    ∃ a b c, before = a ++ Entry.taken j :: b ++ Entry.entitled j :: c ∧ ∀ e ∈ b ++ c, e ≠ .taken j ∧ e ≠ .notice j

theorem told_of_blocked {w : World} {j : Nat} {s : Subscription} (h : SubOk w j s) (hb : Blocked s) (hn : NoWakeFor w s) :
    Told j s w.log := by
  obtain ⟨hphase, hwake, hdone⟩ := hb
  rcases h.told hdone with (hw | hp | ⟨m, hm, howner⟩) | ht
  · rw [hwake] at hw
    nomatch hw
  · rw [hphase] at hp
    exact (hp.elim nofun fun h => h.elim nofun nofun)
  · exact absurd howner (hn m hm)
  · exact ht

theorem watched_of_inv {w : World} (h : Inv w) : Watched w where
  told j s hs _ hb hn before m d after hlog hentered := by
    obtain ⟨e, he, rfl⟩ := (told_of_blocked (h.subs j s hs) hb hn).1 before _ after hlog ⟨hentered, m, d, rfl⟩
    exact he
  caught j s hs _ hb hn before mail after hlog envelope hmem := by
    obtain ⟨e, he, rfl⟩ := (told_of_blocked (h.subs j s hs) hb hn).2 before _ after hlog ⟨mail, rfl, List.ne_nil_of_mem hmem⟩
    exact he
  one k k' j j' s s' hk hk' hs hs' hid hdev := by
    obtain ⟨t, ht, hkey, -⟩ := h.hub k j hk
    obtain ⟨t', ht', hkey', -⟩ := h.hub k' j' hk'
    obtain rfl := Option.some.inj (hs.symm.trans ht)
    obtain rfl := Option.some.inj (hs'.symm.trans ht')
    have hsame : k = k' := by rw [← hkey, ← hkey', Subscription.key, Subscription.key, hid, hdev]
    rw [← hsame, hk] at hk'
    exact Option.some.inj hk'
  replaced j s hs hk := by
    cases hd : s.done with
    | true => rfl
    | false => exact absurd ((h.subs j s hs).current hd) hk
  cancelled j s conn hs hconn hd hp hw := by
    obtain ⟨conn', hconn', hkey, -⟩ := (h.subs j s hs).attended
    obtain rfl := Option.some.inj (hconn.symm.trans hconn')
    have hdeliver : deliver j s conn w .subDone = closeIf s.conn (w.setSub j (·.to .ended)) := if_pos ⟨hp, hd⟩
    rw [hdeliver]
    exact ⟨_, setConn_same _ hconn, closeIf_over (w := w) hconn (setConn_same _ hconn) (hkey ▸ hw)⟩
  closed j s hs hp hw := by
    obtain ⟨conn, hconn, -, hended⟩ := (h.subs j s hs).attended
    exact ⟨conn, hconn, hended hp hw⟩
  revoked j s hs hd key hkey := by
    rcases (h.subs j s hs).sought hd with hg | hs
    · exact Or.inl (hg key hkey)
    · exact Or.inr hs
  checked before j after hlog := by
    obtain ⟨before', c, rfl, ⟨a, b, rfl, -, hb⟩, hc⟩ := h.notices j before _ after hlog rfl
    exact ⟨a, b, c, rfl, fun e he => (List.mem_append.1 he).elim (hb e) (hc e)⟩

/-- In every run whose revocations come in time the watch is as it should be. -/
theorem watch_holds (sha256 : Bytes → Bytes) {evs : List Event} (h : Trace.Meets (step sha256) InTime start evs) :
    Watched (Trace.run (step sha256) start evs) :=
  watched_of_inv (Trace.invariant (I := Inv) inv_step h inv_start)

open Demo

def watchKey : Bytes := List.replicate 32 7

def watched : RelayStore.Device := (enrollmentOf 1).row.device

def watching : List Event :=
  (joins 1).map .call ++
    ([.call (.createMailbox (memberId 1) (deviceId 1) [9] [8] [7] 5), .call (.setWatchKey (memberId 1) (deviceId 1) watchKey),
     .pending 0 5, .connect ⟨watchKey, none, some watched⟩, .watchFrame 0 5] : List Event)

def subscribes : List Event := [.enterHub 0, .adopt 0, .acknowledge 0 true, .deliver 0 (.check 6)]

/-- An envelope comes and is told of; then the device is revoked. -/
def toldAndRevoked : List Event :=
  watching ++ subscribes ++
    ([.call (.putEnvelope [9] [1] [] [1] 0 7), .pending 0 7, .deliver 0 .take, .deliver 0 (.entitle 7), .deliver 0 (.write true),
     .call (.publishManifest (memberId 1) 2 [6] [[1, 2]]), .pending 0 8, .pending 0 8, .deliver 0 .subDone] : List Event)

theorem watch_holds_told :
    ((Trace.run (step fingerprint) start toldAndRevoked).log =
        [.entered 0, .checked 0 [], .put [9] [1] (some (memberId 1, deviceId 1)), .taken 0, .entitled 0, .notice 0] ∧
      (Trace.run (step fingerprint) start toldAndRevoked).conns.map (·.closed) = [true]) ∧
      Watched (Trace.run (step fingerprint) start toldAndRevoked) :=
  ⟨by decide +kernel, watch_holds fingerprint (by decide +kernel)⟩

/-- The device is revoked, and the hub searched, after the check and before the session enters it. -/
def enteredLate : List Event :=
  watching ++ ([.call (.publishManifest (memberId 1) 2 [6] [[1, 2]]), .pending 0 8] : List Event) ++ subscribes

/-- A revoked watch session stays open, its delivery waiting. -/
theorem late_session_stays :
    (Trace.run (step fingerprint) start enteredLate).subs.map (fun s => (s.phase, s.wake, s.done)) = [(.waiting, false, false)] ∧
      (Trace.run (step fingerprint) start enteredLate).conns.map (fun c => (c.closed, c.stage)) = [(false, .reading)] ∧
      ¬ ∀ evs, Watched (Trace.run (step fingerprint) start evs) := by
  refine ⟨by decide +kernel, by decide +kernel, fun h => ?_⟩
  have hrevoked := (h enteredLate).revoked 0 ⟨0, memberId 1, deviceId 1, some watchKey, false, false, true, .waiting⟩
    (by decide +kernel) rfl watchKey rfl
  exact absurd hrevoked (by decide +kernel)

end Arveil.Watch

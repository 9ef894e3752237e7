import Arveil.Proofs.Footprint
import Arveil.Proofs.Relay
import Arveil.Lib.Trace
import Arveil.Sanity.Store
import Arveil.Spec.Wakeups

/-! Does every envelope that ends the emptiness of a mailbox wake its owner? A fetch does not
see an envelope that has expired, but the count a put makes does until it is swept. So a put
into a mailbox of expired envelopes wakes nobody, and every other put does. -/

namespace Arveil.Wakeups

open RelayStore Prog

variable {sha256 : Bytes → Bytes}

/-- No envelope has number zero, so a fetch from cursor zero sees it. -/
structure Numbered (q : RelayQueue.Queue) : Prop where
  counters : ∀ m ∈ q.mailboxes, 0 < m.nextSeq
  envelopes : ∀ e ∈ q.queued, 0 < e.seq

theorem Numbered.delete {q : RelayQueue.Queue} (h : Numbered q) (p : RelayQueue.QueuedEnvelope → Bool) :
    Numbered { q with queued := q.queued.delete p } :=
  ⟨h.counters, fun e he => h.envelopes e (Table.mem_delete.1 he).1⟩

theorem Numbered.stores {q q' : RelayQueue.Queue} {mailboxId deliveryId : Bytes} {e : RelayQueue.QueuedEnvelope}
    (h : Numbered q) (hs : RelayQueue.Stores mailboxId deliveryId q q' e) : Numbered q' := by
  obtain ⟨m, hm, hseq, -⟩ := hs.number
  have hpos : 0 < e.seq := hseq ▸ h.counters m (Table.get?_eq_some.1 hm).1
  refine ⟨fun m' hm' => ?_, fun e' he' => ?_⟩
  · rw [hs.mailboxes, RelayQueue.numberTaken, Table.mem_update] at hm'
    obtain ⟨m₀, hm₀, rfl⟩ := hm'
    split
    · exact Nat.succ_pos _
    · exact h.counters m₀ hm₀
  · rcases (Table.mem_insert hs.queued).1 he' with he' | rfl
    · exact h.envelopes e' he'
    · exact hpos

theorem numbered_put {q : RelayQueue.Queue} (h : Numbered q) (mailboxId deliveryId hpkeEnc ciphertext : Bytes) (expiry now : Int) :
    Numbered (RelayQueue.putEnvelope sha256 mailboxId deliveryId hpkeEnc ciphertext expiry now q).2 := by
  rcases RelayQueue.putEnvelope_cases sha256 mailboxId deliveryId hpkeEnc ciphertext expiry now q with
    ⟨_, he⟩ | ⟨_, _, -, -, hr⟩ | ⟨_, _, _, hs, -, -, hr⟩
  · rw [he]
    exact h
  · rw [hr]
    exact h
  · rw [hr]
    exact h.stores hs

/-- What a call leaves of the numbering. -/
def KeepsNumbers (db db' : Db) : Prop := Numbered db.queue → Numbered db'.queue

theorem keepsNumbers_outside {α : Type} {ps : List Part} (hq : Part.queue ∉ ps) {p : Txn α} (h : Fixes (outside ps) p) :
    Keeps KeepsNumbers p := by
  intro db hn
  have hqueue : (p db).2.queue = db.queue := part_of_outside (h db) hq
  rw [hqueue]
  exact hn

theorem keepsNumbers_addMailbox (e : StoreError) (row : OwnerRow) : Keeps KeepsNumbers (insertRow e addMailbox row) := by
  refine keeps_tryModify (fun _ h => h) fun db db' hg => ?_
  cases hr : addMailbox row db with
  | none => simp [hr] at hg
  | some db₁ =>
    obtain rfl : db₁ = db' := by simpa [hr] using hg
    unfold addMailbox at hr
    split at hr
    · cases hr
    · obtain ⟨owners, -, hr⟩ := Option.bind_eq_some_iff.1 hr
      obtain ⟨mailboxes, hm, rfl⟩ := Option.map_eq_some_iff.1 hr
      refine fun hn => ⟨fun m hmem => ?_, hn.envelopes⟩
      rcases (Table.mem_insert hm).1 hmem with hmem | rfl
      · exact hn.counters m hmem
      · exact Nat.one_pos

theorem keepsNumbers_call (c : RelayServer.Call) : Keeps KeepsNumbers (c.prog sha256) := by
  have hrefl : ∀ db, KeepsNumbers db db := fun _ h => h
  have htrans : ∀ a b c, KeepsNumbers a b → KeepsNumbers b c → KeepsNumbers a c := fun _ _ _ h h' hn => h' (h hn)
  have hcap : ∀ e row, Keeps KeepsNumbers (insertRow e addCapability row) := fun e row =>
    keepsNumbers_outside (by decide) (fixes_insertInto insertsInto_capability (List.mem_singleton_self _))
  cases c with
  | createMailbox identityId deviceId id readCap writeCap now =>
    refine keeps_unitOfWork hrefl (keeps_bind htrans (keepsNumbers_addMailbox _ _) fun _ => ?_)
    exact keeps_bind htrans (hcap _ _) fun _ => keeps_bind htrans (hcap _ _) fun _ => keeps_pure hrefl _
  | createMailboxForRequest identityId deviceId requestKey readCap writeCap id now =>
    refine keeps_unitOfWork hrefl (keeps_bind htrans (keeps_read hrefl _) fun r => ?_)
    cases r with
    | some r =>
      dsimp only
      split
      · exact keeps_fail hrefl _
      · exact keeps_pure hrefl _
    | none =>
      refine keeps_bind htrans (keepsNumbers_addMailbox _ _) fun _ => keeps_bind htrans (hcap _ _) fun _ =>
        keeps_bind htrans (hcap _ _) fun _ => keeps_bind htrans ?_ fun _ => keeps_pure hrefl _
      exact keepsNumbers_outside (by decide) (fixes_insertInto insertsInto_mailboxRequest (List.mem_singleton_self _))
  | putEnvelope mailboxId deliveryId hpkeEnc ciphertext requestedExpiry now =>
    intro db hn
    show Numbered (Prog.mapError queueError _ db.queue).2
    rw [mapError_snd]
    exact numbered_put hn _ _ _ _ _ _
  | ackEnvelopes mailboxId deliveryIds => exact fun db hn => hn.delete _
  | expireEnvelopes now => exact fun db hn => hn.delete _
  | _ => exact keepsNumbers_outside (by simp [writes]) (fixes_outside _)

def withQueue (w : World) (q : RelayQueue.Queue) : World := { w with db := { w.db with queue := q } }

def Put.onQueue (sha256 : Bytes → Bytes) (p : Put) : Prog RelayQueue.Queue RelayQueue.StoreError RelayQueue.PutResult :=
  RelayQueue.putEnvelope sha256 p.mailboxId p.deliveryId p.hpkeEnc p.ciphertext p.requestedExpiry.toInt64.toInt p.now

/-- A put is refused, or the queue takes it and its report decides on the wake-up. -/
theorem envelopePut_cases (member : Bool) (p : Put) (w : World) :
    envelopePut sha256 member p w = (none, w) ∨
      ∃ r q, p.onQueue sha256 w.db.queue = (.ok r, q) ∧
        envelopePut sha256 member p w = (some r,
          if r.wasEmpty = true ∧ r.duplicate = false then wakeMailbox p.mailboxId (notifyMailbox p.mailboxId (withQueue w q))
          else withQueue w q) := by
  unfold envelopePut
  split
  · exact Or.inl rfl
  · cases (checkCapability sha256 p.mailboxId p.writeCapability .write p.now w.db).1 with
    | error e => exact Or.inl rfl
    | ok u =>
      dsimp only [putEnvelope, onQueue, zoom, mapError]
      rcases hput : p.onQueue sha256 w.db.queue with ⟨r, q⟩
      have hrun := hput
      unfold Put.onQueue at hrun
      rw [hrun]
      cases r with
      | ok r => exact Or.inr ⟨r, q, rfl, rfl⟩
      | error e =>
        -- a put the queue refuses leaves it as it was
        refine Or.inl ?_
        rcases RelayQueue.putEnvelope_cases sha256 p.mailboxId p.deliveryId p.hpkeEnc p.ciphertext p.requestedExpiry.toInt64.toInt
          p.now w.db.queue with ⟨_, he⟩ | ⟨_, _, -, -, hr⟩ | ⟨_, _, _, -, -, -, hr⟩
        · obtain ⟨-, rfl⟩ := Prod.mk.inj (hrun.symm.trans he)
          rfl
        · exact absurd (Prod.mk.inj (hrun.symm.trans hr)).1 (by simp)
        · exact absurd (Prod.mk.inj (hrun.symm.trans hr)).1 (by simp)

theorem notifyMailbox_db (mailboxId : Bytes) (w : World) : (notifyMailbox mailboxId w).db = w.db := by
  dsimp only [notifyMailbox]
  split <;> rfl

theorem wakeMailbox_db (mailboxId : Bytes) (w : World) : (wakeMailbox mailboxId w).db = w.db := by
  unfold wakeMailbox
  split <;> rfl

theorem numbered_step {w : World} (h : Numbered w.db.queue) (e : Event) : Numbered (step sha256 w e).db.queue := by
  cases e with
  | put member p =>
    dsimp only [step]
    rcases @envelopePut_cases sha256 member p w with hnone | ⟨r, q, hput, hsome⟩
    · rw [hnone]
      exact h
    · have hq : Numbered q := by
        have hnum := @numbered_put sha256 _ h p.mailboxId p.deliveryId p.hpkeEnc p.ciphertext
          p.requestedExpiry.toInt64.toInt p.now
        unfold Put.onQueue at hput
        rw [hput] at hnum
        exact hnum
      rw [hsome]
      dsimp only
      split
      · rw [wakeMailbox_db, notifyMailbox_db]
        exact hq
      · exact hq
  | call c => exact keepsNumbers_call c w.db h
  | subscribe identity device now => exact h
  | deliver identity device => exact h
  | unsubscribe identity device => exact h

theorem put_wasEmpty {p : Put} {q q' : RelayQueue.Queue} {r : RelayQueue.PutResult} (h : p.onQueue sha256 q = (.ok r, q'))
    (hnew : r.duplicate = false) : r.wasEmpty = true ↔ ∀ e ∈ q.queued, e.mailboxId ≠ p.mailboxId := by
  unfold Put.onQueue RelayQueue.putEnvelope at h
  split at h
  · cases (Prod.mk.inj h).1
  · cases hg : q.queued.get? (p.mailboxId, p.deliveryId) with
    | some e =>
      simp only [hg] at h
      split at h
      · cases (Prod.mk.inj h).1
      · obtain rfl := Except.ok.inj (Prod.mk.inj h).1
        cases hnew
    | none =>
      simp only [hg] at h
      split at h
      · cases (Prod.mk.inj h).1
      · split at h
        · cases (Prod.mk.inj h).1
        · split at h
          · cases (Prod.mk.inj h).1
          · split at h
            · cases (Prod.mk.inj h).1
            · obtain rfl := Except.ok.inj (Prod.mk.inj h).1
              simp [Table.mem_def]

/-- A fetch from the start returns nothing exactly when every envelope has expired. -/
theorem fetch_eq_nil {q : RelayQueue.Queue} (h : Numbered q) (mailboxId : Bytes) (limit : Nat) (now : Int) :
    RelayQueue.fetchEnvelopes mailboxId 0 limit now q = [] ↔ ∀ e ∈ q.queued, e.mailboxId = mailboxId → e.expiresAt ≤ now := by
  have hlimit : (if limit = 0 ∨ 100 < limit then 100 else limit) ≠ 0 := by
    split
    · decide
    · next hno => exact fun h0 => hno (Or.inl h0)
  rw [RelayQueue.fetchEnvelopes, List.take_eq_nil_iff]
  simp only [hlimit, false_or, List.eq_nil_iff_forall_not_mem, List.mem_insertionSort, List.mem_filter, not_and,
    Bool.and_eq_true, decide_eq_true_eq, not_lt, and_imp]
  constructor
  · intro hall e he hid
    exact hall e he hid (h.envelopes e he)
  · intro hall e he hid _
    exact hall e he hid

def Arrives (sha256 : Bytes → Bytes) (w : World) (e : Event) (p : Put) (r : RelayQueue.PutResult) : Prop :=
  ∃ member, e = .put member p ∧ (envelopePut sha256 member p w).1 = some r ∧ r.duplicate = false ∧ p.now < r.effectiveExpiry

/-- The put reports the end of emptiness, and hint and notice go to the owner. -/
structure Wakes (w w' : World) (p : Put) (r : RelayQueue.PutResult) : Prop where
  reported : r.wasEmpty = true
  hinted : notifyHintForMailbox p.mailboxId w.db ≠ "" → w'.hinted = notifyHintForMailbox p.mailboxId w.db :: w.hinted
  woken : ∀ s ∈ w'.hub, mailboxOwner p.mailboxId w.db = some (s.identity, s.device) → s.woken = true

/-- An envelope that arrives where a fetch would have returned nothing wakes the owner. -/
def WakesIfEmpty (sha256 : Bytes → Bytes) (w : World) (e : Event) : Prop :=
  ∀ p r, Arrives sha256 w e p r → ∀ limit, RelayQueue.fetchEnvelopes p.mailboxId 0 limit p.now w.db.queue = [] →
    Wakes w (step sha256 w e) p r

/-- The mailbox holds envelopes, and all of them have expired. -/
def OnlyExpired (mailboxId : Bytes) (now : Int) (q : RelayQueue.Queue) : Prop :=
  (∃ e ∈ q.queued, e.mailboxId = mailboxId) ∧ ∀ e ∈ q.queued, e.mailboxId = mailboxId → e.expiresAt ≤ now

/-- No envelope arrives in a mailbox that holds only expired ones. -/
def NotOverExpired (sha256 : Bytes → Bytes) (w : World) (e : Event) : Prop :=
  ∀ p r, Arrives sha256 w e p r → ¬ OnlyExpired p.mailboxId p.now w.db.queue

theorem notifyMailbox_hinted (mailboxId : Bytes) (w : World) (h : notifyHintForMailbox mailboxId w.db ≠ "") :
    (notifyMailbox mailboxId w).hinted = notifyHintForMailbox mailboxId w.db :: w.hinted := by
  dsimp only [notifyMailbox]
  rw [if_neg h]

theorem wakeMailbox_hinted (mailboxId : Bytes) (w : World) : (wakeMailbox mailboxId w).hinted = w.hinted := by
  unfold wakeMailbox
  split <;> rfl

theorem wakeMailbox_woken {mailboxId : Bytes} {w : World} {s : Subscription} (hs : s ∈ (wakeMailbox mailboxId w).hub)
    (howner : mailboxOwner mailboxId w.db = some (s.identity, s.device)) : s.woken = true := by
  unfold wakeMailbox at hs
  rw [howner] at hs
  dsimp only [wake, setWoken] at hs
  rw [Table.mem_update] at hs
  obtain ⟨s₀, -, hs₀⟩ := hs
  split at hs₀
  · rw [← hs₀]
  · next hno =>
    rw [hs₀] at hno
    simp at hno

theorem put_wakes {w : World} {member : Bool} {p : Put} {r : RelayQueue.PutResult}
    (hput : (envelopePut sha256 member p w).1 = some r) (hnew : r.duplicate = false)
    (hempty : ∀ e ∈ w.db.queue.queued, e.mailboxId ≠ p.mailboxId) : Wakes w (step sha256 w (.put member p)) p r := by
  dsimp only [step]
  rcases @envelopePut_cases sha256 member p w with hnone | ⟨r', q, hq, hsome⟩
  · rw [hnone] at hput
    cases hput
  · rw [hsome] at hput ⊢
    obtain rfl := Option.some.inj hput
    have hwas := (put_wasEmpty hq hnew).2 hempty
    dsimp only
    rw [if_pos ⟨hwas, hnew⟩]
    refine ⟨hwas, fun hhint => ?_, fun s hs howner => ?_⟩
    · rw [wakeMailbox_hinted]
      exact notifyMailbox_hinted p.mailboxId (withQueue w q) hhint
    · refine wakeMailbox_woken hs ?_
      rw [notifyMailbox_db]
      exact howner

theorem wakesIfEmpty_iff {w : World} (h : Numbered w.db.queue) (e : Event) :
    WakesIfEmpty sha256 w e ↔ NotOverExpired sha256 w e := by
  constructor
  · rintro hw p r harrives ⟨⟨e₀, he₀, hid⟩, hexpired⟩
    have hreported := (hw p r harrives 0 ((fetch_eq_nil h _ _ _).2 hexpired)).reported
    obtain ⟨member, rfl, hput, hnew, -⟩ := harrives
    rcases @envelopePut_cases sha256 member p w with hnone | ⟨r', q, hq, hsome⟩
    · rw [hnone] at hput
      cases hput
    · rw [hsome] at hput
      obtain rfl := Option.some.inj hput
      exact (put_wasEmpty hq hnew).1 hreported e₀ he₀ hid
  · rintro hn p r harrives limit hfetch
    have hexpired := (fetch_eq_nil h _ _ _).1 hfetch
    have hempty : ∀ e ∈ w.db.queue.queued, e.mailboxId ≠ p.mailboxId :=
      fun e₀ he₀ hid => hn p r harrives ⟨⟨e₀, he₀, hid⟩, hexpired⟩
    obtain ⟨member, rfl, hput, hnew, -⟩ := harrives
    exact put_wakes hput hnew hempty

/-- Every envelope that arrives in an empty mailbox wakes its owner, exactly as long as none
arrives in a mailbox of expired ones that no sweep has removed. -/
theorem arrivals_wake_iff (sha256 : Bytes → Bytes) (evs : List Event) :
    Trace.Meets (step sha256) (WakesIfEmpty sha256) start evs ↔ Trace.Meets (step sha256) (NotOverExpired sha256) start evs := by
  have hstart : Numbered start.db.queue :=
    ⟨fun m hm => absurd hm (Table.not_mem_empty m), fun e he => absurd he (Table.not_mem_empty e)⟩
  have hnumbered : Trace.Meets (step sha256) (fun w _ => True ∧ Numbered w.db.queue) start evs :=
    Trace.Meets.with_invariant (fun w e _ hn => numbered_step hn e) (Trace.meets_true start evs) hstart
  exact Trace.Meets.congr (fun w e hn => wakesIfEmpty_iff hn.2 e) hnumbered

open Demo

def waiting : List Event :=
  (joins 1).map .call ++ ([.call (.createMailbox (memberId 1) (deviceId 1) [9] [8] [7] 5), .subscribe (memberId 1) (deviceId 1) 5] : List Event)

def letter (n : UInt8) (expiry : UInt64) (now : Int) : Put := ⟨[9], [7], [n], [], [n], expiry, now⟩

/-- The first envelope expires at 60 and is not swept; the second comes at 100. -/
def lateLetter : List Event := waiting ++ ([.put true (letter 1 60 10), .deliver (memberId 1) (deviceId 1)] : List Event)

def Event.clock : Event → Option Int
  | .put _ p => some p.now
  | .call c => RelayStore.clock c
  | .subscribe _ _ now => some now
  | .deliver _ _ | .unsubscribe _ _ => none

theorem late_letter_wakes_nobody : ¬ ∀ evs : List Event, (evs.filterMap Event.clock).Pairwise (· ≤ ·) →
    Trace.Meets (step fingerprint) (WakesIfEmpty fingerprint) start evs := by
  intro h
  have hwakes := (Trace.meets_append.1 (h (lateLetter ++ [Event.put true (letter 2 0 100)]) (by decide +kernel))).2.1
  have hput : (envelopePut fingerprint true (letter 2 0 100) (Trace.run (step fingerprint) start lateLetter)).1 =
      some ⟨2592000, false, false⟩ := by decide +kernel
  have hfetch : RelayQueue.fetchEnvelopes [9] 0 100 100 (Trace.run (step fingerprint) start lateLetter).db.queue = [] := by
    decide +kernel
  have hreported := (hwakes (letter 2 0 100) _ ⟨true, rfl, hput, rfl, by decide⟩ 100 hfetch).reported
  cases hreported

end Arveil.Wakeups

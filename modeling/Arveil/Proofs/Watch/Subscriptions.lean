import Arveil.Proofs.Watch.Keys

/-! `Inv` is what holds in every run of the watch. A change of a connection, of a subscription or
of what is still to do keeps it. -/

namespace Arveil.Watch

open RelayStore

def Entry.about : Entry → Option Nat
  | .checked j _ | .taken j | .entitled j | .notice j => some j
  | _ => none

/-- Nothing was taken and no notice written. -/
def Quiet (j : Nat) (e : Entry) : Prop := e ≠ .taken j ∧ e ≠ .notice j

/-- The log ends after a wake-up was taken. -/
def Taken (j : Nat) (log : List Entry) : Prop := Log.Since (fun _ => True) (.taken j) (Quiet j) log

/-- The log ends after an entitlement check that was made after the wake-up was taken. -/
def Checked (j : Nat) (log : List Entry) : Prop := Log.Since (Taken j) (.entitled j) (Quiet j) log

def PutSince (j : Nat) (owner : Bytes × Bytes) (before : List Entry) (e : Entry) : Prop :=
  .entered j ∈ before ∧ ∃ mailboxId deliveryId, e = .put mailboxId deliveryId (some owner)

/-- The first check of the delivery found envelopes. -/
def FoundMail (j : Nat) (_ : List Entry) (e : Entry) : Prop := ∃ mail, e = .checked j mail ∧ mail ≠ []

/-- Every put the subscription has to be told of is followed by a notice. -/
def Told (j : Nat) (s : Subscription) (log : List Entry) : Prop :=
  Log.Followed (PutSince j (s.identity, s.device)) (· = .notice j) log ∧ Log.Followed (FoundMail j) (· = .notice j) log

def Awake (w : World) (s : Subscription) : Prop :=
  s.wake = true ∨ (s.phase = .taken ∨ s.phase = .entitled ∨ s.phase = .ended) ∨
    ∃ mailboxId, .wakeMailbox mailboxId ∈ w.pending ∧ Wakeups.mailboxOwner mailboxId w.db = some (s.identity, s.device)

/-- The step still to come that will find the subscription once its key is no longer good. -/
def Pending.finds (j : Nat) (s : Subscription) : Pending → Bool
  | .wakeMailbox _ => false
  | .recheckWatchers identity => identity = s.identity
  | .recheck i => i = j
  | .dropStaleWatch identity device current => identity = s.identity && device = s.device && s.watchKey ≠ some current

def Sought (w : World) (j : Nat) (s : Subscription) : Prop := w.pending.any (·.finds j s) = true

/-- A watch session's key is registered. -/
def KeyGood (db : Db) (s : Subscription) : Prop := ∀ key ∈ s.watchKey, Registered s.identity s.device key db

structure SubOk (w : World) (j : Nat) (s : Subscription) : Prop where
  current : s.done = false → w.hub s.key = some j
  attended : ∃ conn, w.conns[s.conn]? = some conn ∧ s.watchKey.isSome = conn.session.watcher.isSome ∧
    (s.phase = .ended → s.watchKey.isSome = true → conn.closed = true ∨ conn.failed = true ∨ conn.stage.live = false)
  told : s.done = false → Awake w s ∨ Told j s w.log
  taken : s.phase = .taken → Taken j w.log
  checked : s.phase = .entitled → Checked j w.log
  sought : s.done = false → KeyGood w.db s ∨ Sought w j s

structure Inv (w : World) : Prop where
  subs : ∀ (j : Nat) (s : Subscription), w.subs[j]? = some s → SubOk w j s
  hub : ∀ k j, w.hub k = some j → ∃ s, w.subs[j]? = some s ∧ s.key = k ∧ s.done = false
  fresh : ∀ j, w.subs[j]? = none → ∀ e ∈ w.log, e ≠ .entered j ∧ e.about ≠ some j
  owners : ∀ mailboxId deliveryId owner, .put mailboxId deliveryId (some owner) ∈ w.log →
    Wakeups.mailboxOwner mailboxId w.db = some owner
  notices : ∀ j, Log.Preceded (fun before _ => Checked j before) (· = .notice j) w.log
  shaped : Shaped w.db

structure Older (conn conn' : Conn) : Prop where
  watcher : conn'.session.watcher = conn.session.watcher
  closed : conn.closed = true → conn'.closed = true
  failed : conn.failed = true → conn'.failed = true
  live : conn.stage.live = false → conn'.stage.live = false

theorem Older.refl (conn : Conn) : Older conn conn := ⟨rfl, id, id, id⟩

theorem inv_conns {w : World} {conns : List Conn} (h : Inv w)
    (hold : ∀ (c : Nat) (conn : Conn), w.conns[c]? = some conn → ∃ conn', conns[c]? = some conn' ∧ Older conn conn') :
    Inv { w with conns := conns } :=
  { h with
    subs := fun j s hs =>
      { h.subs j s hs with
        attended := by
          obtain ⟨conn, hconn, hkey, hended⟩ := (h.subs j s hs).attended
          obtain ⟨conn', hconn', hold⟩ := hold _ _ hconn
          refine ⟨conn', hconn', hold.watcher ▸ hkey, fun hp hw => ?_⟩
          rcases hended hp hw with hc | hf | hl
          · exact Or.inl (hold.closed hc)
          · exact Or.inr (Or.inl (hold.failed hf))
          · exact Or.inr (Or.inr (hold.live hl)) } }

theorem setConn_same {w : World} {c : Nat} {conn : Conn} (f : Conn → Conn) (hc : w.conns[c]? = some conn) :
    (w.setConn c f).conns[c]? = some (f conn) := by
  simp [World.setConn, hc]

theorem inv_setConn {w : World} (h : Inv w) (c : Nat) {f : Conn → Conn}
    (hf : ∀ conn, w.conns[c]? = some conn → Older conn (f conn)) : Inv (w.setConn c f) := by
  refine inv_conns h fun i conn hi => ?_
  by_cases hic : i = c
  · subst hic
    exact ⟨f conn, by simp [hi], hf conn hi⟩
  · exact ⟨conn, by simp [hi, Ne.symm hic], Older.refl conn⟩

theorem setSub_same {w : World} {j : Nat} {s : Subscription} (f : Subscription → Subscription) (hs : w.subs[j]? = some s) :
    (w.setSub j f).subs[j]? = some (f s) := by
  simp [World.setSub, hs]

theorem setSub_other {w : World} {i j : Nat} (f : Subscription → Subscription) (hi : i ≠ j) :
    (w.setSub j f).subs[i]? = w.subs[i]? := by
  simp [World.setSub, hi.symm]

theorem SubOk.cancelled {w w' : World} {j : Nat} {s : Subscription} (h : SubOk w j s) (hconns : w'.conns = w.conns)
    (hlog : w'.log = w.log) : SubOk w' j { s with done := true } where
  current hd := nomatch hd
  attended := hconns ▸ h.attended
  told hd := nomatch hd
  taken := hlog ▸ h.taken
  checked := hlog ▸ h.checked
  sought hd := nomatch hd

theorem inv_cancel {w : World} {j : Nat} {s : Subscription} {hub : String → Option Nat} (h : Inv w) (hs : w.subs[j]? = some s)
    (hother : ∀ k i, i ≠ j → (hub k = some i ↔ w.hub k = some i)) (hgone : ∀ k, hub k ≠ some j) :
    Inv { cancel j w with hub := hub } where
  subs i t ht := by
    by_cases hi : i = j
    · subst hi
      rw [show ({ cancel i w with hub := hub } : World).subs[i]? = _ from setSub_same _ hs] at ht
      obtain rfl := Option.some.inj ht
      exact (h.subs i s hs).cancelled rfl rfl
    · rw [show ({ cancel j w with hub := hub } : World).subs[i]? = _ from setSub_other _ hi] at ht
      have ok := h.subs i t ht
      exact { ok with current := fun hd => (hother _ i hi).2 (ok.current hd) }
  hub k i hk := by
    by_cases hi : i = j
    · subst hi
      exact absurd hk (hgone k)
    · obtain ⟨t, ht, hkey⟩ := h.hub k i ((hother k i hi).1 hk)
      exact ⟨t, (setSub_other _ hi).trans ht, hkey⟩
  fresh i hi := by
    refine h.fresh i ?_
    rw [List.getElem?_eq_none_iff] at hi ⊢
    simpa [cancel, World.setSub] using hi
  owners := h.owners
  notices := h.notices
  shaped := h.shaped

theorem hub_removed {w : World} {j : Nat} {s : Subscription} (h : Inv w) (hs : w.subs[j]? = some s)
    (hk : w.hub s.key = some j) :
    (∀ k i, i ≠ j → (Function.update w.hub s.key none k = some i ↔ w.hub k = some i)) ∧
      ∀ k, Function.update w.hub s.key none k ≠ some j := by
  refine ⟨fun k i hi => ?_, fun k => ?_⟩
  · rw [Function.update_apply]
    split
    · next he =>
      subst he
      rw [hk]
      exact ⟨nofun, fun he => absurd (Option.some.inj he).symm hi⟩
    · exact Iff.rfl
  · rw [Function.update_apply]
    split
    · exact fun hn => nomatch hn
    · next hne =>
      intro he
      obtain ⟨t, ht, hkey, -⟩ := h.hub k j he
      obtain rfl := Option.some.inj (hs.symm.trans ht)
      exact hne hkey.symm

/-- A subscription that is not its device's in the hub is nobody's. -/
theorem hub_foreign {w : World} {j : Nat} {s : Subscription} (h : Inv w) (hs : w.subs[j]? = some s)
    (hk : w.hub s.key ≠ some j) (k : String) : w.hub k ≠ some j := by
  intro he
  obtain ⟨t, ht, hkey, -⟩ := h.hub k j he
  obtain rfl := Option.some.inj (hs.symm.trans ht)
  exact hk (hkey ▸ he)

theorem inv_unsubscribe {w : World} (h : Inv w) (j : Nat) : Inv (unsubscribe j w) := by
  unfold unsubscribe
  split
  · exact h
  · next s hs =>
    split
    · next hk =>
      obtain ⟨hother, hgone⟩ := hub_removed h hs hk
      exact inv_cancel h hs hother hgone
    · next hk => exact inv_cancel h hs (fun _ _ _ => Iff.rfl) (hub_foreign h hs hk)

theorem inv_dropStaleWatch {w : World} (h : Inv w) (identity device current : Bytes) :
    Inv (dropStaleWatch identity device current w) := by
  unfold dropStaleWatch
  split
  · exact h
  · next j hj =>
    split
    · exact h
    · next s hs =>
      split
      · exact h
      · obtain ⟨t, ht, hkey, -⟩ := h.hub _ j hj
        obtain rfl := Option.some.inj (hs.symm.trans ht)
        rw [← hkey] at hj ⊢
        obtain ⟨hother, hgone⟩ := hub_removed h hs hj
        exact inv_cancel h hs hother hgone

theorem inv_wake {w : World} (h : Inv w) (j : Nat) : Inv (w.setSub j fun s => { s with wake := true }) where
  subs i t ht := by
    by_cases hi : i = j
    · subst hi
      cases hs : w.subs[i]? with
      | none => simp [World.setSub, hs] at ht
      | some s =>
        rw [setSub_same _ hs] at ht
        obtain rfl := Option.some.inj ht
        exact { h.subs i s hs with told := fun _ => Or.inl (Or.inl rfl) }
    · rw [setSub_other _ hi] at ht
      exact { h.subs i t ht with }
  hub k i hk := by
    obtain ⟨t, ht, hkey, hdone⟩ := h.hub k i hk
    by_cases hi : i = j
    · subst hi
      exact ⟨_, setSub_same _ ht, hkey, hdone⟩
    · exact ⟨t, (setSub_other _ hi).trans ht, hkey, hdone⟩
  fresh i hi := by
    refine h.fresh i ?_
    rw [List.getElem?_eq_none_iff] at hi ⊢
    simpa [World.setSub] using hi
  owners := h.owners
  notices := h.notices
  shaped := h.shaped

theorem inv_hubWake {w : World} (h : Inv w) (identity device : Bytes) : Inv (hubWake identity device w) := by
  unfold hubWake
  split
  · exact h
  · exact inv_wake h _

theorem inv_pending {w : World} {ps : List Pending} (h : Inv w)
    (hawake : ∀ (j : Nat) (s : Subscription), w.subs[j]? = some s → s.done = false → Awake w s → Awake { w with pending := ps } s)
    (hsought : ∀ (j : Nat) (s : Subscription), w.subs[j]? = some s → s.done = false → Sought w j s →
      KeyGood w.db s ∨ Sought { w with pending := ps } j s) : Inv { w with pending := ps } :=
  { h with
    subs := fun j s hs =>
      { h.subs j s hs with
        told := fun hd => ((h.subs j s hs).told hd).imp_left (hawake j s hs hd)
        sought := fun hd => ((h.subs j s hs).sought hd).elim Or.inl (hsought j s hs hd) } }

theorem pending_cases {w : World} {k : Nat} {p q : Pending} (hp : w.pending[k]? = some p) (hq : q ∈ w.pending) :
    q = p ∨ q ∈ w.pending.eraseIdx k := by
  obtain ⟨i, hi⟩ := List.mem_iff_getElem?.1 hq
  by_cases hik : i = k
  · subst hik
    exact Or.inl (Option.some.inj (hi.symm.trans hp))
  · exact Or.inr (List.mem_eraseIdx_iff_getElem?.2 ⟨i, hik, hi⟩)

theorem awake_erase {w : World} {k : Nat} {p : Pending} {s : Subscription} (hp : w.pending[k]? = some p)
    (hwoken : ∀ mailboxId, p = .wakeMailbox mailboxId → Wakeups.mailboxOwner mailboxId w.db = some (s.identity, s.device) →
      s.wake = true) (h : Awake w s) : Awake { w with pending := w.pending.eraseIdx k } s := by
  rcases h with hw | hphase | ⟨mailboxId, hm, howner⟩
  · exact Or.inl hw
  · exact Or.inr (Or.inl hphase)
  · rcases pending_cases hp hm with he | hm
    · exact Or.inl (hwoken mailboxId he.symm howner)
    · exact Or.inr (Or.inr ⟨mailboxId, hm, howner⟩)

theorem sought_erase {w : World} {j k : Nat} {p : Pending} {s : Subscription} (hp : w.pending[k]? = some p)
    (hfinds : p.finds j s = true → KeyGood w.db s ∨ Sought { w with pending := w.pending.eraseIdx k } j s)
    (h : Sought w j s) : KeyGood w.db s ∨ Sought { w with pending := w.pending.eraseIdx k } j s := by
  obtain ⟨q, hq, hf⟩ := List.any_eq_true.1 h
  rcases pending_cases hp hq with rfl | hq
  · exact hfinds hf
  · exact Or.inr (List.any_eq_true.2 ⟨q, hq, hf⟩)

theorem hubWake_woken {w : World} {identity device : Bytes} {j : Nat} {s : Subscription}
    (hk : w.hub (deviceKey identity device) = some j) (hs : (hubWake identity device w).subs[j]? = some s) : s.wake = true := by
  unfold hubWake at hs
  rw [hk] at hs
  cases ht : w.subs[j]? with
  | none => simp [World.setSub, ht] at hs
  | some t =>
    rw [show ((w.setSub j fun s => { s with wake := true }).subs[j]?) = _ from setSub_same _ ht] at hs
    rw [← Option.some.inj hs]

theorem hubWake_hub (identity device : Bytes) (w : World) : (hubWake identity device w).hub = w.hub := by
  unfold hubWake
  split <;> rfl

theorem hubWake_pending (identity device : Bytes) (w : World) (ps : List Pending) :
    hubWake identity device { w with pending := ps } = { hubWake identity device w with pending := ps } := by
  unfold hubWake
  dsimp only
  split <;> rfl

theorem unsubscribe_pending (j : Nat) (w : World) (ps : List Pending) :
    unsubscribe j { w with pending := ps } = { unsubscribe j w with pending := ps } := by
  unfold unsubscribe
  dsimp only
  split
  · rfl
  · split <;> rfl

theorem unsubscribe_fields (j : Nat) (w : World) :
    (unsubscribe j w).pending = w.pending ∧ (unsubscribe j w).db = w.db ∧ (unsubscribe j w).conns = w.conns ∧
      (unsubscribe j w).log = w.log := by
  unfold unsubscribe
  split
  · exact ⟨rfl, rfl, rfl, rfl⟩
  · split <;> exact ⟨rfl, rfl, rfl, rfl⟩

theorem unsubscribe_done {w : World} {j : Nat} {s : Subscription} (hs : (unsubscribe j w).subs[j]? = some s) : s.done = true := by
  unfold unsubscribe at hs
  cases ht : w.subs[j]? with
  | none =>
    simp only [ht] at hs
    nomatch hs
  | some t =>
    have hcancel : (cancel j w).subs[j]? = some { t with done := true } := setSub_same _ ht
    simp only [ht] at hs
    split at hs
    · rw [← Option.some.inj (hcancel.symm.trans hs)]
    · rw [← Option.some.inj (hcancel.symm.trans hs)]

theorem dropStaleWatch_pending (identity device current : Bytes) (w : World) (ps : List Pending) :
    dropStaleWatch identity device current { w with pending := ps } =
      { dropStaleWatch identity device current w with pending := ps } := by
  unfold dropStaleWatch
  dsimp only
  split
  · rfl
  · split
    · rfl
    · split <;> rfl

theorem dropStaleWatch_fields (identity device current : Bytes) (w : World) :
    (dropStaleWatch identity device current w).pending = w.pending ∧ (dropStaleWatch identity device current w).db = w.db := by
  unfold dropStaleWatch
  split
  · exact ⟨rfl, rfl⟩
  · split
    · exact ⟨rfl, rfl⟩
    · split <;> exact ⟨rfl, rfl⟩

theorem dropStaleWatch_done {w : World} {j : Nat} {s : Subscription} {current : Bytes}
    (hs : (dropStaleWatch s.identity s.device current w).subs[j]? = some s)
    (hk : (dropStaleWatch s.identity s.device current w).hub s.key = some j) (hkey : s.watchKey ≠ none)
    (hne : s.watchKey ≠ some current) : s.done = true := by
  unfold dropStaleWatch at hs hk
  cases hhub : w.hub (deviceKey s.identity s.device) with
  | none =>
    simp only [hhub] at hk
    nomatch hhub.symm.trans hk
  | some i =>
    simp only [hhub] at hs hk
    cases ht : w.subs[i]? with
    | none =>
      simp only [ht] at hs hk
      obtain rfl : i = j := Option.some.inj (hhub.symm.trans hk)
      nomatch ht.symm.trans hs
    | some t =>
      simp only [ht] at hs hk
      split at hs
      · next hkeep =>
        rw [if_pos hkeep] at hk
        obtain rfl : i = j := Option.some.inj (hhub.symm.trans hk)
        obtain rfl := Option.some.inj (ht.symm.trans hs)
        exact absurd hkeep (by simp [hkey, hne])
      · next hdrop =>
        rw [if_neg hdrop] at hk
        have hnone : Function.update w.hub (deviceKey s.identity s.device) none s.key = some j := hk
        rw [Subscription.key, Function.update_self] at hnone
        nomatch hnone

end Arveil.Watch

import Arveil.Proofs.Watch.Subscriptions

/-! A watch session of a revoked device is found, where the revocation comes in time, and what a
call of the store wakes and leaves to do is in the log. -/

namespace Arveil.Watch

open RelayStore RelayServer

variable {sha256 : Bytes → Bytes}

/-- A watch session is in the hub only while its key is good, or while the step that will find
it is still to come: what enters has such a key or such a step, and a recheck that leaves a
subscription where it is leaves one that has. -/
def InTime (w : World) : Event → Prop
  | .enterHub c =>
      ∀ conn ∈ w.conns[c]?, conn.stage = .checked → ∀ d ∈ conn.session.watcher,
        Registered d.identityId d.deviceId conn.session.remoteStatic w.db ∨
          w.pending.any (fun p => p.finds w.subs.length
            ⟨c, d.identityId, d.deviceId, some conn.session.remoteStatic, false, false, false, .starting⟩) = true
  | .pending k now =>
      match w.pending[k]? with
      | some (.recheck j) =>
          ∀ s ∈ w.subs[j]?, s.done = false → deviceActive s.identity s.device now w.db = true →
            (∀ key ∈ s.watchKey, Registered s.identity s.device key w.db) ∨ (w.pending.eraseIdx k).any (·.finds j s) = true
      | _ => True
  | _ => True

instance (w : World) (e : Event) : Decidable (InTime w e) := by
  cases e <;> unfold InTime <;> dsimp only <;> (try split) <;> infer_instance

theorem inv_runPending {w : World} {k : Nat} {now : Int} {p : Pending} (h : Inv w) (hp : w.pending[k]? = some p)
    (hc : InTime w (.pending k now)) : Inv (runPending p now { w with pending := w.pending.eraseIdx k }) := by
  cases p with
  | wakeMailbox mailboxId =>
    rw [runPending]
    dsimp only
    have hnever : ∀ {w' : World} {j : Nat} {s : Subscription}, w'.pending = w.pending → w'.db = w.db → Sought w' j s →
        KeyGood w'.db s ∨ Sought { w' with pending := w.pending.eraseIdx k } j s := by
      intro w' j s hw hdb hsought
      have := sought_erase (w := w') (k := k) (p := .wakeMailbox mailboxId) (hw ▸ hp) (fun hf => by cases hf) hsought
      rwa [hw] at this
    split
    · next hnone =>
      refine inv_pending h (fun j s hs hd ha => awake_erase hp (fun m hm howner => ?_) ha) fun j s hs hd => hnever rfl rfl
      obtain rfl := Pending.wakeMailbox.inj hm
      rw [hnone] at howner
      cases howner
    · next identity device howner =>
      rw [hubWake_pending]
      have hwoken := inv_hubWake h identity device
      have hpend : (hubWake identity device w).pending = w.pending := by
        unfold hubWake
        split <;> rfl
      have hdb : (hubWake identity device w).db = w.db := by
        unfold hubWake
        split <;> rfl
      refine inv_pending hwoken (fun j s hs hd ha => ?_) fun j s hs hd => hnever hpend hdb
      have := awake_erase (w := hubWake identity device w) (k := k) (p := .wakeMailbox mailboxId) (hpend ▸ hp) (fun m hm howner' => ?_) ha
      · rwa [hpend] at this
      · obtain rfl := Pending.wakeMailbox.inj hm
        rw [hdb, howner] at howner'
        obtain ⟨rfl, rfl⟩ := Prod.mk.inj (Option.some.inj howner')
        have hk := (hwoken.subs j s hs).current hd
        rw [hubWake_hub] at hk
        exact hubWake_woken hk hs
  | recheckWatchers identity =>
    suffices hlisted : Inv { w with
        pending := w.pending.eraseIdx k ++ (hubOf identity { w with pending := w.pending.eraseIdx k }).map .recheck } from
      hlisted
    refine inv_pending h (fun j s hs hd ha => ?_) fun j s hs hd hsought => ?_
    · rcases awake_erase hp (fun m hm => by cases hm) ha with hw | hphase | ⟨m, hm, howner⟩
      · exact Or.inl hw
      · exact Or.inr (Or.inl hphase)
      · exact Or.inr (Or.inr ⟨m, List.mem_append_left _ hm, howner⟩)
    · obtain ⟨q, hq, hf⟩ := List.any_eq_true.1 hsought
      refine Or.inr (List.any_eq_true.2 ?_)
      rcases pending_cases hp hq with rfl | hq
      · refine ⟨.recheck j, List.mem_append_right _ (List.mem_map_of_mem (List.mem_filter.2 ⟨?_, ?_⟩)), by simp [Pending.finds]⟩
        · exact List.mem_range.2 (List.getElem?_eq_some_iff.1 hs).1
        · have hk := (h.subs j s hs).current hd
          have hid : identity = s.identity := of_decide_eq_true hf
          simp [hs, hk, hid]
      · exact ⟨q, List.mem_append_left _ hq, hf⟩
  | recheck i =>
    rw [runPending]
    dsimp only
    split
    · next hnone =>
      refine inv_pending h (fun j s hs hd => awake_erase hp fun m hm => by cases hm) fun j s hs hd =>
        sought_erase hp fun hf => ?_
      obtain rfl : i = j := of_decide_eq_true hf
      rw [hnone] at hs
      cases hs
    · next t ht =>
      split
      · next hactive =>
        refine inv_pending h (fun j s hs hd => awake_erase hp fun m hm => by cases hm) fun j s hs hd =>
          sought_erase hp fun hf => ?_
        obtain rfl : i = j := of_decide_eq_true hf
        obtain rfl := Option.some.inj (ht.symm.trans hs)
        simp only [InTime, hp] at hc
        exact hc t ht hd hactive
      · rw [unsubscribe_pending]
        obtain ⟨hpend, hdb, -, -⟩ := unsubscribe_fields i w
        refine inv_pending (inv_unsubscribe h i) (fun j s hs hd ha => ?_) fun j s hs hd hsought => ?_
        · have := awake_erase (w := unsubscribe i w) (k := k) (p := .recheck i) (hpend ▸ hp) (fun m hm => by cases hm) ha
          rwa [hpend] at this
        · have := sought_erase (w := unsubscribe i w) (k := k) (p := .recheck i) (hpend ▸ hp) (fun hf => ?_) hsought
          · rwa [hpend] at this
          · obtain rfl : i = j := of_decide_eq_true hf
            rw [unsubscribe_done hs] at hd
            cases hd
  | dropStaleWatch identity device current =>
    rw [runPending, dropStaleWatch_pending]
    obtain ⟨hpend, hdb⟩ := dropStaleWatch_fields identity device current w
    have hdropped := inv_dropStaleWatch h identity device current
    refine inv_pending hdropped (fun j s hs hd ha => ?_) fun j s hs hd hsought => ?_
    · have := awake_erase (w := dropStaleWatch identity device current w) (k := k)
        (p := .dropStaleWatch identity device current) (hpend ▸ hp) (fun m hm => by cases hm) ha
      rwa [hpend] at this
    · have := sought_erase (w := dropStaleWatch identity device current w) (k := k)
        (p := .dropStaleWatch identity device current) (hpend ▸ hp) (fun hf => ?_) hsought
      · rwa [hpend] at this
      · simp only [Pending.finds, Bool.and_eq_true, decide_eq_true_eq] at hf
        obtain ⟨⟨rfl, rfl⟩, hne⟩ := hf
        cases hkey : s.watchKey with
        | none =>
          refine Or.inl fun key hk => ?_
          rw [hkey] at hk
          cases hk
        | some key =>
          have hdone := dropStaleWatch_done hs ((hdropped.subs j s hs).current hd) (by simp [hkey]) hne
          rw [hdone] at hd
          cases hd

theorem record_cases (db : Db) (c : Call) (r : Except StoreError c.Result) :
    record db c r = [] ∨ ∃ mailboxId deliveryId,
      record db c r = [.put mailboxId deliveryId (Wakeups.mailboxOwner mailboxId db)] ∧
        .wakeMailbox mailboxId ∈ followUp c r := by
  cases c with
  | putEnvelope mailboxId deliveryId hpkeEnc ciphertext expiry now =>
    cases r with
    | error e => exact Or.inl rfl
    | ok r =>
      by_cases hr : r.wasEmpty = true ∧ r.duplicate = false
      · refine Or.inr ⟨mailboxId, deliveryId, if_pos hr, ?_⟩
        rw [show followUp (.putEnvelope mailboxId deliveryId hpkeEnc ciphertext expiry now) (.ok r) = _ from if_pos hr]
        exact List.mem_singleton_self _
      · exact Or.inl (if_neg hr)
  | _ => exact Or.inl rfl

theorem quiet_put (j : Nat) (mailboxId deliveryId : Bytes) (owner : Option (Bytes × Bytes)) :
    Quiet j (.put mailboxId deliveryId owner) := ⟨nofun, nofun⟩

theorem inv_call {w : World} (c : Call) (h : Inv w) : Inv (call sha256 c w) := by
  have hw : call sha256 c w =
      { w with db := (c.prog sha256 w.db).2, pending := w.pending ++ followUp c (c.prog sha256 w.db).1,
               log := w.log ++ record (c.prog sha256 w.db).2 c (c.prog sha256 w.db).1 } := rfl
  rw [hw]
  have hcases := record_cases (c.prog sha256 w.db).2 c (c.prog sha256 w.db).1
  generalize hr : record (c.prog sha256 w.db).2 c (c.prog sha256 w.db).1 = rs at hcases
  refine ⟨fun j s hs => ?_, h.hub, fun j hj e he => ?_, fun m d o hm => ?_, fun j => ?_, shaped_call c h.shaped⟩
  · have ok := h.subs j s hs
    refine { ok with told := fun hd => ?_, taken := fun hp => ?_, checked := fun hp => ?_, sought := fun hd => ?_ }
    · have hawake : Awake w s → Awake { w with
          db := (c.prog sha256 w.db).2, pending := w.pending ++ followUp c (c.prog sha256 w.db).1, log := w.log ++ rs } s := by
        rintro (hwake | hphase | ⟨m, hm, howner⟩)
        · exact Or.inl hwake
        · exact Or.inr (Or.inl hphase)
        · exact Or.inr (Or.inr ⟨m, List.mem_append_left _ hm, owner_call c howner⟩)
      rcases ok.told hd with ha | ⟨hput, hmail⟩
      · exact Or.inl (hawake ha)
      rcases hcases with rfl | ⟨m, d, rfl, hwake⟩
      · rw [List.append_nil]
        exact Or.inr ⟨hput, hmail⟩
      by_cases howner : Wakeups.mailboxOwner m (c.prog sha256 w.db).2 = some (s.identity, s.device)
      · exact Or.inl (Or.inr (Or.inr ⟨m, List.mem_append_right _ hwake, howner⟩))
      · refine Or.inr ⟨hput.append ?_, hmail.append ?_⟩
        · rintro ⟨-, m', d', he⟩
          obtain ⟨-, -, ho⟩ := Entry.put.inj he
          exact howner ho
        · rintro ⟨mail, he, -⟩
          nomatch he
    · have htaken := ok.taken hp
      rcases hcases with rfl | ⟨m, d, rfl, -⟩
      · rwa [List.append_nil]
      · exact htaken.append (quiet_put _ _ _ _)
    · have hchecked := ok.checked hp
      rcases hcases with rfl | ⟨m, d, rfl, -⟩
      · rwa [List.append_nil]
      · exact hchecked.append (quiet_put _ _ _ _)
    · rcases ok.sought hd with hgood | hsought
      · cases hkey : s.watchKey with
        | none =>
          refine Or.inl fun key hk => ?_
          rw [hkey] at hk
          nomatch hk
        | some key =>
          have hreg := hgood key hkey
          have hne : key ≠ [] := h.shaped _ (registered_iff.1 hreg).1
          rcases (registered_call hreg hne c : Registered _ _ _ (c.prog sha256 _).2 ∨ _) with hreg | ⟨p, hp, hfinds⟩
          · refine Or.inl fun key' hk => ?_
            obtain rfl := Option.some.inj (hkey.symm.trans hk)
            exact hreg
          · refine Or.inr (List.any_eq_true.2 ⟨p, List.mem_append_right _ hp, ?_⟩)
            rcases hfinds with rfl | ⟨current, rfl, hne⟩
            · simp [Pending.finds]
            · simp [Pending.finds, hkey, hne.symm]
      · obtain ⟨p, hp, hf⟩ := List.any_eq_true.1 hsought
        exact Or.inr (List.any_eq_true.2 ⟨p, List.mem_append_left _ hp, hf⟩)
  · rcases List.mem_append.1 he with he | he
    · exact h.fresh j hj e he
    · rcases hcases with rfl | ⟨m, d, rfl, -⟩
      · nomatch he
      · rw [List.mem_singleton.1 he]
        exact ⟨nofun, nofun⟩
  · rcases List.mem_append.1 hm with hm | hm
    · exact owner_call c (h.owners m d o hm)
    · rcases hcases with rfl | ⟨m', d', rfl, -⟩
      · nomatch hm
      · obtain ⟨rfl, -, ho⟩ := Entry.put.inj (List.mem_singleton.1 hm)
        exact ho.symm
  · rcases hcases with rfl | ⟨m, d, rfl, -⟩
    · rw [List.append_nil]
      exact h.notices j
    · exact (h.notices j).append fun he => nomatch he

end Arveil.Watch

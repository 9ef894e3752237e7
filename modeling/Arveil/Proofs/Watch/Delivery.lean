import Arveil.Proofs.Watch.Revocations

/-! A subscription that enters the hub, and the steps of its delivery: a wake-up is taken, the key is
checked after it, and a notice is written only then. -/

namespace Arveil.Watch

theorem told_entered {w : World} {n : Nat} (hfresh : ∀ e ∈ w.log, e ≠ .entered n ∧ e.about ≠ some n) (s : Subscription) :
    Told n s (w.log ++ [Entry.entered n]) := by
  have hsplit : ∀ {before after : List Entry} {e : Entry}, w.log ++ [Entry.entered n] = before ++ e :: after → e ≠ .entered n →
      e ∈ w.log ∧ ∀ e' ∈ before, e' ∈ w.log := by
    intro before after e hlog hne
    rcases Log.split_append hlog with ⟨-, he, -⟩ | ⟨rest, hrest, -⟩
    · exact absurd he hne
    · rw [hrest]
      exact ⟨List.mem_append_right _ List.mem_cons_self, fun e' he' => List.mem_append_left _ he'⟩
  refine ⟨Log.followed_of_none fun before e after hlog hp => ?_, Log.followed_of_none fun before e after hlog hp => ?_⟩
  · obtain ⟨hentered, m, d, rfl⟩ := hp
    exact (hfresh _ ((hsplit hlog nofun).2 _ hentered)).1 rfl
  · obtain ⟨mail, rfl, -⟩ := hp
    exact (hfresh _ (hsplit hlog nofun).1).2 rfl

theorem inv_enter {w : World} {s : Subscription} (h : Inv w) (hfree : w.hub s.key = none) (hdone : s.done = false)
    (hphase : s.phase = .starting) (hconn : ∃ conn, w.conns[s.conn]? = some conn ∧ s.watchKey.isSome = conn.session.watcher.isSome)
    (hsought : KeyGood w.db s ∨ Sought w w.subs.length s) :
    Inv { w with
      subs := w.subs ++ [s], hub := Function.update w.hub s.key (some w.subs.length),
      log := w.log ++ [Entry.entered w.subs.length] } where
  subs j t ht := by
    by_cases hlt : j < w.subs.length
    · rw [List.getElem?_append_left hlt] at ht
      have ok := h.subs j t ht
      refine { ok with current := fun hd => ?_, told := fun hd => ?_, taken := fun hp => (ok.taken hp).append ⟨nofun, nofun⟩,
                       checked := fun hp => (ok.checked hp).append ⟨nofun, nofun⟩ }
      · have hk := ok.current hd
        have hne : t.key ≠ s.key := by
          intro he
          rw [he, hfree] at hk
          nomatch hk
        exact (Function.update_of_ne hne _ _).trans hk
      · refine (ok.told hd).imp_right fun ⟨hput, hmail⟩ => ⟨hput.append ?_, hmail.append ?_⟩
        · rintro ⟨-, m, d, he⟩
          nomatch he
        · rintro ⟨mail, he, -⟩
          nomatch he
    · obtain rfl : j = w.subs.length := by
        have hj := (List.getElem?_eq_some_iff.1 ht).1
        rw [List.length_append, List.length_singleton] at hj
        omega
      rw [List.getElem?_concat_length] at ht
      obtain rfl := Option.some.inj ht
      obtain ⟨conn, hconn, hkey⟩ := hconn
      have hstarting : ∀ {p : Phase}, s.phase = p → p ≠ .starting → False := fun hp hne => hne (hp.symm.trans hphase)
      refine ⟨fun _ => Function.update_self _ _ _, ⟨conn, hconn, hkey, fun hp => (hstarting hp nofun).elim⟩, fun _ => Or.inr ?_,
        fun hp => (hstarting hp nofun).elim, fun hp => (hstarting hp nofun).elim, fun _ => hsought⟩
      exact told_entered (h.fresh _ (List.getElem?_eq_none (Nat.le_refl _))) s
  hub k j hk := by
    replace hk : Function.update w.hub s.key (some w.subs.length) k = some j := hk
    rw [Function.update_apply] at hk
    split at hk
    · next he =>
      obtain rfl := Option.some.inj hk
      exact ⟨s, List.getElem?_concat_length, he.symm, hdone⟩
    · obtain ⟨t, ht, hkey⟩ := h.hub k j hk
      exact ⟨t, by rwa [List.getElem?_append_left (List.getElem?_eq_some_iff.1 ht).1], hkey⟩
  fresh j hj e he := by
    rw [List.getElem?_eq_none_iff, List.length_append, List.length_singleton] at hj
    rcases List.mem_append.1 he with he | he
    · exact h.fresh j (List.getElem?_eq_none (by omega)) e he
    · rw [List.mem_singleton.1 he]
      refine ⟨fun hn => ?_, nofun⟩
      have := Entry.entered.inj hn
      omega
  owners m d o hm := by
    rcases List.mem_append.1 hm with hm | hm
    · exact h.owners m d o hm
    · nomatch List.mem_singleton.1 hm
  notices j := (h.notices j).append fun he => nomatch he
  shaped := h.shaped

theorem inv_hubSubscribe {w : World} {s : Subscription} (h : Inv w) (hdone : s.done = false) (hphase : s.phase = .starting)
    (hconn : ∃ conn, w.conns[s.conn]? = some conn ∧ s.watchKey.isSome = conn.session.watcher.isSome)
    (hsought : KeyGood w.db s ∨ Sought w w.subs.length s) : Inv (hubSubscribe s w) := by
  unfold hubSubscribe
  dsimp only
  cases hk : w.hub s.key with
  | none => exact inv_enter h hk hdone hphase hconn hsought
  | some old =>
    obtain ⟨t, ht, hkey, -⟩ := h.hub s.key old hk
    obtain ⟨hother, hgone⟩ := hub_removed h ht (hkey ▸ hk)
    have hcancelled := inv_cancel h ht hother hgone
    have hlength : (cancel old w).subs.length = w.subs.length := by simp [cancel, World.setSub]
    have hfree : Function.update w.hub t.key none s.key = none := by rw [hkey, Function.update_self]
    have hentered := inv_enter hcancelled hfree hdone hphase hconn (by
      rcases hsought with hg | hs
      · exact Or.inl hg
      · refine Or.inr ?_
        dsimp only
        rw [hlength]
        exact hs)
    dsimp only at hentered
    rw [hkey, Function.update_idem] at hentered
    exact hentered

/-- What a step of the delivery leaves of its subscription. -/
structure SameSub (s s' : Subscription) : Prop where
  conn : s'.conn = s.conn
  identity : s'.identity = s.identity
  device : s'.device = s.device
  watchKey : s'.watchKey = s.watchKey
  done : s'.done = s.done

theorem quiet_about {i j : Nat} {e : Entry} (he : e.about = some j) (hi : i ≠ j) : Quiet i e := by
  constructor
  · rintro rfl
    exact hi (Option.some.inj he)
  · rintro rfl
    exact hi (Option.some.inj he)

theorem inv_touch {w : World} {j : Nat} {s : Subscription} {f : Subscription → Subscription} {l : List Entry} (h : Inv w)
    (hs : w.subs[j]? = some s) (hsame : SameSub s (f s)) (habout : ∀ e ∈ l, e.about = some j)
    (hnotices : Log.Preceded (fun before _ => Checked j before) (· = .notice j) (w.log ++ l))
    (hended : (f s).phase = .ended → (f s).watchKey.isSome = true → ∀ conn, w.conns[s.conn]? = some conn →
      conn.closed = true ∨ conn.failed = true ∨ conn.stage.live = false)
    (htold : s.done = false → Awake w (f s) ∨ Told j s (w.log ++ l))
    (htaken : (f s).phase = .taken → Taken j (w.log ++ l)) (hchecked : (f s).phase = .entitled → Checked j (w.log ++ l)) :
    Inv { w.setSub j f with log := w.log ++ l } where
  subs i t ht := by
    by_cases hi : i = j
    · subst hi
      rw [show ({ w.setSub i f with log := w.log ++ l } : World).subs[i]? = _ from setSub_same f hs] at ht
      obtain rfl := Option.some.inj ht
      have ok := h.subs i s hs
      have hkey : (f s).key = s.key := by rw [Subscription.key, Subscription.key, hsame.identity, hsame.device]
      refine ⟨fun hd => ?_, ?_, fun hd => ?_, htaken, hchecked, fun hd => ?_⟩
      · rw [hkey]
        exact ok.current (hsame.done ▸ hd)
      · obtain ⟨conn, hconn, hwatch, -⟩ := ok.attended
        exact ⟨conn, hsame.conn ▸ hconn, hsame.watchKey ▸ hwatch, fun hp hw => hended hp hw conn hconn⟩
      · refine (htold (hsame.done ▸ hd)).imp id fun ht => ?_
        unfold Told at ht ⊢
        rwa [hsame.identity, hsame.device]
      · refine (ok.sought (hsame.done ▸ hd)).imp (fun hg key hk => ?_) fun hf => ?_
        · rw [hsame.identity, hsame.device]
          exact hg key (hsame.watchKey ▸ hk)
        · obtain ⟨p, hp, hfinds⟩ := List.any_eq_true.1 hf
          refine List.any_eq_true.2 ⟨p, hp, ?_⟩
          cases p <;> simp only [Pending.finds, hsame.identity, hsame.device, hsame.watchKey] at hfinds ⊢ <;> exact hfinds
    · rw [show ({ w.setSub j f with log := w.log ++ l } : World).subs[i]? = _ from setSub_other f hi] at ht
      have ok := h.subs i t ht
      have hquiet : ∀ e ∈ l, Quiet i e := fun e he => quiet_about (habout e he) hi
      refine { ok with told := fun hd => ?_, taken := fun hp => (ok.taken hp).append_all hquiet,
                       checked := fun hp => (ok.checked hp).append_all hquiet }
      refine (ok.told hd).imp_right fun hsaid => ⟨hsaid.1.append_all ?_, hsaid.2.append_all ?_⟩
      · rintro e he before ⟨-, m, d, rfl⟩
        cases habout _ he
      · rintro e he before ⟨mail, rfl, -⟩
        exact hi (Option.some.inj (habout _ he))
  hub k i hk := by
    obtain ⟨t, ht, hkey, hdone⟩ := h.hub k i hk
    by_cases hi : i = j
    · subst hi
      obtain rfl := Option.some.inj (hs.symm.trans ht)
      refine ⟨f s, setSub_same f hs, ?_, hsame.done.trans hdone⟩
      rw [← hkey, Subscription.key, Subscription.key, hsame.identity, hsame.device]
    · exact ⟨t, (setSub_other f hi).trans ht, hkey, hdone⟩
  fresh i hi e he := by
    rw [List.getElem?_eq_none_iff] at hi
    have hlen : w.subs.length ≤ i := by simpa [World.setSub] using hi
    rcases List.mem_append.1 he with he | he
    · exact h.fresh i (List.getElem?_eq_none hlen) e he
    · have hne : i ≠ j := by
        have := (List.getElem?_eq_some_iff.1 hs).1
        omega
      refine ⟨?_, fun ha => hne (Option.some.inj (ha.symm.trans (habout e he)))⟩
      rintro rfl
      cases habout _ he
  owners m d o hm := by
    rcases List.mem_append.1 hm with hm | hm
    · exact h.owners m d o hm
    · cases habout _ hm
  notices i := by
    by_cases hi : i = j
    · subst hi
      exact hnotices
    · refine (h.notices i).append_all fun e he heq => hi ?_
      rw [heq] at he
      exact Option.some.inj (habout _ he)
  shaped := h.shaped

theorem inv_end {w : World} {j : Nat} {s : Subscription} (h : Inv w) (hs : w.subs[j]? = some s)
    (hover : s.watchKey.isSome = true → ∀ conn, w.conns[s.conn]? = some conn →
      conn.closed = true ∨ conn.failed = true ∨ conn.stage.live = false) : Inv (w.setSub j (·.to .ended)) := by
  have htouch := inv_touch (l := []) (f := (·.to .ended)) h hs ⟨rfl, rfl, rfl, rfl, rfl⟩ nofun
    (by rw [List.append_nil]; exact h.notices j) (fun _ => hover) (fun _ => Or.inl (Or.inr (Or.inl (Or.inr (Or.inr rfl)))))
    nofun nofun
  rwa [List.append_nil] at htouch

theorem closeIf_older (conn : Conn) :
    Older conn (if conn.session.watcher.isSome && conn.stage.live then { conn with closed := true } else conn) := by
  split
  · exact ⟨rfl, fun _ => rfl, id, id⟩
  · exact Older.refl conn

theorem closeIf_over {w : World} {c : Nat} {conn conn' : Conn} (hconn : w.conns[c]? = some conn)
    (hconn' : (closeIf c w).conns[c]? = some conn') (hwatch : conn.session.watcher.isSome = true) :
    conn'.closed = true ∨ conn'.failed = true ∨ conn'.stage.live = false := by
  obtain rfl := Option.some.inj ((setConn_same _ hconn).symm.trans hconn')
  rw [hwatch, Bool.true_and]
  split
  · exact Or.inl rfl
  · next hlive => exact Or.inr (Or.inr (by simpa using hlive))

theorem inv_closed_end {w : World} {j : Nat} {s : Subscription} (h : Inv w) (hs : w.subs[j]? = some s) :
    Inv ((closeIf s.conn w).setSub j (·.to .ended)) := by
  obtain ⟨conn, hconn, hkey, -⟩ := (h.subs j s hs).attended
  refine inv_end (inv_setConn h s.conn fun conn _ => closeIf_older conn) hs fun hw conn' hconn' => ?_
  exact closeIf_over hconn hconn' (hkey ▸ hw)

theorem unsubscribe_closeIf (j c : Nat) (w : World) : closeIf c (unsubscribe j w) = unsubscribe j (closeIf c w) := by
  have hsubs : (closeIf c w).subs = w.subs := rfl
  unfold unsubscribe
  rw [hsubs]
  cases w.subs[j]? with
  | none => rfl
  | some s =>
    dsimp only
    by_cases hk : w.hub s.key = some j
    · rw [if_pos hk, if_pos (show (closeIf c w).hub s.key = some j from hk)]
      rfl
    · rw [if_neg hk, if_neg (show ¬ (closeIf c w).hub s.key = some j from hk)]
      rfl

theorem inv_deliver {w : World} {j : Nat} {s : Subscription} {conn : Conn} (h : Inv w) (hs : w.subs[j]? = some s)
    (hconn : w.conns[s.conn]? = some conn) (d : Delivery) : Inv (deliver j s conn w d) := by
  have ok := h.subs j s hs
  unfold deliver
  cases d with
  | check now =>
    dsimp only
    split
    · next hp =>
      generalize (if conn.stage.live = true then waitingMail s.identity s.device now w.db else []) = mail
      refine inv_touch (l := [.checked j mail]) h hs ⟨rfl, rfl, rfl, rfl, rfl⟩ (fun e he => List.mem_singleton.1 he ▸ rfl)
        ((h.notices j).append nofun) nofun (fun hd => ?_) nofun nofun
      cases mail with
      | cons m mail => exact Or.inl (Or.inl (by simp))
      | nil =>
        rcases ok.told hd with (hw | hphase | hpending) | ⟨hput, hmail⟩
        · exact Or.inl (Or.inl (by simp [hw]))
        · rw [hp.1] at hphase
          exact (hphase.elim nofun fun h => h.elim nofun nofun)
        · exact Or.inl (Or.inr (Or.inr hpending))
        · refine Or.inr ⟨hput.append ?_, hmail.append ?_⟩
          · rintro ⟨-, m, d, he⟩
            nomatch he
          · rintro ⟨mail, he, hne⟩
            exact hne (Entry.checked.inj he).2.symm
    · exact h
  | contextDone =>
    dsimp only
    split
    · next hp =>
      refine inv_end h hs fun _ conn' hconn' => ?_
      obtain rfl := Option.some.inj (hconn.symm.trans hconn')
      exact Or.inr (Or.inr hp.2)
    · exact h
  | subDone =>
    dsimp only
    split
    · exact inv_closed_end h hs
    · exact h
  | take =>
    dsimp only
    split
    · exact inv_touch (l := [.taken j]) h hs ⟨rfl, rfl, rfl, rfl, rfl⟩ (fun e he => List.mem_singleton.1 he ▸ rfl)
        ((h.notices j).append nofun) nofun (fun _ => Or.inl (Or.inr (Or.inl (Or.inl rfl)))) (fun _ => Log.since_last trivial)
        nofun
    · exact h
  | entitle now =>
    dsimp only
    split
    · next hp =>
      split
      · exact inv_touch (l := [.entitled j]) h hs ⟨rfl, rfl, rfl, rfl, rfl⟩ (fun e he => List.mem_singleton.1 he ▸ rfl)
          ((h.notices j).append nofun) nofun (fun _ => Or.inl (Or.inr (Or.inl (Or.inr (Or.inl rfl))))) nofun
          (fun _ => Log.since_last (ok.taken hp))
      · rw [unsubscribe_closeIf]
        exact inv_unsubscribe (inv_closed_end h hs) j
    · exact h
  | write success =>
    dsimp only
    split
    · next hp =>
      split
      · refine inv_touch (l := [.notice j]) h hs ⟨rfl, rfl, rfl, rfl, rfl⟩ (fun e he => List.mem_singleton.1 he ▸ rfl)
          ((h.notices j).append fun _ => ok.checked hp) nofun (fun _ => Or.inr ⟨Log.Followed.answer rfl ?_, Log.Followed.answer rfl ?_⟩)
          nofun nofun
        · rintro ⟨-, m, d, he⟩
          nomatch he
        · rintro ⟨mail, he, -⟩
          nomatch he
      · refine inv_end (w := w.setConn s.conn fun conn => { conn with failed := true })
          (inv_setConn h s.conn fun conn _ => ⟨rfl, id, fun _ => rfl, id⟩) hs fun _ conn' hconn' => ?_
        obtain rfl := Option.some.inj ((setConn_same _ hconn).symm.trans hconn')
        exact Or.inr (Or.inl rfl)
    · exact h

end Arveil.Watch

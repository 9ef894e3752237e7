import Arveil.Proofs.Settling.Desk

/-! Issuing, listing and revoking an invitation keep what holds, whatever is done between their
requests. -/

namespace Arveil.Settling

variable {pf : Platform} {cards : Cards}

abbrev Goes (pf : Platform) {α : Type} (t : Talk α) (Post : Except CliError α → Desk → Prop) (d : Desk) : Prop :=
  Dialog.Safe (Guar pf) (Rely pf) (fun _ _ _ => True) Post t d

def Ends (pf : Platform) {α : Type} (_ : Except CliError α) (d : Desk) : Prop := Inv pf d

section commands

variable {α β : Type} {d : Desk}

theorem goes_lift {r : Except CliError α} {g : α → Talk β} {Post : Except CliError β → Desk → Prop}
    (herror : ∀ e, r = .error e → Post (.error e) d) (hok : ∀ a, r = .ok a → Goes pf (g a) Post d) : Goes pf (lift r >>= g) Post d := by
  cases r with
  | error e => exact herror e rfl
  | ok a => exact hok a rfl

theorem goes_read {f : Desk → α} {g : α → Talk β} {Post : Except CliError β → Desk → Prop} (h : Goes pf (g (f d)) Post d) :
    Goes pf (Dialog.call (Prog.read f) >>= g) Post d := ⟨fun hi => hi, h⟩

theorem save_run (op : InvitationOperation) (d : Desk) : onProfile (save op) d = (.ok (), putBack op d) := rfl

theorem goes_save {op : InvitationOperation} {g : Unit → Talk β} {Post : Except CliError β → Desk → Prop} (h : Inv pf d) (ho : Held d op)
    (hg : Goes pf (g ()) Post (putBack op d)) : Goes pf (Dialog.call (onProfile (save op)) >>= g) Post d :=
  ⟨fun _ => h.store ho, hg⟩

theorem policy_goes {Post : Except CliError Policy → Desk → Prop} (h : ∀ r d', Env d d' → Inv pf d' → Post r d') (hd : Inv pf d) :
    Goes pf policy Post d := by
  unfold policy
  refine Dialog.safe_question_bind fun d' hs a _ => ?_
  have h' (r : Except CliError Policy) : Post r d' := h r d' hs.env (hs.inv hd)
  split
  · split
    · exact h' _
    · exact h' _
  · exact h' _
  · exact h' _
  · exact h' _

/-- A new token is no token of this device's. -/
def Fresh (pf : Platform) (d : Desk) (draw : Draw) : Prop := ∀ p ∈ d.issued, p.1 ≠ pf.crypto.sha256 draw.token

theorem chosen_goes {id : Option Bytes} {draw : Draw} {policy : Policy} {now : Int} (h : Inv pf d) (hf : id = none → Fresh pf d draw) :
    Inv pf (chosen pf cards id draw policy now d).2 ∧
      ∀ op, (chosen pf cards id draw policy now d).1 = .ok op → Held (chosen pf cards id draw policy now d).2 op := by
  unfold chosen
  cases id with
  | some id =>
    simp only [Prog.bind_run, Prog.read_run]
    cases ho : d.outgoing id with
    | none => exact ⟨h, nofun⟩
    | some op =>
      refine ⟨h, fun op' he => ?_⟩
      obtain rfl := Except.ok.inj he
      exact h.held ho
  | none =>
    simp only [Prog.bind_run, Prog.read_run]
    cases hfind : (operations d.store).find? fun o => o.state = "issuing" with
    | some op =>
      refine ⟨h, fun op' he => ?_⟩
      obtain rfl := Except.ok.inj he
      obtain ⟨hmem, hdirection⟩ := List.mem_filter.1 ((List.mem_insertionSort _).1 (List.mem_of_find?_eq_some hfind))
      have ho : d.outgoing op.id = some op := Table.get?_eq_some.2 ⟨hmem, by rw [of_decide_eq_true hdirection]⟩
      exact h.held ho
    | none =>
      simp only [Prog.bind_run, Prog.read_run]
      cases cards.link d.store draw.token draw.secret (asI64 (policy.serverTime + policy.ttl)) with
      | error e => exact ⟨h, nofun⟩
      | ok link =>
        simp only [Prog.ofExcept_ok, save_run]
        set op : InvitationOperation := { blank now (pf.crypto.sha256 draw.token) with
          requestKey := requestKey policy.serverTime draw.key
          secret := draw.secret
          state := "issuing"
          expiresAt := asI64 (policy.serverTime + policy.ttl)
          link := link } with hop
        have hunused : ∀ c ∈ d.connected, c.receipt.id ≠ op.id := by
          intro c hc hid
          obtain ⟨e, -, -, -, ⟨secret, -, hmem⟩, -⟩ := (h.rightful c hc).claimed
          exact hf rfl _ hmem hid
        -- the invitation is noted before it is stored
        have hnoted : Inv pf { d with issued := (op.id, op.secret) :: d.issued } := by
          have hi : ∀ p ∈ d.issued, p ∈ (op.id, op.secret) :: d.issued := fun p hp => List.mem_cons_of_mem _ hp
          exact ⟨⟨h.logged, fun c hc => (h.rightful c hc).env hi fun e he => he, h.once⟩,
            fun id o ho hl => hi _ (h.secrets id o ho hl),
            fun e he => ⟨(h.hellos e he).1, (h.hellos e he).2.env hi fun e he => he⟩, h.named, h.kept⟩
        have hheld : Held { d with issued := (op.id, op.secret) :: d.issued } op := by
          refine ⟨rfl, fun _ => List.mem_cons_self, fun o ho => ?_, fun hg => absurd rfl hg, fun c hc hid => absurd hid (hunused c hc)⟩
          refine Classical.byContradiction fun hg => ?_
          obtain ⟨c, hc, hid, -⟩ := h.logged _ o ho hg
          exact hunused c hc hid
        refine ⟨hnoted.store hheld, fun op' he => ?_⟩
        obtain rfl := Except.ok.inj he
        exact hheld.store

theorem create_goes {op : InvitationOperation} {ttl : UInt64} (h : Inv pf d) (ho : Held d op) : Goes pf (create cards op ttl) (Ends pf) d := by
  unfold create
  refine Dialog.safe_question_bind fun d' hs a _ => ?_
  have h' := hs.inv h
  have ho' := ho.env hs.env
  split
  · exact h'
  · refine goes_lift (fun e _ => h') fun op' hop => goes_lift (fun e _ => h') fun link _ => ?_
    have hnew : Held d' { op' with link := link } := (ho'.record hop).congr rfl rfl (Or.inl rfl) rfl
    exact goes_save h' hnew (h'.store hnew)
  · exact h'

theorem issue_goes {id : Option Bytes} {draw : Draw} {now : Int} (h : Inv pf d) (hf : id = none → Fresh pf d draw) :
    Goes pf (issue pf cards id draw now) (Ends pf) d := by
  refine Dialog.safe_bind (policy_goes (fun r d' he h' => ?_) h)
  cases r with
  | error e => exact h'
  | ok policy =>
    have hf' : id = none → Fresh pf d' draw := by
      intro hid
      rw [Fresh, he.issued]
      exact hf hid
    show Goes pf (if policy.canInvite = false then _ else _) _ d'
    split
    · exact h'
    · obtain ⟨hinv, hheld⟩ : Inv pf (chosen pf cards id draw policy now d').2 ∧ _ := chosen_goes h' hf'
      refine Dialog.safe_call_bind (fun _ => hinv) (fun e d₁ hrun => ?_) fun op d₁ hrun => ?_
      · rw [hrun] at hinv
        exact hinv
      · rw [hrun] at hinv hheld
        show Goes pf (if op.state ≠ "issuing" then _ else _) _ d₁
        split
        · exact hinv
        · refine Dialog.safe_bind (Dialog.safe_mono (fun r d₂ h₂ => ?_) (create_goes hinv (hheld op rfl)))
          cases r with
          | error e => exact h₂
          | ok op => exact h₂

theorem saveRecord_inv (now : Int) (record : InvitationRecord) (h : Inv pf d) : Inv pf (saveRecord now record d).2 := by
  have hheld : Held d ((d.outgoing record.id).getD (blank now record.id)) := by
    cases ho : d.outgoing record.id with
    | none => exact held_blank now ho
    | some op => exact h.held ho
  unfold saveRecord
  simp only [Prog.bind_run, Prog.read_run]
  cases hop : Net.applyRecord now ((d.outgoing record.id).getD (blank now record.id)) record with
  | error e => exact h
  | ok op => exact h.store (hheld.record hop)

theorem saveRecords_inv (now : Int) (records : List InvitationRecord) (h : Inv pf d) :
    Inv pf (Prog.forEach records (saveRecord now) d).2 :=
  Prog.keeps_forEach (R := Guar pf) (fun _ hi => hi) (fun _ _ _ h h' hi => h' (h hi)) records
    (fun record _ _ hi => saveRecord_inv now record hi) d h

theorem pages_goes (n : Nat) : ∀ (cursor : UInt64) (d : Desk), 2 ^ 64 - cursor.toNat ≤ n → Inv pf d → Goes pf (pages cursor) (Ends pf) d := by
  induction n with
  | zero =>
    intro cursor d hn
    have := cursor.toNat_lt
    omega
  | succ n ih =>
    intro cursor d hn h
    rw [pages]
    refine Dialog.safe_question_bind fun d' hs a _ => ?_
    have h' := hs.inv h
    split
    · exact h'
    · next records next _ =>
      have hsaved := saveRecords_inv a.now records h'
      refine Dialog.safe_call_bind (fun _ => hsaved) (fun e d₁ hrun => ?_) fun u d₁ hrun => ?_
      · rw [hrun] at hsaved
        exact hsaved
      · rw [hrun] at hsaved
        split
        · exact hsaved
        · split
          · exact hsaved
          · next hlater =>
            refine ih next d₁ ?_ hsaved
            have := UInt64.lt_iff_toNat_lt.1 (UInt64.not_le.1 hlater)
            have := next.toNat_lt
            omega
    · exact h'

theorem mem_cleanup {now : Int} {st : Store} {o : InvitationOperation} (hdirection : o.direction = .outgoing) :
    o ∈ (invitationCleanup now st).invitationOperations ↔ o ∈ st.invitationOperations ∧ outdated now o = false := by
  show o ∈ Table.delete (outdated now) _ ↔ _
  rw [Table.mem_delete]
  refine and_congr_left fun hnew => ⟨fun hm => ?_, fun hm => ?_⟩
  · obtain ⟨o', ho', rfl⟩ := Table.mem_update.1 hm
    split at hdirection
    · next hclear =>
      rw [if_pos hclear] at hnew
      rcases Bool.or_eq_true_iff.1 hclear with hold | hincoming
      · have hkeep : outdated now o' = false := hnew
        rw [hold] at hkeep
        cases hkeep
      · have hout : o'.direction = .outgoing := hdirection
        simp [hout] at hincoming
    · next hclear => rwa [if_neg hclear]
  · refine Table.mem_update_neg hm ?_
    simp [hnew, hdirection]

theorem outgoing_cleanup {now : Int} {id : Bytes} {op : InvitationOperation} :
    (d.setStore (invitationCleanup now d.store)).outgoing id = some op ↔ d.outgoing id = some op ∧ outdated now op = false := by
  show (invitationCleanup now d.store).invitationOperations.get? (id, .outgoing) = some op ↔
    d.store.invitationOperations.get? (id, .outgoing) = some op ∧ _
  rw [Table.get?_eq_some, Table.get?_eq_some]
  constructor
  · rintro ⟨hm, hk⟩
    obtain ⟨hm', hnew⟩ := (mem_cleanup (Prod.mk.inj hk).2).1 hm
    exact ⟨⟨hm', hk⟩, hnew⟩
  · rintro ⟨⟨hm, hk⟩, hnew⟩
    exact ⟨(mem_cleanup (Prod.mk.inj hk).2).2 ⟨hm, hnew⟩, hk⟩

theorem cleanup_inv (now : Int) (h : Inv pf d) : Inv pf (d.setStore (invitationCleanup now d.store)) := by
  have hhellos {e : InvitationHello} (he : e ∈ (invitationCleanup now d.store).invitationHellos) :
      e ∈ d.store.invitationHellos ∧ ∀ o ∈ d.store.invitationOperations, outdated now o = true → o.id ≠ e.invitationId := by
    obtain ⟨hm, hnone⟩ := Table.mem_delete.1 he
    refine ⟨hm, fun o ho hold hid => ?_⟩
    rw [List.any_eq_false] at hnone
    exact hnone o ho (by simp [hold, hid])
  refine h.shrink rfl rfl (fun e he => he) (fun id op ho => (outgoing_cleanup.1 ho).1) (fun e he => (hhellos he).1) fun id op ho => ?_
  cases hold : outdated now op with
  | false => exact Or.inl (outgoing_cleanup.2 ⟨ho, hold⟩)
  | true =>
    refine Or.inr ⟨Option.eq_none_iff_forall_not_mem.2 fun o ho' => ?_, fun e he hid => ?_⟩
    · obtain ⟨ho'', hnew⟩ := outgoing_cleanup.1 ho'
      obtain rfl := Option.some.inj (ho.symm.trans ho'')
      rw [hold] at hnew
      cases hnew
    · obtain ⟨hm, hk⟩ := Table.get?_eq_some.1 ho
      exact (hhellos he).2 op hm hold ((Prod.mk.inj hk).1.trans hid.symm)

theorem list_goes (now : Int) (h : Inv pf d) : Goes pf (list now) (Ends pf) d := by
  refine Dialog.safe_bind (policy_goes (fun r d' he h' => ?_) h)
  cases r with
  | error e => exact h'
  | ok policy =>
    refine Dialog.safe_bind (Dialog.safe_mono (fun r d₁ h₁ => ?_) (pages_goes _ 0 d' (le_refl _) h'))
    cases r with
    | error e => exact h₁
    | ok u => exact ⟨fun _ => cleanup_inv now h₁, cleanup_inv now h₁⟩

theorem resolveCreate_goes {op : InvitationOperation} {Post : Except CliError Bool → Desk → Prop}
    (h : ∀ r d', Env d d' → Inv pf d' → Post r d') (hd : Inv pf d) : Goes pf (resolveCreate op) Post d := by
  unfold resolveCreate
  refine Dialog.safe_question_bind fun d₁ hs₁ a _ => ?_
  have h₁ (r : Except CliError Bool) : Post r d₁ := h r d₁ hs₁.env (hs₁.inv hd)
  split
  · refine Dialog.safe_question_bind fun d₂ hs₂ a' _ => ?_
    have h₂ (r : Except CliError Bool) : Post r d₂ := h r d₂ (hs₁.env.trans hs₂.env) (hs₂.inv (hs₁.inv hd))
    split
    · exact h₂ _
    · exact h₂ _
    · exact h₂ _
  · exact h₁ _
  · exact h₁ _

theorem orGet_goes {id : Bytes} {a : Answer} {d d' : Desk} (he : Env d d') (hi : Inv pf d') :
    Goes pf (orGet id a) (fun r d₁ => ∃ a', r = .ok a' ∧ Env d d₁ ∧ Inv pf d₁) d' := by
  unfold orGet
  split
  · exact fun d₁ hs a' _ => ⟨a', rfl, he.trans hs.env, hs.inv hi⟩
  · exact ⟨a, rfl, he, hi⟩

theorem revoked_goes {id : Bytes} {Post : Except CliError (Int × InvitationRecord) → Desk → Prop}
    (h : ∀ r d', Env d d' → Inv pf d' → Post r d') (hd : Inv pf d) : Goes pf (revoked id) Post d := by
  unfold revoked
  refine Dialog.safe_question_bind fun d₁ hs₁ a _ => Dialog.safe_bind ?_
  -- the relay's last answer, whichever of the two it is
  refine Dialog.safe_mono ?_ (orGet_goes hs₁.env (hs₁.inv hd))
  rintro _ d' ⟨a', rfl, he, hi⟩
  dsimp only
  have h' (r : Except CliError (Int × InvitationRecord)) : Post r d' := h r d' he hi
  split
  · exact h' _
  · exact h' _
  · exact h' _

theorem finishRevoke_goes {op : InvitationOperation} (h : Inv pf d) (ho : Held d op) : Goes pf (finishRevoke op) (Ends pf) d := by
  refine Dialog.safe_bind (revoked_goes (fun r d' he h' => ?_) h)
  cases r with
  | error e => exact h'
  | ok r =>
    refine goes_lift (fun e _ => h') fun op' hop => ?_
    have hnew : Held d' (if op'.state = "revoked" then withdrawn op' else op') := by
      have hrecord := (ho.env he).record hop
      split
      · exact hrecord.congr rfl rfl (Or.inr rfl) rfl
      · exact hrecord
    exact ⟨fun _ => h'.store hnew, h'.store hnew⟩

theorem intend_goes (id : Bytes) (h : Inv pf d) :
    Inv pf (intend id d).2 ∧ ∀ op, (intend id d).1 = .ok op → Held (intend id d).2 op := by
  unfold intend
  simp only [Prog.bind_run, Prog.read_run]
  cases ho : d.outgoing id with
  | none =>
    refine ⟨h, fun op he => ?_⟩
    cases he
  | some op =>
    simp only [Prog.ofOption_some]
    by_cases hg : op.groupId = []
    · have hnew : Held d { op with state := "revoke-pending" } := (h.held ho).congr rfl rfl (Or.inl rfl) rfl
      rw [Prog.when_neg (not_not.2 hg)]
      refine ⟨h.store hnew, fun op' he => ?_⟩
      obtain rfl := Except.ok.inj he
      exact hnew.store
    · rw [Prog.when_pos hg]
      refine ⟨h, fun op he => ?_⟩
      cases he

theorem revoke_goes (id : Bytes) (h : Inv pf d) : Goes pf (revoke id) (Ends pf) d := by
  obtain ⟨hinv, hheld⟩ := intend_goes id h
  refine Dialog.safe_call_bind (fun _ => hinv) (fun e d₁ hrun => ?_) fun op d₁ hrun => ?_
  · rw [hrun] at hinv
    exact hinv
  rw [hrun] at hinv hheld
  have ho : Held d₁ op := hheld op rfl
  have hrest (gone : Bool) {d' : Desk} (he : Env d₁ d') (h' : Inv pf d') : Goes pf
      (if gone = true then Dialog.call (onProfile (save (withdrawn { op with state := "revoked" }))) else finishRevoke op) (Ends pf) d' := by
    split
    · have hnew : Held d' (withdrawn { op with state := "revoked" }) := (ho.env he).congr rfl rfl (Or.inr rfl) rfl
      exact ⟨fun _ => h'.store hnew, h'.store hnew⟩
    · exact finishRevoke_goes h' (ho.env he)
  show Goes pf (resolve op >>= _) _ d₁
  refine Dialog.safe_bind ?_
  unfold resolve
  split
  · exact hrest false (.refl d₁) hinv
  · refine resolveCreate_goes (fun r d' he h' => ?_) hinv
    cases r with
    | error e => exact h'
    | ok gone => exact hrest gone he h'

end commands

end Arveil.Settling

import Arveil.Proofs.Settling.Commands

/-! Settling keeps what holds. The hellos it found are taken up one by one, and each is judged by
the operation that is read again before it. -/

namespace Arveil.Settling

open Client Receive

variable {pf : Platform}
variable {d d' : Desk} {h : InvitationHello} {op : InvitationOperation} {rest : List InvitationHello}

/-- A hello that a settling took up; where its invitation was connected, what is stored
names that conversation. -/
structure Live (pf : Platform) (d : Desk) (h : InvitationHello) : Prop where
  named : h.groupId ≠ []
  claims : Claims pf d h.groupId h.invitationId h.sender
  stored : ∀ c ∈ d.connected, c.receipt.id = h.invitationId → ∀ op, d.outgoing h.invitationId = some op → op.groupId = c.groupId

theorem Live.env (hl : Live pf d h) (he : Env d d') : Live pf d' h := by
  refine ⟨hl.named, hl.claims.env (fun p hp => he.issued ▸ hp) he.heard, fun c hc hid op ho => ?_⟩
  exact hl.stored c (he.connected ▸ hc) hid op (he.outgoing _ op ho)

theorem Inv.live (hi : Inv pf d) (hh : h ∈ d.store.invitationHellos) : Live pf d h := by
  obtain ⟨hnamed, hclaims⟩ := hi.hellos h hh
  refine ⟨hnamed, hclaims, fun c hc hid op ho => ?_⟩
  rcases hi.kept c hc with ⟨op', ho', hg⟩ | ⟨hnone, -⟩
  · rw [hid] at ho'
    obtain rfl := Option.some.inj (ho.symm.trans ho')
    exact hg
  · exact absurd hid.symm (hnone h hh)

/-- What holds between two hellos. -/
def Settled (pf : Platform) (rest : List InvitationHello) {α : Type} (_ : Except CliError α) (d : Desk) : Prop :=
  Inv pf d ∧ ∀ h ∈ rest, Live pf d h

/-- What settling a hello goes by, with the operation it read. -/
structure Ready (pf : Platform) (h : InvitationHello) (op : InvitationOperation) (rest : List InvitationHello) (d : Desk) : Prop where
  inv : Inv pf d
  live : Live pf d h
  rest : ∀ h' ∈ rest, Live pf d h'
  id : op.id = h.invitationId
  direction : op.direction = .outgoing
  secret : op.secret.length = 16 → (op.id, op.secret) ∈ d.issued
  standing : ∀ o, d.outgoing op.id = some o → o.state ≠ "revoked" ∧ o.state ≠ "revoke-pending"
  once : ∀ c ∈ d.connected, c.receipt.id = op.id → c.groupId = h.groupId

theorem Ready.rely {q : Question} (hr : Ready pf h op rest d) (hs : Rely pf q d d') : Ready pf h op rest d' := by
  refine ⟨hs.inv hr.inv, hr.live.env hs.env, fun h' hh => (hr.rest h' hh).env hs.env, hr.id, hr.direction, fun hl => ?_,
    fun o ho => hr.standing o (hs.env.outgoing _ o ho), fun c hc => hr.once c (hs.env.connected ▸ hc)⟩
  rw [hs.env.issued]
  exact hr.secret hl

theorem Ready.settled {α : Type} (hr : Ready pf h op rest d) (r : Except CliError α) : Settled pf rest r d := ⟨hr.inv, hr.rest⟩

theorem verifiedRouteCredential_goes {g : Bytes} {P : Desk → Prop} (hP : ∀ q d d', q.binding = some g → Rely pf q d d' → P d → P d')
    (r : Route) (hp : P d) : Goes pf (verifiedRouteCredential pf g r) (fun _ d => P d) d := by
  have hserved : Goes pf (servedCredential g r) (fun _ d => P d) d := by
    unfold servedCredential
    refine Dialog.safe_question_bind fun d₁ hs₁ a _ => ?_
    have h₁ := hP _ d d₁ rfl hs₁ hp
    split <;> exact h₁
  refine Dialog.safe_bind (Dialog.safe_mono (fun c d₁ h₁ => ?_) hserved)
  cases c with
  | error e => exact h₁
  | ok credential =>
    dsimp only
    split
    · exact h₁
    · refine Dialog.safe_question_bind fun d₂ hs₂ a _ => ?_
      have h₂ := hP _ d₁ d₂ rfl hs₂ h₁
      split
      · exact h₂
      · exact h₂
      · exact goes_lift (fun e _ => h₂) fun root _ => goes_lift (fun e _ => h₂) fun c _ => h₂
      · exact h₂

theorem skipDomain_goes {α : Type} {t : Talk α} {P : Desk → Prop} (ht : Goes pf t (fun _ d => P d) d) :
    Goes pf (skipDomain t) (fun _ d => P d) d := by
  refine Dialog.safe_bind (Dialog.safe_attempt (Dialog.safe_mono (fun r d₁ h₁ => ?_) ht))
  dsimp only
  split <;> exact h₁

theorem connectInvitation_ok {device text : Bytes} {st st' : Store} {u : Unit} (hdirection : op.direction = .outgoing)
    (hrun : Net.connectInvitation h op device text st = (.ok u, st')) :
    (∀ id, invitationOperation st' id .outgoing = if op.id = id then some op else invitationOperation st id .outgoing) ∧
      ∀ e ∈ st'.invitationHellos, e ∈ st.invitationHellos := by
  rw [Net.connectInvitation, Prog.unitOfWork_eq_ok] at hrun
  obtain ⟨u₁, st₁, h₁, hrun⟩ := Prog.bind_eq_ok.1 hrun
  obtain ⟨u₂, st₂, h₂, hrun⟩ := Prog.bind_eq_ok.1 hrun
  have hcontact : ContactBlind invitations := fun _ _ _ => rfl
  have hroute : invitations st₁ = invitations st := by
    have hfixed := fixes_contactRouteSave hcontact h.sender device text st
    rwa [h₁] at hfixed
  have hname : invitations st₂ = invitations st₁ := by
    have hfixed := fixes_adoptName hcontact h.sender h.name st₁
    rwa [h₂] at hfixed
  obtain ⟨hops, hhellos⟩ := Prod.mk.inj (hname.trans hroute)
  obtain rfl := (Prod.mk.inj hrun).2
  refine ⟨fun id => ?_, fun e he => ?_⟩
  · show invitationOperation (invitationOperationSave op (requestResolve h.groupId true st₂)) id .outgoing = _
    rw [outgoing_save, hdirection]
    have hsame : invitationOperation (requestResolve h.groupId true st₂) id .outgoing = invitationOperation st id .outgoing := by
      show st₂.invitationOperations.get? (id, .outgoing) = _
      rw [hops]
      rfl
    by_cases hid : op.id = id
    · rw [if_pos (by rw [hid]), if_pos hid]
    · rw [if_neg fun hk => hid (Prod.mk.inj hk).1, if_neg hid, hsame]
  · have hm : e ∈ st₂.invitationHellos := (Table.mem_delete.1 he).1
    exact hhellos ▸ hm

def connectedDesk (c : Connection) (st : Store) (d : Desk) : Desk := { d.setStore st with connected := c :: d.connected }

theorem connected_settled {op' : InvitationOperation} {receipt : InvitationRecord} {st : Store} (hr : Ready pf h op rest d)
    (hd : declined d.store h.groupId = false) (hid : receipt.id = op.id) (hclaimed : receipt.claimedIdentity = h.sender)
    (hid' : op'.id = op.id) (hsecret : op'.secret = op.secret) (hgroup : op'.groupId = h.groupId)
    (hout : ∀ id, invitationOperation st id .outgoing = if op'.id = id then some op' else d.outgoing id)
    (hhellos : ∀ e ∈ st.invitationHellos, e ∈ d.store.invitationHellos) :
    Settled pf rest (.ok () : Except CliError Unit) (connectedDesk ⟨h.groupId, receipt, d.store⟩ st d) := by
  have hi := hr.inv
  have hout' : ∀ id, (connectedDesk ⟨h.groupId, receipt, d.store⟩ st d).outgoing id = if op.id = id then some op' else d.outgoing id := by
    intro id
    rw [← hid']
    exact hout id
  have hgroup' : ∀ c ∈ d.connected, c.receipt.id = receipt.id → c.groupId = h.groupId := fun c hc hcid =>
    hr.once c hc (hcid.trans hid)
  refine ⟨⟨⟨fun id o ho hg => ?_, fun c hc => ?_, fun c hc c' hc' hcid => ?_⟩, fun id o ho hl => ?_, fun e he => hi.hellos e (hhellos e he),
    fun c hc => ?_, fun c hc => ?_⟩, fun h' hh => ⟨(hr.rest h' hh).named, (hr.rest h' hh).claims, fun c hc hcid o ho => ?_⟩⟩
  · rw [hout'] at ho
    split at ho
    · next hk =>
      obtain rfl := Option.some.inj ho
      exact ⟨_, List.mem_cons_self, hid.trans hk, hgroup.symm⟩
    · obtain ⟨c, hc, hcid, hcg⟩ := hi.logged id o ho hg
      exact ⟨c, List.mem_cons_of_mem _ hc, hcid, hcg⟩
  · rcases List.mem_cons.1 hc with rfl | hc
    · refine ⟨?_, hd, fun o ho => hr.standing o (hid ▸ ho)⟩
      show Claims pf d h.groupId receipt.id receipt.claimedIdentity
      rw [hid, hr.id, hclaimed]
      exact hr.live.claims
    · exact ⟨(hi.rightful c hc).claimed, (hi.rightful c hc).undeclined, (hi.rightful c hc).standing⟩
  · rcases List.mem_cons.1 hc with rfl | hc <;> rcases List.mem_cons.1 hc' with rfl | hc'
    · rfl
    · exact (hgroup' c' hc' hcid.symm).symm
    · exact hgroup' c hc hcid
    · exact hi.once c hc c' hc' hcid
  · rw [hout'] at ho
    split at ho
    · next hk =>
      obtain rfl := Option.some.inj ho
      rw [hsecret] at hl ⊢
      exact hk ▸ hr.secret hl
    · exact hi.secrets id o ho hl
  · rcases List.mem_cons.1 hc with rfl | hc
    · exact hr.live.named
    · exact hi.named c hc
  · by_cases hk : op.id = c.receipt.id
    · refine Or.inl ⟨op', by rw [hout', if_pos hk], hgroup.trans ?_⟩
      rcases List.mem_cons.1 hc with rfl | hc
      · rfl
      · exact (hr.once c hc hk.symm).symm
    · have hc : c ∈ d.connected := (List.mem_cons.1 hc).resolve_left fun he => hk (he ▸ hid.symm)
      rcases hi.kept c hc with ⟨o, ho, hg⟩ | ⟨hnone, hunused⟩
      · exact Or.inl ⟨o, by rw [hout', if_neg hk, ho], hg⟩
      · refine Or.inr ⟨fun e he => hnone e (hhellos e he), fun o ho => hunused o ?_⟩
        rwa [hout', if_neg hk] at ho
  · by_cases hk : op.id = h'.invitationId
    · rw [hout', if_pos hk] at ho
      obtain rfl := Option.some.inj ho
      refine hgroup.trans ?_
      rcases List.mem_cons.1 hc with rfl | hc
      · rfl
      · exact (hr.once c hc (hcid.trans hk.symm)).symm
    · rw [hout', if_neg hk] at ho
      have hc : c ∈ d.connected := (List.mem_cons.1 hc).resolve_left fun he => hk ((he ▸ hcid : receipt.id = _) ▸ hid.symm)
      exact (hr.rest h' hh).stored c hc hcid o ho

theorem connect_settled {receipt : InvitationRecord} {now : Int} {device text : Bytes} (hr : Ready pf h op rest d)
    (hd : declined d.store h.groupId = false) (hclaimed : receipt.claimedIdentity = h.sender) :
    Settled pf rest (.ok () : Except CliError Unit) (connect h op receipt now device text d).2 := by
  unfold connect
  cases hop : Net.applyRecord now op receipt with
  | error e => exact hr.settled _
  | ok op' =>
    obtain ⟨hid, hid', hdirection, hsecret, -⟩ := applyRecord_ok hop
    rcases hrun : Net.connectInvitation h { op' with state := "connected", groupId := h.groupId, link := "" } device text d.store with ⟨e | u, st⟩
    · have hsame : st = d.store := Prog.unitOfWork_error hrun
      simp only [Prog.bind_run, Prog.ofExcept_ok, Prog.read_run, onProfile, Prog.zoom, storage, Prog.mapError, hrun, hsame]
      exact hr.settled _
    · simp only [Prog.bind_run, Prog.ofExcept_ok, Prog.read_run, onProfile, Prog.zoom, storage, Prog.mapError, hrun]
      have hnew : ({ op' with state := "connected", groupId := h.groupId, link := "" } : InvitationOperation).direction = .outgoing :=
        hdirection.trans hr.direction
      obtain ⟨hout, hhellos⟩ := connectInvitation_ok hnew hrun
      refine connected_settled hr hd hid.symm hclaimed ?_ ?_ ?_ hout hhellos
      · exact hid'
      · exact hsecret
      · rfl

theorem settlePeers_goes {group : Bytes} {receipt : InvitationRecord} (hclaimed : receipt.claimedIdentity = h.sender) (peers : List Peer) :
    ∀ {d : Desk}, Ready pf h op rest d ∧ declined d.store h.groupId = false →
      Goes pf (settlePeers pf group h op receipt peers) (Settled pf rest) d := by
  induction peers with
  | nil => exact fun hr => hr.1.settled _
  | cons peer rest' ih =>
    intro d hr
    unfold settlePeers
    split
    · exact ih hr
    · next text _ =>
      refine goes_lift (fun e _ => hr.1.settled _) fun parsed _ => ?_
      -- the answer stands while the routes of this conversation are checked
      have hstable (q : Question) (d d' : Desk) (hq : q.binding = some h.groupId) (hs : Rely pf q d d')
          (hr : Ready pf h op rest d ∧ declined d.store h.groupId = false) :
          Ready pf h op rest d' ∧ declined d'.store h.groupId = false := ⟨hr.1.rely hs, hs.spared _ hq hr.2⟩
      have hverified := skipDomain_goes (verifiedRouteCredential_goes hstable parsed hr)
      refine Dialog.safe_bind (Dialog.safe_mono (fun c d₁ h₁ => ?_) hverified)
      match c with
      | .error e => exact h₁.1.settled _
      | .ok none => exact ih h₁
      | .ok (some (now, credential)) =>
        show Goes pf (if Net.someLeafBinds (pf.mlsRoster group) parsed.deviceId credential.mlsSignaturePublicKey = true then _ else _) _ d₁
        split
        · have hconnected : Settled pf rest (.ok () : Except CliError Unit) (connect h op receipt now parsed.deviceId text d₁).2 :=
            connect_settled h₁.1 h₁.2 hclaimed
          exact ⟨fun _ => hconnected.1, hconnected⟩
        · exact ih h₁

theorem forget_settled {d : Desk} (hi : Inv pf d) (hrest : ∀ h' ∈ rest, Live pf d h') :
    Goes pf (forget h) (Settled pf rest) d := by
  have hforgot : Inv pf (d.setStore (invitationHelloRemove h.groupId d.store)) :=
    hi.shrink rfl rfl (fun e he => he) (fun id op ho => ho) (fun e he => (Table.mem_delete.1 he).1) fun id op ho => Or.inl ho
  refine ⟨fun _ => hforgot, hforgot, fun h' hh => ?_⟩
  exact ⟨(hrest h' hh).named, (hrest h' hh).claims, (hrest h' hh).stored⟩

theorem settleClaim_goes {d : Desk} {receipt : InvitationRecord} (hr : Ready pf h op rest d) :
    Goes pf (settleClaim pf h op receipt) (Settled pf rest) d := by
  unfold settleClaim
  split
  · exact hr.settled _
  · next hreceipt =>
    rw [not_or, not_or, not_or, not_not, not_not, not_not] at hreceipt
    refine goes_read ?_
    cases hd : declined d.store h.groupId with
    | true => exact forget_settled hr.inv hr.rest
    | false =>
      refine goes_read ?_
      cases (conversations d.store).find? fun c => c.groupId = h.groupId with
      | none => exact hr.settled _
      | some conv =>
        have hsame : (onProfile (pf.loadGroup h.groupId) d).2 = d := by
          show Desk.setStore (pf.loadGroup h.groupId d.store).2 d = d
          rw [show (pf.loadGroup h.groupId d.store).2 = d.store from fixes_loadGroup (f := id) h.groupId d.store]
          rfl
        refine Dialog.safe_call_bind (fun hi => hsame.symm ▸ hi) (fun e d₁ hrun => ?_) fun group d₁ hrun => ?_
        · rw [hrun] at hsame
          subst hsame
          exact hr.settled _
        · rw [hrun] at hsame
          subst hsame
          exact settlePeers_goes hreceipt.2.2.1 _ ⟨hr, hd⟩

theorem settleHello_goes {d : Desk} (hi : Inv pf d) (hh : Live pf d h) (hrest : ∀ h' ∈ rest, Live pf d h') :
    Goes pf (settleHello pf h) (Settled pf rest) d := by
  refine goes_read ?_
  cases ho : d.outgoing h.invitationId with
  | none => exact ⟨hi, hrest⟩
  | some op =>
    dsimp only
    split
    · exact ⟨hi, hrest⟩
    · next hopen =>
      rw [not_or, not_or, not_and, not_not] at hopen
      obtain ⟨hrevoked, hpending, hgroup⟩ := hopen
      obtain ⟨hid, hdirection⟩ := outgoing_id ho
      have hready : Ready pf h op rest d := by
        refine ⟨hi, hh, hrest, hid, hdirection, fun hl => hid ▸ hi.secrets _ op ho hl, fun o ho' => ?_, fun c hc hcid => ?_⟩
        · rw [hid] at ho'
          obtain rfl := Option.some.inj (ho.symm.trans ho')
          exact ⟨hrevoked, hpending⟩
        · have hstored := hh.stored c hc (hcid.trans hid) op ho
          exact hstored.symm.trans (hgroup fun hg => hi.named c hc (hstored.symm.trans hg))
      refine Dialog.safe_question_bind fun d₁ hs₁ a _ => ?_
      have h₁ := hready.rely hs₁
      split
      · exact forget_settled h₁.inv h₁.rest
      · exact h₁.settled _
      · exact settleClaim_goes h₁
      · exact h₁.settled _

theorem settleHellos_goes (hellos : List InvitationHello) : ∀ {d : Desk}, Inv pf d → (∀ h ∈ hellos, Live pf d h) →
    Goes pf (settleHellos pf hellos) (Ends pf) d := by
  induction hellos with
  | nil => exact fun hi _ => hi
  | cons h rest ih =>
    intro d hi hlive
    have hhello := settleHello_goes hi (hlive h List.mem_cons_self) fun h' hh => hlive h' (List.mem_cons_of_mem h hh)
    refine Dialog.safe_bind (Dialog.safe_mono (fun r d₁ h₁ => ?_) hhello)
    cases r with
    | error e => exact h₁.1
    | ok u => exact ih h₁.1 h₁.2

theorem settle_goes {d : Desk} (hi : Inv pf d) : Goes pf (settle pf) (Ends pf) d :=
  goes_read (settleHellos_goes _ hi fun _ hh => hi.live hh)

end Arveil.Settling

import Arveil.Proofs.Settling.Hellos

/-! What holds of the desk between the commands, and of the operation a command keeps in hand
while others run. -/

namespace Arveil.Settling

open Client Receive

variable {pf : Platform}

/-- A leaf whose device and key stand in a credential under a root of `identity`. -/
def BoundTo (cx : Crypto) (identity : Bytes) (m : Member) : Prop :=
  ∃ device root signed, m.deviceId = some device ∧ Identity.identityId cx root = identity ∧
    Identity.Names cx signed root device m.signatureKey

/-- A leaf of `identity` sent a hello in `groupId` with the id and the secret of an
invitation this device issued. -/
def Claims (pf : Platform) (d : Desk) (groupId id identity : Bytes) : Prop :=
  ∃ e ∈ d.heard, e.groupId = groupId ∧ e.hello.invitation = some id ∧
    (∃ secret, e.hello.secret = some secret ∧ (id, secret) ∈ d.issued) ∧ ∃ m, e.leaf = some m ∧ BoundTo pf.crypto identity m

structure Rightful (pf : Platform) (d : Desk) (c : Connection) : Prop where
  claimed : Claims pf d c.groupId c.receipt.id c.receipt.claimedIdentity
  undeclined : declined c.before c.groupId = false
  standing : ∀ op, invitationOperation c.before c.receipt.id .outgoing = some op → op.state ≠ "revoked" ∧ op.state ≠ "revoke-pending"

/-- Every invitation that names a conversation was connected to it, only the claimant was
connected, and each invitation to one conversation. -/
structure ConnectsClaimants (pf : Platform) (d : Desk) : Prop where
  logged : ∀ id op, d.outgoing id = some op → op.groupId ≠ [] → ∃ c ∈ d.connected, c.receipt.id = id ∧ c.groupId = op.groupId
  rightful : ∀ c ∈ d.connected, Rightful pf d c
  once : ∀ c ∈ d.connected, ∀ c' ∈ d.connected, c.receipt.id = c'.receipt.id → c.groupId = c'.groupId

/-- The invitation is stored with its conversation, or can no longer be used. -/
def Kept (d : Desk) (id groupId : Bytes) : Prop :=
  (∃ op, d.outgoing id = some op ∧ op.groupId = groupId) ∨
    (∀ h ∈ d.store.invitationHellos, h.invitationId ≠ id) ∧ ∀ op, d.outgoing id = some op → op.secret.length ≠ 16

structure Inv (pf : Platform) (d : Desk) : Prop extends ConnectsClaimants pf d where
  secrets : ∀ id op, d.outgoing id = some op → op.secret.length = 16 → (id, op.secret) ∈ d.issued
  hellos : ∀ h ∈ d.store.invitationHellos, h.groupId ≠ [] ∧ Claims pf d h.groupId h.invitationId h.sender
  named : ∀ c ∈ d.connected, c.groupId ≠ []
  kept : ∀ c ∈ d.connected, Kept d c.receipt.id c.groupId

/-- What others leave of the invitations while a command waits. -/
structure Env (d d' : Desk) : Prop where
  issued : d'.issued = d.issued
  connected : d'.connected = d.connected
  heard : ∀ e ∈ d.heard, e ∈ d'.heard
  outgoing : ∀ id op, d'.outgoing id = some op → d.outgoing id = some op

theorem Env.refl (d : Desk) : Env d d := ⟨rfl, rfl, fun _ he => he, fun _ _ ho => ho⟩

theorem Env.trans {d d' d'' : Desk} (h : Env d d') (h' : Env d' d'') : Env d d'' :=
  ⟨h'.issued.trans h.issued, h'.connected.trans h.connected, fun e he => h'.heard e (h.heard e he),
    fun id op ho => h.outgoing id op (h'.outgoing id op ho)⟩

def Guar (pf : Platform) (d d' : Desk) : Prop := Inv pf d → Inv pf d'

/-- Others do not decline the request that is being bound. -/
structure Rely (pf : Platform) (q : Question) (d d' : Desk) : Prop where
  env : Env d d'
  spared : ∀ g, q.binding = some g → declined d.store g = false → declined d'.store g = false
  inv : Inv pf d → Inv pf d'

theorem rely_refl (q : Question) (d : Desk) : Rely pf q d d := ⟨.refl d, fun _ _ h => h, fun h => h⟩

theorem rely_trans (q : Question) (d d' d'' : Desk) (h : Rely pf q d d') (h' : Rely pf q d' d'') : Rely pf q d d'' :=
  ⟨h.env.trans h'.env, fun g hg hd => h'.spared g hg (h.spared g hg hd), fun hi => h'.inv (h.inv hi)⟩

section invariant

variable {d d' : Desk} {op : InvitationOperation} {id : Bytes}

theorem Claims.env {gid identity : Bytes} (h : Claims pf d gid id identity) (hi : ∀ p ∈ d.issued, p ∈ d'.issued)
    (hh : ∀ e ∈ d.heard, e ∈ d'.heard) : Claims pf d' gid id identity := by
  obtain ⟨e, he, hgid, hid, ⟨secret, hsecret, hmem⟩, hm⟩ := h
  exact ⟨e, hh e he, hgid, hid, ⟨secret, hsecret, hi _ hmem⟩, hm⟩

theorem Rightful.env {c : Connection} (h : Rightful pf d c) (hi : ∀ p ∈ d.issued, p ∈ d'.issued) (hh : ∀ e ∈ d.heard, e ∈ d'.heard) :
    Rightful pf d' c := ⟨h.claimed.env hi hh, h.undeclined, h.standing⟩

theorem Inv.shrink (h : Inv pf d) (hissued : d'.issued = d.issued) (hconnected : d'.connected = d.connected)
    (hheard : ∀ e ∈ d.heard, e ∈ d'.heard) (hout : ∀ id op, d'.outgoing id = some op → d.outgoing id = some op)
    (hhellos : ∀ h ∈ d'.store.invitationHellos, h ∈ d.store.invitationHellos)
    (hkept : ∀ id op, d.outgoing id = some op → d'.outgoing id = some op ∨
      d'.outgoing id = none ∧ ∀ h ∈ d'.store.invitationHellos, h.invitationId ≠ id) : Inv pf d' := by
  have hi : ∀ p ∈ d.issued, p ∈ d'.issued := fun p hp => hissued ▸ hp
  refine ⟨⟨fun id op ho hg => ?_, fun c hc => ?_, ?_⟩, fun id op ho hl => ?_, fun e he => ?_, ?_, fun c hc => ?_⟩
  · rw [hconnected]
    exact h.logged id op (hout id op ho) hg
  · exact (h.rightful c (hconnected ▸ hc)).env hi hheard
  · rw [hconnected]
    exact h.once
  · exact hi _ (h.secrets id op (hout id op ho) hl)
  · obtain ⟨hgid, hclaims⟩ := h.hellos e (hhellos e he)
    exact ⟨hgid, hclaims.env hi hheard⟩
  · rw [hconnected]
    exact h.named
  · rcases h.kept c (hconnected ▸ hc) with ⟨op, ho, hg⟩ | ⟨hnone, hsecret⟩
    · rcases hkept _ op ho with ho' | ⟨ho', hnone⟩
      · exact Or.inl ⟨op, ho', hg⟩
      · refine Or.inr ⟨hnone, fun op' hop' => ?_⟩
        rw [ho'] at hop'
        cases hop'
    · exact Or.inr ⟨fun e he => hnone e (hhellos e he), fun op' ho' => hsecret op' (hout _ op' ho')⟩

/-- An operation a command read, or is about to store first. -/
structure Held (d : Desk) (op : InvitationOperation) : Prop where
  direction : op.direction = .outgoing
  secret : op.secret.length = 16 → (op.id, op.secret) ∈ d.issued
  stored : ∀ o, d.outgoing op.id = some o → o.groupId = op.groupId
  logged : op.groupId ≠ [] → ∃ c ∈ d.connected, c.receipt.id = op.id ∧ c.groupId = op.groupId
  kept : ∀ c ∈ d.connected, c.receipt.id = op.id → op.secret.length = 16 → c.groupId = op.groupId

theorem Held.env (h : Held d op) (he : Env d d') : Held d' op := by
  refine ⟨h.direction, fun hl => he.issued ▸ h.secret hl, fun o ho => h.stored o (he.outgoing _ o ho), ?_, ?_⟩
  · rw [he.connected]
    exact h.logged
  · rw [he.connected]
    exact h.kept

theorem Held.congr {op' : InvitationOperation} (h : Held d op) (hid : op'.id = op.id) (hdirection : op'.direction = op.direction)
    (hsecret : op'.secret = op.secret ∨ op'.secret = []) (hgroup : op'.groupId = op.groupId) : Held d op' := by
  have hlength : op'.secret.length = 16 → op'.secret = op.secret := by
    intro hl
    refine hsecret.resolve_right fun he => ?_
    rw [he] at hl
    cases hl
  refine ⟨hdirection.trans h.direction, fun hl => ?_, fun o ho => ?_, ?_, fun c hc hcid hl => ?_⟩
  · rw [hid, hlength hl]
    exact h.secret (hlength hl ▸ hl)
  · exact (h.stored o (hid ▸ ho)).trans hgroup.symm
  · rw [hid, hgroup]
    exact h.logged
  · exact (h.kept c hc (hcid.trans hid) (hlength hl ▸ hl)).trans hgroup.symm

theorem outgoing_id (h : d.outgoing id = some op) : op.id = id ∧ op.direction = .outgoing :=
  Prod.mk.inj (Table.get?_eq_some.1 h).2

theorem Inv.held (h : Inv pf d) (ho : d.outgoing id = some op) : Held d op := by
  obtain ⟨rfl, hdirection⟩ := outgoing_id ho
  refine ⟨hdirection, h.secrets _ op ho, fun o ho' => ?_, h.logged _ op ho, fun c hc hid hl => ?_⟩
  · obtain rfl := Option.some.inj (ho.symm.trans ho')
    rfl
  · rcases h.kept c hc with ⟨o, ho', hg⟩ | ⟨-, hsecret⟩
    · rw [hid] at ho'
      obtain rfl := Option.some.inj (ho.symm.trans ho')
      exact hg.symm
    · exact absurd hl (hsecret op (hid ▸ ho))

theorem held_blank (now : Int) (ho : d.outgoing id = none) : Held d (blank now id) := by
  refine ⟨rfl, nofun, fun o ho' => ?_, fun hg => absurd rfl hg, nofun⟩
  rw [show (blank now id).id = id from rfl, ho] at ho'
  cases ho'

theorem applyRecord_ok {now : Int} {op' : InvitationOperation} {r : InvitationRecord} (h : Net.applyRecord now op r = .ok op') :
    op.id = r.id ∧ op'.id = op.id ∧ op'.direction = op.direction ∧ op'.secret = op.secret ∧ op'.groupId = op.groupId := by
  unfold Net.applyRecord at h
  split at h
  · cases h
  · next hid =>
    split at h
    · cases h
    · obtain rfl := Except.ok.inj h
      exact ⟨by tauto, rfl, rfl, rfl, rfl⟩

theorem Held.record {now : Int} {op' : InvitationOperation} {r : InvitationRecord} (h : Held d op)
    (hr : Net.applyRecord now op r = .ok op') : Held d op' := by
  obtain ⟨-, hid, hdirection, hsecret, hgroup⟩ := applyRecord_ok hr
  exact h.congr hid hdirection (Or.inl hsecret) hgroup

def putBack (op : InvitationOperation) (d : Desk) : Desk := d.setStore (invitationOperationSave op d.store)

theorem outgoing_putBack (hdirection : op.direction = .outgoing) (id : Bytes) :
    (putBack op d).outgoing id = if op.id = id then some op else d.outgoing id := by
  show invitationOperation (invitationOperationSave op d.store) id .outgoing = _
  rw [outgoing_save, hdirection]
  by_cases hid : op.id = id
  · rw [if_pos (by rw [hid]), if_pos hid]
  · rw [if_neg fun hk => hid (Prod.mk.inj hk).1, if_neg hid]
    rfl

theorem Inv.store (h : Inv pf d) (ho : Held d op) : Inv pf (putBack op d) := by
  have hout := outgoing_putBack (d := d) ho.direction
  refine ⟨⟨fun id o ho' hg => ?_, fun c hc => ?_, h.once⟩, fun id o ho' hl => ?_, h.hellos, h.named, fun c hc => ?_⟩
  · rw [hout] at ho'
    split at ho'
    · next hid =>
      obtain rfl := Option.some.inj ho'
      subst hid
      exact ho.logged hg
    · exact h.logged id o ho' hg
  · exact ⟨(h.rightful c hc).claimed, (h.rightful c hc).undeclined, (h.rightful c hc).standing⟩
  · rw [hout] at ho'
    split at ho'
    · next hid =>
      obtain rfl := Option.some.inj ho'
      subst hid
      exact ho.secret hl
    · exact h.secrets id o ho' hl
  · by_cases hid : op.id = c.receipt.id
    · by_cases hgroup : c.groupId = op.groupId
      · exact Or.inl ⟨op, by rw [hout, if_pos hid], hgroup.symm⟩
      · rcases h.kept c hc with ⟨o, ho', hg⟩ | ⟨hnone, -⟩
        · rw [← hid] at ho'
          exact absurd (hg.symm.trans (ho.stored o ho')) hgroup
        · refine Or.inr ⟨hnone, fun o ho' hl => ?_⟩
          rw [hout, if_pos hid] at ho'
          obtain rfl := Option.some.inj ho'
          exact hgroup (ho.kept c hc hid.symm hl)
    · rcases h.kept c hc with ⟨o, ho', hg⟩ | ⟨hnone, hsecret⟩
      · exact Or.inl ⟨o, by rw [hout, if_neg hid, ho'], hg⟩
      · refine Or.inr ⟨hnone, fun o ho' => hsecret o ?_⟩
        rwa [hout, if_neg hid] at ho'

theorem Held.store (h : Held d op) : Held (putBack op d) op := by
  refine ⟨h.direction, h.secret, fun o ho => ?_, h.logged, h.kept⟩
  rw [outgoing_putBack h.direction, if_pos rfl] at ho
  obtain rfl := Option.some.inj ho
  rfl

end invariant

end Arveil.Settling

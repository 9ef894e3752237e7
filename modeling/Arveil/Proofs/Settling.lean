import Arveil.Proofs.Settling.Connection

/-! Whom an invitation connects. The hello's sender is who the roster says the leaf's
device belongs to, and the person's answer is read before the relay is asked again: where
neither misleads, only the claimant is connected, and once. -/

namespace Arveil.Settling

open Client Receive

variable {pf : Platform} {cards : Cards} {s : Session}

section runs

variable {d : Desk} {r : Round}

/-- The hello of an envelope is from the leaf of whoever the profile knows for its device,
the person does not decline the request that is being bound, and a new token is new. -/
def Sound (pf : Platform) (s : Session) (r : Round) : Event → Prop
  | .act (.answer g false) => r.binding ≠ some g
  | .act a => ∀ e ∈ hellosOf pf s r.desk.store a, ∀ id op, Matches r.desk.store e.hello id op → ∀ i, e.sender = some i →
      e.groupId ≠ [] ∧ ∃ m, e.leaf = some m ∧ BoundTo pf.crypto i m
  | .start (.issue none draw _) => Fresh pf r.desk draw
  | _ => True

theorem act_env {a : Act} (hi : invites a = false) (hr : ∀ now mailbox item, a ≠ .receive now mailbox item) (d : Desk) :
    Env d (act pf s a d) := by
  refine ⟨rfl, rfl, fun e he => List.mem_append_right _ he, fun id op ho => ?_⟩
  rw [← ho]
  exact ((step_invitations hi hr d.world).1 id).symm

theorem act_inv {a : Act} (h : Inv pf d) (hi : invites a = false)
    (hsound : ∀ e ∈ hellosOf pf s d.store a, ∀ id op, Matches d.store e.hello id op → ∀ i, e.sender = some i →
      e.groupId ≠ [] ∧ ∃ m, e.leaf = some m ∧ BoundTo pf.crypto i m) : Inv pf (act pf s a d) := by
  have hheard : ∀ e ∈ d.heard, e ∈ (act pf s a d).heard := fun e he => List.mem_append_right _ he
  by_cases hr : ∃ now mailbox item, a = .receive now mailbox item
  · obtain ⟨now, mailbox, item, rfl⟩ := hr
    have hsame {st : Store} (hst : (Act.step pf s d.world (.receive now mailbox item)).store = st)
        (hops : st.invitationOperations = d.store.invitationOperations)
        (hhellos : ∀ h ∈ st.invitationHellos, h ∈ d.store.invitationHellos ∨
          ∃ e ∈ hellosOf pf s d.store (.receive now mailbox item), e.groupId = h.groupId ∧ e.sender = some h.sender ∧
            ∃ op, Matches d.store e.hello h.invitationId op) : Inv pf (act pf s (.receive now mailbox item) d) := by
      have hout (id : Bytes) : (act pf s (.receive now mailbox item) d).outgoing id = d.outgoing id := by
        show (Act.step pf s d.world _).store.invitationOperations.get? (id, .outgoing) = _
        rw [hst, hops]
        rfl
      have hstored (e : InvitationHello) (he : e ∈ (act pf s (.receive now mailbox item) d).store.invitationHellos) :
          e ∈ st.invitationHellos := hst ▸ he
      refine ⟨⟨fun id op ho => h.logged id op (hout id ▸ ho), fun c hc => (h.rightful c hc).env (fun p hp => hp) hheard, h.once⟩,
        fun id op ho => h.secrets id op (hout id ▸ ho), fun e he => ?_, h.named, fun c hc => ?_⟩
      · rcases hhellos e (hstored e he) with hold | ⟨e', he', hgid, hsender, op, hm⟩
        · exact ⟨(h.hellos e hold).1, (h.hellos e hold).2.env (fun p hp => hp) hheard⟩
        · obtain ⟨hnamed, m, hleaf, hbound⟩ := hsound e' he' _ op hm e.sender hsender
          obtain ⟨hid, hop, hsecret, hlength, -⟩ := hm
          exact ⟨hgid ▸ hnamed, e', List.mem_append_left _ he', hgid, hid, ⟨op.secret, hsecret, h.secrets _ op hop hlength⟩, m, hleaf, hbound⟩
      · rcases h.kept c hc with ⟨op, ho, hg⟩ | ⟨hnone, hsecret⟩
        · exact Or.inl ⟨op, (hout _).trans ho, hg⟩
        · refine Or.inr ⟨fun e he hid => ?_, fun op ho => hsecret op (hout _ ▸ ho)⟩
          rcases hhellos e (hstored e he) with hold | ⟨e', -, -, -, op, -, hop, -, hlength, -⟩
          · exact hnone e hold hid
          · exact hsecret op (hid ▸ hop) hlength
    have hstep := @step_receive pf s d.world now mailbox item
    rcases receiveUnit_cases pf s now mailbox item d.world.store with ⟨e', hrun⟩ | ⟨-, hrun⟩ | ⟨t, msg, ch, st', -, hmsg, heff, hrun⟩
    all_goals rw [hrun] at hstep
    · exact hsame hstep rfl fun h hh => Or.inl hh
    · exact hsame hstep rfl fun h hh => Or.inl hh
    · obtain ⟨hops, hhellos⟩ := effect_invitations (s := s) hmsg heff
      exact hsame hstep hops hhellos
  · have hr' : ∀ now mailbox item, a ≠ .receive now mailbox item := fun now mailbox item he => hr ⟨now, mailbox, item, he⟩
    obtain ⟨hout, hhellos⟩ := @step_invitations pf s a hi hr' d.world
    have hout' (id : Bytes) : (act pf s a d).outgoing id = d.outgoing id := hout id
    refine h.shrink rfl rfl hheard (fun id op ho => hout' id ▸ ho) (fun e he => ?_) fun id op ho => Or.inl ((hout' id).trans ho)
    exact hhellos ▸ he

structure RoundInv (pf : Platform) (r : Round) : Prop where
  desk : Inv pf r.desk
  job : ∀ t, r.job = some t → ∃ q, t.asks = some q ∧ Goes pf t (Ends pf) r.desk

theorem inv_guar {d' : Desk} (h : Inv pf d) (hs : Relation.ReflTransGen (Guar pf) d d') : Inv pf d' := by
  induction hs with
  | refl => exact h
  | tail _ hstep ih => exact hstep ih

theorem proceed_inv {t : Talk Unit} (h : Inv pf d) (ht : Goes pf t (Ends pf) d) : RoundInv pf (proceed t d) := by
  obtain ⟨hguar, hleft⟩ := Dialog.go_safe ht
  unfold proceed
  rcases hgo : Dialog.go t d with ⟨t', d'⟩
  rw [hgo] at hguar hleft
  have h' := inv_guar h hguar
  cases t' with
  | done r => exact ⟨h', nofun⟩
  | step f k => exact ⟨h', nofun⟩
  | ask q k =>
    refine ⟨h', fun t ht => ?_⟩
    obtain rfl := Option.some.inj ht
    exact ⟨q, rfl, hleft⟩

theorem RoundInv.elsewhere {d' : Desk} (h : RoundInv pf r) (hi : Inv pf d')
    (hs : ∀ t q, r.job = some t → t.asks = some q → Rely pf q r.desk d') : RoundInv pf { r with desk := d' } := by
  refine ⟨hi, fun t ht => ?_⟩
  obtain ⟨q, hq, hgoes⟩ := h.job t ht
  exact ⟨q, hq, Dialog.safe_rely rely_trans hq hgoes (hs t q ht hq)⟩

theorem talk_goes {c : Command} (h : Inv pf d) (hf : ∀ draw now, c = .issue none draw now → Fresh pf d draw) :
    Goes pf (talk pf cards c) (Ends pf) d := by
  cases c with
  | settle => exact settle_goes h
  | issue id draw now => exact issue_goes h fun hid => hf draw now (by rw [hid])
  | list now => exact list_goes now h
  | revoke id => exact revoke_goes id h

theorem step_inv (h : RoundInv pf r) (e : Event) (hsound : Sound pf s r e) : RoundInv pf (step pf cards s r e) := by
  cases e with
  | act a =>
    dsimp only [step]
    split
    · exact h
    · next hfree =>
      rw [not_or, not_and, Bool.not_eq_true] at hfree
      obtain ⟨hi, hlocked⟩ := hfree
      have hheard : ∀ e ∈ hellosOf pf s r.desk.store a, ∀ id op, Matches r.desk.store e.hello id op → ∀ i, e.sender = some i →
          e.groupId ≠ [] ∧ ∃ m, e.leaf = some m ∧ BoundTo pf.crypto i m := by
        cases a with
        | receive now mailbox item => exact hsound
        | _ => exact fun _ he => absurd he List.not_mem_nil
      have hinv := act_inv h.desk hi hheard
      refine h.elsewhere hinv fun t q ht hq => ?_
      have hunlocked : locked a = false := by
        rw [← Bool.not_eq_true]
        exact fun hl => hlocked hl (by rw [ht]; rfl)
      have hreceive : ∀ now mailbox item, a ≠ .receive now mailbox item := by
        rintro now mailbox item rfl
        cases hunlocked
      refine ⟨act_env hi hreceive r.desk, fun g hg hd => ?_, fun _ => hinv⟩
      refine (step_spared hunlocked hi (fun ha => ?_) r.desk.world).declined hd
      subst ha
      exact hsound (by rw [Round.binding, ht, Option.bind_some, hq, Option.bind_some, hg])
  | cleanup now =>
    have hinv := cleanup_inv now h.desk
    refine h.elsewhere hinv fun t q _ _ => ⟨⟨rfl, rfl, fun e he => he, fun id op ho => (outgoing_cleanup.1 ho).1⟩, fun g _ hd => hd, fun _ => hinv⟩
  | start c =>
    dsimp only [step]
    split
    · exact h
    · refine proceed_inv h.desk (talk_goes h.desk fun draw now hc => ?_)
      subst hc
      exact hsound
  | answer a =>
    dsimp only [step]
    split
    · next t ht =>
      obtain ⟨q, hq, hgoes⟩ := h.job t ht
      exact proceed_inv h.desk (Dialog.safe_reply rely_refl hq hgoes trivial)
    · exact h
  | stop => exact ⟨h.desk, nofun⟩

def New (r : Round) : Prop :=
  r.job = none ∧ r.desk.issued = [] ∧ r.desk.heard = [] ∧ r.desk.connected = [] ∧
    (∀ id, r.desk.outgoing id = none) ∧ r.desk.store.invitationHellos.rows = []

theorem new_inv (h : New r) : RoundInv pf r := by
  obtain ⟨hjob, hissued, hheard, hconnected, hout, hhellos⟩ := h
  have hnone : ∀ c, c ∉ r.desk.connected := by
    rw [hconnected]
    exact fun c => List.not_mem_nil
  refine ⟨⟨⟨fun id op ho => ?_, fun c hc => absurd hc (hnone c), fun c hc => absurd hc (hnone c)⟩, fun id op ho => ?_, fun e he => ?_,
    fun c hc => absurd hc (hnone c), fun c hc => absurd hc (hnone c)⟩, fun t ht => ?_⟩
  · rw [hout] at ho
    cases ho
  · rw [hout] at ho
    cases ho
  · rw [Table.mem_def, hhellos] at he
    cases he
  · rw [hjob] at ht
    cases ht

/-- Where every hello is from the leaf of whom it seems to be from and nothing is declined
while it is being bound, an invitation connects its claimant, and once. -/
theorem connects_claimants (hnew : New r) (events : List Event) (hsound : Trace.Meets (step pf cards s) (Sound pf s) r events) :
    ConnectsClaimants pf (Trace.run (step pf cards s) r events).desk :=
  (Trace.invariant (fun _ e he hr => step_inv hr e he) hsound (new_inv hnew)).desk.toConnectsClaimants

end runs

section demo

open Demo InPerson

def demoSigned : List Bytes :=
  [Identity.signingInput credentialContext (crypto.encodeCredential ⟨1, publicKey [2], [2], publicKey [2, 2],
      (keysOf 2).public.transportNoisePublicKey, (keysOf 2).public.envelopeHpkePublicKey, ⟨0, 100⟩, allUses⟩),
    Identity.signingInput manifestContext (crypto.encodeManifest ⟨1, identityOf 2, 1, [], [demoHash], []⟩)]

def demoPlatform : Platform :=
  { platform with crypto := { crypto with verifyStrict := fun key msg sig => sig = stamp key msg && msg ∈ demoSigned } }

def demoCards : Cards where
  link _ _ _ _ := .ok "card"
  renew link _ := .ok link

def demoId : Bytes := crypto.sha256 [4]
def demoSecret : Bytes := List.replicate 16 1

def demoReceipt (state : String) (claimed : Bytes) : InvitationRecord := ⟨demoId, 0, 1000, state, claimed, 10⟩

def demoRoster (leaf : UInt32) : Bytes := if leaf = 2 then demoRoute ++ [10] ++ routeOf 2 66 72 73 else demoRoute

/-- This device issues an invitation; it is brought into a group, and one of the leaves says
hello with the secret. The relay's receipt names identity 2, and while its credential is
checked the person may decline. -/
def demoEvents (leaf : UInt32) (declines : Bool) : List Event :=
  ([.start (.issue none ⟨[4], demoSecret, [5]⟩ 0),
    .answer ⟨0, .ok (.invitePolicy true 100 1000)⟩,
    .answer ⟨0, .ok (.invitation (demoReceipt "pending" []))⟩,
    .act (.receive 1 [8] (item 1 1 ⟨.welcome, none, welcome.write ([5], demoGroup)⟩)),
    .act (.receive 2 [8] (item 2 2 (eventFrom [7] leaf "roster" (demoRoster leaf)))),
    .act (.receive 3 [8] (item 3 3 (eventFrom [7] leaf "hello" (hello.write ⟨some demoId, some demoSecret, none⟩)))),
    .start .settle,
    .answer ⟨20, .ok (.invitation (demoReceipt "used" (identityOf 2)))⟩] : List Event) ++
  (if declines then [.act (.answer [7] false)] else []) ++
  ([.answer ⟨20, .ok (.credentialFound demoCredential)⟩, .answer ⟨20, .ok (.manifestLatest demoManifest)⟩] : List Event)

def demoStart : Round := ⟨⟨profile, [], [], []⟩, none⟩

def demoRun (leaf : UInt32) (declines : Bool) : Desk :=
  (Trace.run (step demoPlatform demoCards (sessionOf 9)) demoStart (demoEvents leaf declines)).desk

/-- The request is declined in the first run, and the hello comes from another leaf in the second. -/
theorem demo_runs : (demoRun 1 true).connected.any (fun c => declined c.before c.groupId) = true ∧
    (demoRun 2 false).connected.any (fun c => c.receipt.claimedIdentity = identityOf 2) = true ∧
    (demoRun 2 false).heard.map (·.leaf) = [some (demoLeaf 66 2)] := by decide +kernel

theorem verifyCredential_covers {cx : Crypto} {signed : Bytes} {expected : Option Bytes} {now : UInt64}
    {v : Identity.VerifiedCredential} (h : Identity.verifyCredential cx signed expected now = .ok v) :
    ∃ so : SignedObject, cx.decodeCredential so.body = .ok v.credential ∧
      cx.verifyStrict v.root (Identity.signingInput credentialContext so.body) so.signature = true := by
  unfold Identity.verifyCredential at h
  split at h
  · cases h
  · next so hso =>
    split at h
    · cases h
    · next body hbody =>
      split at h
      · cases h
      split at h
      · cases h
      split at h
      · cases h
      · next root hroot =>
        split at h
        · cases h
        split at h
        · cases h
        · next bytes hverified =>
          split at h
          · cases h
          · obtain rfl := Except.ok.inj h
            refine ⟨so, hbody, ?_⟩
            unfold Identity.verify at hverified
            simp only [hso] at hverified
            split at hverified
            · cases hverified
            · next hcontext =>
              split at hverified
              · cases hverified
              · split at hverified
                · next hstrict =>
                  rw [not_not] at hcontext
                  rwa [hcontext] at hstrict
                · cases hverified

theorem demo_bound {m : Member} {identity : Bytes} (h : BoundTo demoPlatform.crypto identity m) : m.deviceId = some [2] := by
  obtain ⟨device, root, signed, hdevice, -, now, v, hv, hd, -⟩ := h
  obtain ⟨so, hcredential, hstrict⟩ := verifyCredential_covers hv
  have hmem : Identity.signingInput credentialContext so.body ∈ demoSigned := of_decide_eq_true (Bool.and_eq_true_iff.1 hstrict).2
  rcases List.mem_cons.1 hmem with hbody | hmanifest
  · have hbody : so.body = _ := List.append_cancel_left hbody
    have hdecoded : crypto.decodeCredential so.body = .ok v.credential := hcredential
    rw [hbody, crypto_lawful.decode_credential] at hdecoded
    rw [hdevice, ← hd, ← Except.ok.inj hdecoded]
  · -- the contexts of a credential and of a manifest differ in length
    have hlength (context : String) (body : Bytes) : (Identity.signingInput context body).take 2 =
        [((utf8 context).length % 2 ^ 16 / 256).toUInt8, ((utf8 context).length % 2 ^ 16 % 256).toUInt8] := rfl
    have hhead := congrArg (·.take 2) (List.mem_singleton.1 hmanifest)
    simp only [hlength] at hhead
    exact absurd hhead (by decide +kernel)

/-- The request was declined while the credential was checked; and the secret came from
another device than the claimant's. -/
theorem connects_another : ¬ ConnectsClaimants demoPlatform (demoRun 1 true) ∧ ¬ ConnectsClaimants demoPlatform (demoRun 2 false) := by
  obtain ⟨hany, hconnected, hheard⟩ := demo_runs
  refine ⟨fun h => ?_, fun h => ?_⟩
  · obtain ⟨c, hc, hdeclined⟩ := List.any_eq_true.1 hany
    rw [(h.rightful c hc).undeclined] at hdeclined
    cases hdeclined
  · obtain ⟨c, hc, -⟩ := List.any_eq_true.1 hconnected
    obtain ⟨e, he, -, -, -, m, hleaf, hbound⟩ := (h.rightful c hc).claimed
    have hmem : some m ∈ (demoRun 2 false).heard.map (·.leaf) := hleaf ▸ List.mem_map_of_mem he
    rw [hheard] at hmem
    obtain rfl := Option.some.inj (List.mem_singleton.1 hmem)
    cases demo_bound hbound

theorem demo_new : New demoStart := by
  refine ⟨rfl, rfl, rfl, rfl, fun id => ?_, rfl⟩
  rfl

theorem demo_leaf : BoundTo demoPlatform.crypto (identityOf 2) (demoLeaf 2 1) := by
  refine ⟨[2], publicKey [2], demoCredential, rfl, rfl, 50, ?_⟩
  have hok : ((Identity.verifyCredential demoPlatform.crypto demoCredential (some (publicKey [2])) 50).toOption.map fun v =>
      (v.credential.deviceId, v.credential.mlsSignaturePublicKey)) = some ([2], publicKey [2, 2]) := by decide +kernel
  obtain ⟨v, hv, hnames⟩ := Option.map_eq_some_iff.1 hok
  obtain ⟨hd, hk⟩ := Prod.mk.inj hnames
  exact ⟨v, ok_of_toOption hv, hd, hk⟩

def demoPlain (r : Round) : Event → Bool
  | .act (.answer g false) => r.binding ≠ some g
  | .act a => (hellosOf demoPlatform (sessionOf 9) r.desk.store a).all fun e =>
      e.groupId ≠ [] && e.sender = some (identityOf 2) && e.leaf = some (demoLeaf 2 1)
  | .start (.issue none draw _) => r.desk.issued.all fun p => p.1 ≠ crypto.sha256 draw.token
  | _ => true

theorem demo_sound_of {r : Round} {e : Event} (h : demoPlain r e = true) : Sound demoPlatform (sessionOf 9) r e := by
  unfold demoPlain at h
  unfold Sound
  split at h
  · exact of_decide_eq_true h
  · next a hother =>
    have hheard : ∀ e ∈ hellosOf demoPlatform (sessionOf 9) r.desk.store a, ∀ id op, Matches r.desk.store e.hello id op → ∀ i,
        e.sender = some i → e.groupId ≠ [] ∧ ∃ m, e.leaf = some m ∧ BoundTo demoPlatform.crypto i m := by
      intro e he id op _ i hi
      have hplain := List.all_eq_true.1 h e he
      simp only [Bool.and_eq_true, decide_eq_true_eq] at hplain
      obtain ⟨⟨hnamed, hsender⟩, hleaf⟩ := hplain
      obtain rfl := Option.some.inj (hi.symm.trans hsender)
      exact ⟨hnamed, demoLeaf 2 1, hleaf, demo_leaf⟩
    exact hheard
  · exact fun p hp => of_decide_eq_true (List.all_eq_true.1 h p hp)
  · trivial

theorem connects_the_claimant : (demoRun 1 false).connected.map (fun c => (c.groupId, c.receipt.claimedIdentity)) = [([7], identityOf 2)] ∧
    ConnectsClaimants demoPlatform (demoRun 1 false) := by
  have hrun : (demoRun 1 false).connected.map (fun c => (c.groupId, c.receipt.claimedIdentity)) = [([7], identityOf 2)] ∧
      Trace.Meets (step demoPlatform demoCards (sessionOf 9)) (fun r e => demoPlain r e = true) demoStart (demoEvents 1 false) := by
    decide +kernel
  obtain ⟨hconnected, hplain⟩ := hrun
  exact ⟨hconnected, connects_claimants demo_new (demoEvents 1 false) (hplain.imp fun _ _ => demo_sound_of)⟩

end demo

end Arveil.Settling
